import Mathlib.Algebra.Order.Group.Defs
import Mathlib.Data.Fintype.Basic
import Mooncake.Lib.Run

/-! The supervisors of the masters and the store that they elect a leader through. A supervisor is in
one of the phases of its loop; while it is leader it has a thread that keeps its lease alive, and a
server. The store has one key, the master view, and leases with a time to live.

Times are those of any ordered group, the same for all. What is assumed of the surroundings is in the
passing of time: a lease ends when it has not been renewed for its time to live, and the thread that
keeps a lease alive has stopped the server at most `delay` after the end of the lease. -/
namespace Mooncake.Ha
open Function

/-- `ETCD_MASTER_VIEW_LEASE_TTL`, and how late a leader may notice that its lease has ended. -/
structure Timing (T : Type) [AddCommGroup T] [LinearOrder T] where
  ttl : T
  delay : T
  nonneg : 0 ≤ delay
  short : delay < ttl

inductive Lease (T : Type) where
  | unused
  | live (expiry : T)
  | ended (time : T)
deriving DecidableEq

def Lease.expiry {T : Type} : Lease T → Option T
  | .live expiry => some expiry
  | _ => none

structure KeyValue where
  revision : Nat
  lease : Nat
deriving DecidableEq

/-- The store. For each lease it is also noted with which revision and when the key was created. -/
structure Etcd (T : Type) where
  now : T
  revision : Nat
  key : Option KeyValue
  leases : Nat → Lease T
  nextLease : Nat
  created : Nat → Option (Nat × T)

inductive WatchEvent where
  | put
  | delete
deriving DecidableEq

/-- The thread that keeps the lease alive: in `KeepAlive`, behind it, or behind `server.stop()`. -/
inductive Keeper where
  | keeping
  | returned
  | finished
deriving DecidableEq

inductive Server where
  | fresh
  | stopped
  | serving
  | closed
  | failed
deriving DecidableEq

def Server.stop : Server → Server
  | .fresh => .stopped
  | .serving => .closed
  | other => other

/-- A supervisor after `ElectLeader` has returned, and when it did. -/
structure Leader (T : Type) where
  lease : Nat
  version : Nat
  returned : T
  keeper : Keeper
  server : Server
deriving DecidableEq

/-- Where a supervisor is in its loop. An answer to the transaction is the revision, or that it failed. -/
inductive Phase (T : Type) where
  | get
  | found
  | watching (pending : List WatchEvent)
  | grant
  | granted (lease : Nat)
  | creating (lease : Nat) (answer : Option (Option Nat))
  | sleeping
  | leader (l : Leader T)
  | exited
deriving DecidableEq

def Phase.lease {T : Type} : Phase T → Option Nat
  | .granted lease => some lease
  | .creating lease _ => some lease
  | .leader l => some l.lease
  | _ => none

/-- All supervisors, the transactions under way, and which masters have begun to serve: version and
lease, the last one first. -/
structure State (ι T : Type) where
  etcd : Etcd T
  requests : List (ι × Nat)
  phase : ι → Phase T
  served : List (Nat × Nat)

/-- What a supervisor can do next. A call of the store, or the start of the server, may fail. -/
inductive Action where
  | get (fails : Bool)
  | openWatch (fails : Bool)
  | deliver
  | watchFails
  | grant (fails : Bool)
  | send
  | receive
  | timeout
  | wake
  | keepAliveReturns
  | stop
  | start (fails : Bool)
  | serverFails
  | join
deriving DecidableEq

/-- The store carries out a transaction that is under way, even if the supervisor does not wait for it any
more; leases are renewed and end, other keys are written, and time passes. -/
inductive Event (ι T : Type) where
  | act (p : ι) (action : Action)
  | commit (p : ι) (lease : Nat)
  | renew (lease : Nat)
  | endLease (lease : Nat)
  | write
  | pass (duration : T)
deriving DecidableEq

namespace Etcd
variable {T : Type} [AddCommGroup T] [LinearOrder T]

def start : Etcd T := ⟨0, 1, none, fun _ => .unused, 0, fun _ => none⟩

variable (timing : Timing T) (e : Etcd T)

def grantLease : Etcd T :=
  { e with leases := update e.leases e.nextLease (.live (e.now + timing.ttl)), nextLease := e.nextLease + 1 }

def renew (lease : Nat) : Etcd T :=
  match e.leases lease with
  | .live _ => { e with leases := update e.leases lease (.live (e.now + timing.ttl)) }
  | _ => e

def createWithLease (lease : Nat) : Option (Etcd T) :=
  match e.key, e.leases lease with
  | none, .live _ =>
    some { e with
      revision := e.revision + 1
      key := some ⟨e.revision + 1, lease⟩
      created := update e.created lease (some (e.revision + 1, e.now)) }
  | _, _ => none

def endLease (lease : Nat) : Etcd T :=
  let e' := { e with leases := update e.leases lease (.ended e.now) }
  match e.key with
  | some kv => if kv.lease = lease then { e' with revision := e.revision + 1, key := none } else e'
  | none => e'

/-- When a leader whose lease has ended must have stopped its server, counted from the end of the lease, or
from its election if that was later. -/
def deadline : Phase T → Option T
  | .leader l =>
    match l.keeper, e.leases l.lease with
    | .finished, _ => none
    | _, .ended ended => some (max ended l.returned + timing.delay)
    | _, _ => none
  | _ => none

end Etcd

def Server.start (fails : Bool) : Server → Option Server
  | .fresh => some (if fails then .failed else .serving)
  | .stopped => some .failed
  | _ => none

namespace Phase
variable {T : Type} [AddCommGroup T] [LinearOrder T]

/-- After the server has closed the supervisor runs for election again; after a failed start it exits.
Either way it joins the thread first. -/
def join (l : Leader T) : Option (Phase T) :=
  match l.keeper, l.server with
  | .finished, .closed => some .get
  | .finished, .failed => some .exited
  | _, _ => none

def next (timing : Timing T) (e : Etcd T) : Action → Phase T → Option (Phase T)
  | .get fails, .get => some (if fails then .sleeping else if e.key.isSome then .found else .grant)
  | .openWatch fails, .found => some (if fails then .sleeping else .watching [])
  | .deliver, .watching (.put :: rest) => some (.watching rest)
  | .deliver, .watching (.delete :: _) => some .grant
  | .watchFails, .watching _ => some .sleeping
  | .grant fails, .grant => some (if fails then .sleeping else .granted e.nextLease)
  | .send, .granted lease => some (.creating lease none)
  | .receive, .creating lease (some (some version)) => some (.leader ⟨lease, version, e.now, .keeping, .fresh⟩)
  | .receive, .creating _ (some none) => some .sleeping
  | .timeout, .creating _ _ => some .sleeping
  | .wake, .sleeping => some .get
  | .keepAliveReturns, .leader l => if l.keeper = .keeping then some (.leader { l with keeper := .returned }) else none
  | .stop, .leader l =>
    if l.keeper = .returned then some (.leader { l with keeper := .finished, server := l.server.stop }) else none
  | .start fails, .leader l =>
    if l.returned + timing.ttl ≤ e.now then (l.server.start fails).map (fun server => .leader { l with server := server })
    else none
  | .serverFails, .leader l => if l.server = .serving then some (.leader { l with server := .closed }) else none
  | .join, .leader l => join l
  | _, _ => none

end Phase

namespace State
variable {ι T : Type} [DecidableEq ι] (s : State ι T)

def enter (p : ι) (φ : Phase T) : State ι T := { s with phase := update s.phase p φ }

def notify (event : WatchEvent) : State ι T :=
  { s with phase := fun p =>
      match s.phase p with
      | .watching pending => .watching (pending ++ [event])
      | other => other }

variable [AddCommGroup T] [LinearOrder T]

def start : State ι T := ⟨.start, [], fun _ => .get, []⟩

def answer (p : ι) (lease : Nat) (result : Option Nat) : State ι T :=
  if s.phase p = .creating lease none then s.enter p (.creating lease (some result)) else s

def commit (p : ι) (lease : Nat) : State ι T :=
  let s := { s with requests := s.requests.erase (p, lease) }
  match s.etcd.createWithLease lease with
  | none => s.answer p lease none
  | some etcd => (State.notify { s with etcd := etcd } .put).answer p lease (some etcd.revision)

def endLease (lease : Nat) : State ι T :=
  let s' := { s with etcd := s.etcd.endLease lease }
  if s.etcd.key.isSome ∧ s'.etcd.key = none then s'.notify .delete else s'

variable (timing : Timing T)

/-- What the action does outside of the supervisor, which is now in this phase. -/
def effect (s : State ι T) (p : ι) : Action → Phase T → State ι T
  | .grant _, .granted _ => { s with etcd := s.etcd.grantLease timing }
  | .send, .creating lease _ => { s with requests := (p, lease) :: s.requests }
  | .start _, .leader l => if l.server = .serving then { s with served := (l.version, l.lease) :: s.served } else s
  | _, _ => s

def act (s : State ι T) (p : ι) (action : Action) : Option (State ι T) :=
  (Phase.next timing s.etcd action (s.phase p)).map (fun φ => (s.enter p φ).effect timing p action φ)

variable [Fintype ι]

/-- Until this time no live lease has run out, and no leader is late to stop its server. -/
def MayPass (s : State ι T) (time : T) : Prop :=
  (∀ lease < s.etcd.nextLease, ∀ expiry ∈ (s.etcd.leases lease).expiry, time ≤ expiry) ∧
    ∀ p, ∀ limit ∈ s.etcd.deadline timing (s.phase p), time ≤ limit

instance (timing : Timing T) (s : State ι T) (time : T) : Decidable (s.MayPass timing time) :=
  inferInstanceAs (Decidable (_ ∧ _))

def step (s : State ι T) : Event ι T → Option (State ι T)
  | .act p action => s.act timing p action
  | .commit p lease => if (p, lease) ∈ s.requests then some (s.commit p lease) else none
  | .renew lease => some { s with etcd := s.etcd.renew timing lease }
  | .endLease lease =>
    match s.etcd.leases lease with
    | .live _ => some (s.endLease lease)
    | _ => none
  | .write => some { s with etcd := { s.etcd with revision := s.etcd.revision + 1 } }
  | .pass duration =>
    if 0 ≤ duration ∧ s.MayPass timing (s.etcd.now + duration) then
      some { s with etcd := { s.etcd with now := s.etcd.now + duration } }
    else none

def Serving (p : ι) : Prop := ∃ l, s.phase p = .leader l ∧ l.server = .serving

end State

end Mooncake.Ha
