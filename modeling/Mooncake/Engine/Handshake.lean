import Mathlib.Logic.Function.Basic
import Mooncake.Lib.Run

/-! The handshake of RDMA endpoints between processes. A worker that opens a connection keeps the lock of its
endpoint until it has the answer; the one daemon of a process answers requests in turn. For each it takes the
endpoint of its side out of the store, asks the store for one again, which is a new one unless a worker has been
there first, and takes its lock. In P2P mode either side may have to ask the daemon of the other for its segment
descriptor, under the segment lock.

A step of a thread ends where another thread can see a difference: at a lock, at a message, at the end. Timeouts
are no steps. -/
namespace Mooncake.Engine.Handshake
open Function

structure Endpoint (Nic : Type) where
  own : Nic
  peer : Nic
deriving DecidableEq

def Endpoint.swap {Nic : Type} (e : Endpoint Nic) : Endpoint Nic := ⟨e.peer, e.own⟩

/-- The store has one at a time for a pair of NICs; the number tells it from the ones before. -/
structure RdmaEndPoint (Nic : Type) where
  pair : Endpoint Nic
  number : Nat
deriving DecidableEq

inductive Thread (Proc Worker : Type) where
  | worker (w : Worker)
  | daemon (p : Proc)
deriving DecidableEq

inductive Request (Proc Nic Worker : Type) where
  | connection (w : Worker) (e : Endpoint Nic)
  | metadata (t : Thread Proc Worker)
deriving DecidableEq

namespace Request
variable {Proc Nic Worker : Type}

def client : Request Proc Nic Worker → Thread Proc Worker
  | .connection w _ => .worker w
  | .metadata t => t

def isMetadata : Request Proc Nic Worker → Bool
  | .connection _ _ => false
  | .metadata _ => true

end Request

inductive WorkerPhase (Nic : Type) where
  | idle
  | locking (o : RdmaEndPoint Nic)
  | locked (o : RdmaEndPoint Nic)
  | waiting (o : RdmaEndPoint Nic)
  | replied (o : RdmaEndPoint Nic) (accepted : Bool)
  | describing (o : RdmaEndPoint Nic)
  | fetching (o : RdmaEndPoint Nic)
  | fetched (o : RdmaEndPoint Nic)
deriving DecidableEq

/-- The listener of the daemon, with `onSetupRdmaConnections` and `setupConnectionsByPassive` on the endpoint
that has this number. After its reply it waits until the client has closed the connection. -/
inductive DaemonPhase (Proc Nic Worker : Type) where
  | idle
  | serving (r : Request Proc Nic Worker)
  | deleted (w : Worker) (e : Endpoint Nic)
  | found (w : Worker) (e : Endpoint Nic) (number : Nat)
  | locked (w : Worker) (e : Endpoint Nic) (number : Nat)
  | fetching (w : Worker) (e : Endpoint Nic) (number : Nat)
  | fetched (w : Worker) (e : Endpoint Nic) (number : Nat)
  | replying (r : Request Proc Nic Worker) (accepted : Bool)
  | answered (t : Thread Proc Worker) (closed : Bool)
deriving DecidableEq

structure Net (Proc Nic Worker : Type) where
  owner : Nic → Proc
  home : Worker → Proc
  p2pHandshakeMode : Bool
  metacache : Bool

structure State (Proc Nic Worker : Type) where
  worker : Worker → WorkerPhase Nic
  daemon : Proc → DaemonPhase Proc Nic Worker
  queue : Proc → List (Request Proc Nic Worker)
  number : Endpoint Nic → Nat
  locks : RdmaEndPoint Nic → Option (Thread Proc Worker)
  segmentLock : Proc → Option (Thread Proc Worker)
  connected : RdmaEndPoint Nic → Bool
  cached : Proc → Proc → Bool

structure Outcome where
  constructed : Bool
  described : Bool
  connected : Bool

inductive Event (Proc Nic Worker : Type) where
  | setupConnectionsByActive (w : Worker) (e : Endpoint Nic)
  | deleteEndpoint (e : Endpoint Nic)
  | advance (t : Thread Proc Worker) (outcome : Outcome)

namespace State
variable {Proc Nic Worker : Type} [DecidableEq Proc] [DecidableEq Nic] [DecidableEq Worker]

def start (cached : Proc → Proc → Bool) : State Proc Nic Worker :=
  ⟨fun _ => .idle, fun _ => .idle, fun _ => [], fun _ => 0, fun _ => none, fun _ => none, fun _ => false, cached⟩

variable (s : State Proc Nic Worker)

def enterWorker (w : Worker) (phase : WorkerPhase Nic) : State Proc Nic Worker :=
  { s with worker := update s.worker w phase }

variable (p : Proc)

def enterDaemon (phase : DaemonPhase Proc Nic Worker) : State Proc Nic Worker :=
  { s with daemon := update s.daemon p phase }

/-- The next time the store is asked it has a new endpoint. -/
def deleteEndpoint (e : Endpoint Nic) : State Proc Nic Worker :=
  { s with number := update s.number e (s.number e + 1) }

def setLock (o : RdmaEndPoint Nic) (t : Option (Thread Proc Worker)) : State Proc Nic Worker :=
  { s with locks := update s.locks o t }

def setSegmentLock (t : Option (Thread Proc Worker)) : State Proc Nic Worker :=
  { s with segmentLock := update s.segmentLock p t }

def setConnected (o : RdmaEndPoint Nic) (flag : Bool) : State Proc Nic Worker :=
  { s with connected := update s.connected o flag }

/-- The descriptor of `q` is in the cache of `p` if it could be decoded, and the segment lock is free. -/
def remember (p q : Proc) (described : Bool) : State Proc Nic Worker :=
  { s with
    cached := update s.cached p (update (s.cached p) q (described || s.cached p q))
    segmentLock := update s.segmentLock p none }

def send (r : Request Proc Nic Worker) : State Proc Nic Worker :=
  { s with queue := update s.queue p (s.queue p ++ [r]) }

def close (t : Thread Proc Worker) : State Proc Nic Worker :=
  if s.daemon p = .answered t false then s.enterDaemon p (.answered t true) else s

def finish (w : Worker) (o : RdmaEndPoint Nic) : State Proc Nic Worker :=
  (s.setLock o none).enterWorker w .idle

def finishPassive (w : Worker) (e : Endpoint Nic) (number : Nat) (ok : Bool) : State Proc Nic Worker :=
  ((s.setConnected ⟨e.swap, number⟩ ok).setLock ⟨e.swap, number⟩ none).enterDaemon p (.replying (.connection w e) ok)

variable (n : Net Proc Nic Worker) (s : State Proc Nic Worker)

/-- Whether `getSegmentDescByName` answers without asking a daemon: from the storage, for the own segment, or
from the cache. -/
def known (p q : Proc) : Bool :=
  !n.p2pHandshakeMode || decide (p = q) || (n.metacache && s.cached p q)

def deliver : Request Proc Nic Worker → Bool → State Proc Nic Worker
  | .connection w _, accepted =>
    match s.worker w with
    | .waiting o => s.enterWorker w (.replied o accepted)
    | _ => s
  | .metadata (.worker w), _ =>
    match s.worker w with
    | .fetching o => s.enterWorker w (.fetched o)
    | _ => s
  | .metadata (.daemon q), _ =>
    match s.daemon q with
    | .fetching w e number => s.enterDaemon q (.fetched w e number)
    | _ => s

def advanceWorker (w : Worker) (outcome : Outcome) : Option (State Proc Nic Worker) :=
  match s.worker w with
  | .idle | .waiting _ | .fetching _ => none
  | .locking o => if s.locks o = none then some ((s.setLock o (some (.worker w))).enterWorker w (.locked o)) else none
  | .locked o =>
    if s.connected o then some (s.finish w o)
    else if o.pair.own = o.pair.peer then some ((s.setConnected o outcome.connected).finish w o)
    else some ((s.send (n.owner o.pair.peer) (.connection w o.pair)).enterWorker w (.waiting o))
  | .replied o accepted =>
    let s' := s.close (n.owner o.pair.peer) (.worker w)
    some (if accepted then s'.enterWorker w (.describing o) else s'.finish w o)
  | .describing o =>
    if s.segmentLock (n.home w) = none then
      if s.known n (n.home w) (n.owner o.pair.peer) then
        some ((s.setConnected o (outcome.described && outcome.connected)).finish w o)
      else
        some (((s.setSegmentLock (n.home w) (some (.worker w))).send (n.owner o.pair.peer)
          (.metadata (.worker w))).enterWorker
          w (.fetching o))
    else none
  | .fetched o =>
    let s' := (s.close (n.owner o.pair.peer) (.worker w)).remember (n.home w) (n.owner o.pair.peer) outcome.described
    some ((s'.setConnected o (outcome.described && outcome.connected)).finish w o)

/-- The build always defines `CONFIG_ERDMA`, so a request for a connection begins with the deletion. -/
def advanceDaemon (p : Proc) (outcome : Outcome) : Option (State Proc Nic Worker) :=
  match s.daemon p with
  | .idle =>
    match s.queue p with
    | [] => none
    | r :: rest => some ({ s with queue := update s.queue p rest }.enterDaemon p (.serving r))
  | .serving (.metadata t) => some (s.enterDaemon p (.replying (.metadata t) true))
  | .serving (.connection w e) => some ((s.deleteEndpoint e.swap).enterDaemon p (.deleted w e))
  | .deleted w e =>
    some (s.enterDaemon p (if outcome.constructed then .found w e (s.number e.swap) else .replying (.connection w e) false))
  | .found w e number =>
    if s.locks ⟨e.swap, number⟩ = none then
      some (((s.setConnected ⟨e.swap, number⟩ false).setLock ⟨e.swap, number⟩ (some (.daemon p))).enterDaemon p
        (.locked w e number))
    else none
  | .locked w e number =>
    if s.segmentLock p = none then
      if s.known n p (n.owner e.own) then some (s.finishPassive p w e number (outcome.described && outcome.connected))
      else
        some (((s.setSegmentLock p (some (.daemon p))).send (n.owner e.own) (.metadata (.daemon p))).enterDaemon p
          (.fetching w e number))
    else none
  | .fetching _ _ _ => none
  | .fetched w e number =>
    let s' := (s.close (n.owner e.own) (.daemon p)).remember p (n.owner e.own) outcome.described
    some (s'.finishPassive p w e number (outcome.described && outcome.connected))
  | .replying r accepted => some ((s.deliver r accepted).enterDaemon p (.answered r.client false))
  | .answered _ closed => if closed then some (s.enterDaemon p .idle) else none

/-- A worker calls for an endpoint of its own process, the one the store has. Endpoints are also deleted after a
failure and evicted. -/
def step : Event Proc Nic Worker → Option (State Proc Nic Worker)
  | .setupConnectionsByActive w e =>
    if s.worker w = .idle ∧ n.owner e.own = n.home w then some (s.enterWorker w (.locking ⟨e, s.number e⟩)) else none
  | .deleteEndpoint e => some (s.deleteEndpoint e)
  | .advance (.worker w) outcome => s.advanceWorker n w outcome
  | .advance (.daemon p) outcome => s.advanceDaemon n p outcome

/-- A handshake has no answer yet, and no thread that is in the middle of something can go on. -/
def Deadlocked : Prop :=
  (∃ w o, s.worker w = .waiting o) ∧ ∀ t outcome, s.step n (.advance t outcome) = none

end State

end Mooncake.Engine.Handshake
