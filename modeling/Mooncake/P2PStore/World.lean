import Mooncake.P2PStore.Counts
import Mooncake.P2PStore.GetReplica

/-! Any number of P2P stores that register, fetch and give up one name, with etcd between them. A step of a call
ends at an operation of etcd, at a registration of memory, at the catalog or at a transfer. -/
namespace Mooncake.P2PStore

/-! ## etcd -/

/-- A registration of the name, with the bytes of its shards. No field of the store says which one a payload is
of. -/
structure Version where
  number : Nat
  contents : List (List UInt8)
deriving DecidableEq

structure Stored where
  payload : Payload
  revision : Nat
  version : Version

structure Etcd where
  stored : Option Stored
  revision : Nat
  versions : Nat

namespace Etcd

variable (etcd : Etcd)

def get : Option (Payload × Nat) := etcd.stored.map fun s => (s.payload, s.revision)

variable (payload : Payload)

def put (contents : List (List UInt8)) : Etcd :=
  ⟨some ⟨payload, etcd.revision + 1, ⟨etcd.versions, contents⟩⟩, etcd.revision + 1, etcd.versions + 1⟩

def create (contents : List (List UInt8)) : Option Etcd :=
  if etcd.stored.isSome then none else some (etcd.put payload contents)

def update (revision : Nat) : Bool × Etcd :=
  match etcd.stored with
  | none => (false, etcd)
  | some s =>
    if s.revision = revision then
      (true, { etcd with
        stored := if payload.isEmpty then none else some { s with payload := payload, revision := etcd.revision + 1 }
        revision := etcd.revision + 1 })
    else (false, etcd)

end Etcd

/-! ## A store and its calls -/

structure Params where
  isGold : Bool
  buffers : List (Nat × Nat)
  maxShardSize : Nat

inductive Removal where
  | unregister
  | deleteReplica
deriving DecidableEq

def Removal.apply (localServerName : String) : Removal → Payload → Payload
  | .unregister => Payload.clearGold
  | .deleteReplica => Payload.dropReplicas localServerName

inductive CallState where
  /-- `Register`, with the buffers that are not in the registered memory yet -/
  | registering (buffers todo : List (Nat × Nat)) (maxShardSize : Nat) (forceCreate : Bool)
  /-- the payload is stored, and the catalog has no entry yet -/
  | recording (isGold : Bool) (buffers : List (Nat × Nat)) (maxShardSize : Nat)
  | reading (removal : Removal) (params : Params)
  | writing (removal : Removal) (params : Params) (payload : Payload) (revision : Nat)
  /-- the payload is updated, and the catalog still has the entry -/
  | forgetting (params : Params)
  /-- the rest of the buffers is taken out of the registered memory -/
  | removing (todo : List (Nat × Nat)) (maxShardSize : Nat)
  /-- `GetReplica`, and of which registration the payload is that it has read -/
  | getting (buffers : List (Nat × Nat)) (phase : GetPhase) (version : Option Version)

def CallState.buffers : CallState → List (Nat × Nat)
  | .registering buffers _ _ _ | .recording _ buffers _ => buffers
  | .reading _ params | .writing _ params _ _ | .forgetting params => params.buffers
  | .removing todo _ => todo
  | .getting _ (.abandoned _ _) _ => []
  | .getting buffers _ _ => buffers

structure Store where
  session : Session
  memory : Memory
  catalog : Option Params
  dead : Bool
  calls : List (Nat × CallState)

/-- An operation of etcd is answered, or ends with an error: it has not been carried out, or its answer is lost.
-/
inductive Answer where
  | given
  | failed
  | lost
deriving DecidableEq

/-- What the call meets next: etcd, the registered memory, a goroutine of its own, or the catalog. -/
inductive Choice where
  | etcd (answer : Answer)
  | memory (conduct : Conduct)
  | transfer (k random : Nat) (attempts : Nat → Attempt)
  | check (k : Nat)
  | wait
  | catalog

namespace Store

def start (memory : Memory) : Store := ⟨.start, memory, none, false, []⟩

variable (st : Store) (c : Nat)

def begin (call : CallState) : Store := { st with calls := (c, call) :: st.calls }

def enter (call : CallState) : Store :=
  { st with calls := st.calls.map fun entry => if entry.1 = c then (c, call) else entry }

def finish : Store := { st with calls := st.calls.filter fun entry => entry.1 ≠ c }

def crash : Store := { st with session := .start, catalog := none, dead := true, calls := [] }

def perform (call : Call) : Option (Reply × Store) :=
  (st.session.memory.perform maxChunkSize call).map fun (reply, memory) =>
    (reply, { st with session := st.session.note memory reply call })

/-- The rest of `unregisterBuffers`, or of the last loop of `Unregister` and `DeleteReplica`, then the return.
-/
def leave (todo : List (Nat × Nat)) (maxShardSize : Nat) : Store :=
  if todo.isEmpty then st.finish c else st.enter c (.removing todo maxShardSize)

def proceed (buffers : List (Nat × Nat)) (version : Option Version) : GetPhase → Store
  | .finished (.returned _) => st.finish c
  | .finished _ => st.crash
  | phase => st.enter c (.getting buffers phase version)

def getStep (segments : Segments) (i : String) (st : Store) (c : Nat) (buffers : List (Nat × Nat)) (phase : GetPhase)
    (version : Option Version) (input : GetInput) : Option Store :=
  (Getting.step segments i buffers ⟨phase, st.memory⟩ input).map fun g =>
    { st with memory := g.memory }.proceed c buffers version g.phase

def versionRead (etcd : Etcd) (phase : GetPhase) (version : Option Version) : Option Version :=
  match phase with
  | .reading => etcd.stored.map Stored.version
  | _ => version

def getReply (etcd : Etcd) (answer : Answer) : GetReply :=
  if answer = .given then .ok etcd.get else .error .transferEngine

def advance (name : String) (segments : Segments) (etcd : Etcd) (i : String) (st : Store) (c : Nat)
    (choice : Choice) : Option (Store × Etcd) :=
  match st.calls.lookup c, choice with
  | some (.registering buffers (b :: todo) maxShardSize forceCreate), .memory conduct =>
    (st.perform (.add b.1 b.2 maxShardSize conduct)).map fun (reply, st') =>
      (match reply with
        | .ok => st'.enter c (.registering buffers todo maxShardSize forceCreate)
        | .error _ => st'.leave c (buffers.take (buffers.length - (todo.length + 1))) maxShardSize
        | .panicked => st'.crash, etcd)
  | some (.registering buffers [] maxShardSize forceCreate), .etcd answer =>
    let payload := Payload.register i name maxShardSize buffers
    let contents := shardContents st.memory maxShardSize buffers
    some (match if forceCreate then some (etcd.put payload contents) else etcd.create payload contents, answer with
      | some etcd', .given => (st.enter c (.recording true buffers maxShardSize), etcd')
      | some etcd', .lost => (st.leave c buffers maxShardSize, etcd')
      | _, _ => (st.leave c buffers maxShardSize, etcd))
  | some (.recording isGold buffers maxShardSize), .catalog =>
    some ({ st with catalog := some ⟨isGold, buffers, maxShardSize⟩ }.finish c, etcd)
  | some (.reading removal params), .etcd answer =>
    some (match answer, etcd.get with
      | .given, some (payload, revision) => (st.enter c (.writing removal params (removal.apply i payload) revision), etcd)
      | _, _ => (st.finish c, etcd))
  | some (.writing removal params payload revision), .etcd answer =>
    some (match answer, etcd.update payload revision with
      | .failed, _ => (st.finish c, etcd)
      | .lost, (_, etcd') => (st.finish c, etcd')
      | .given, (true, etcd') => (st.enter c (.forgetting params), etcd')
      | .given, (false, _) => (st.enter c (.reading removal params), etcd))
  | some (.forgetting params), .catalog =>
    some ({ st with catalog := none }.leave c params.buffers params.maxShardSize, etcd)
  | some (.removing (b :: todo) maxShardSize), .memory conduct =>
    (st.perform (.remove b.1 b.2 maxShardSize conduct)).map fun (reply, st') =>
      (if reply = .panicked then st'.crash else st'.leave c todo maxShardSize, etcd)
  | some (.getting buffers (.updating payload revision) version), .etcd answer =>
    let updated := fun reply => st.getStep segments i c buffers (.updating payload revision) version (.updated reply)
    match answer, etcd.update payload revision with
    | .failed, _ => (updated (.error .transferEngine)).map (·, etcd)
    | .lost, (_, etcd') => (updated (.error .transferEngine)).map (·, etcd')
    | .given, (true, etcd') => some (st.enter c (.recording false buffers payload.maxShardSize), etcd')
    | .given, (false, _) => (updated (.ok false)).map (·, etcd)
  | some (.getting buffers phase version), .etcd answer =>
    (st.getStep segments i c buffers phase (versionRead etcd phase version) (.got (getReply etcd answer))).map (·, etcd)
  | some (.getting buffers (.downloading payload revision d) version), .memory conduct =>
    match d.rest with
    | [] => none
    | (addr, size) :: _ =>
      (st.perform (.add addr size payload.maxShardSize conduct)).bind fun (reply, st') =>
        match reply with
        | .ok => (st'.getStep segments i c buffers (.downloading payload revision d) version (.added none)).map (·, etcd)
        | .error e => (st'.getStep segments i c buffers (.downloading payload revision d) version
            (.added (some e))).map (·, etcd)
        | .panicked => some (st'.crash, etcd)
  | some (.getting buffers phase version), .transfer k random attempts =>
    (st.getStep segments i c buffers phase version (.transferred k random attempts)).map (·, etcd)
  | some (.getting buffers phase version), .check k =>
    (st.getStep segments i c buffers phase version (.checked k)).map (·, etcd)
  | some (.getting buffers phase version), .wait => (st.getStep segments i c buffers phase version .waited).map (·, etcd)
  | _, _ => none

def keeps (a : Nat) : Bool :=
  ((st.catalog.map Params.buffers).getD [] ++ st.calls.flatMap (fun entry => entry.2.buffers)).any
    fun buffer => buffer.1 ≤ a ∧ a < buffer.1 + buffer.2

end Store

/-! ## The world -/

structure World where
  stores : String → Store
  etcd : Etcd

inductive Event where
  | register (i : String) (c : Nat) (addrList sizeList : List Nat) (maxShardSize : Nat) (forceCreate : Bool)
  | getReplica (i : String) (c : Nat) (addrList sizeList : List Nat)
  | remove (i : String) (c : Nat) (removal : Removal)
  | advance (i : String) (c : Nat) (choice : Choice)
  | write (i : String) (a : Nat) (byte : UInt8)

def Event.owner : Event → String
  | .register i _ _ _ _ _ | .getReplica i _ _ _ | .remove i _ _ | .advance i _ _ | .write i _ _ => i

namespace World

def start (memories : String → Memory) : World := ⟨fun i => .start (memories i), ⟨none, 0, 0⟩⟩

def segments (w : World) : Segments := fun i => (w.stores i).memory

def act (name : String) (w : World) : Event → Option (Store × Etcd)
  | .register i c addrList sizeList maxShardSize forceCreate =>
    let st := w.stores i
    if addrList.length ≠ sizeList.length ∨ addrList.length = 0 ∨ st.catalog.isSome then some (st, w.etcd)
    else
      let buffers := addrList.zip sizeList
      some (st.begin c (.registering buffers buffers maxShardSize forceCreate), w.etcd)
  | .getReplica i c addrList sizeList =>
    let st := w.stores i
    match GetPhase.start st.catalog.isSome addrList sizeList with
    | .reading => some (st.begin c (.getting (addrList.zip sizeList) .reading none), w.etcd)
    | _ => some (st, w.etcd)
  | .remove i c removal =>
    let st := w.stores i
    match st.catalog with
    | none => some (st, w.etcd)
    | some params => some (st.begin c (.reading removal params), w.etcd)
  | .advance i c choice => (w.stores i).advance name w.segments w.etcd i c choice
  | .write i a byte =>
    let st := w.stores i
    if st.keeps a then none else some ({ st with memory := Function.update st.memory a byte }, w.etcd)

/-- A call that begins has a number of its own. A dead process does nothing. -/
def admits (w : World) : Event → Bool
  | .register i c _ _ _ _ | .getReplica i c _ _ | .remove i c _ =>
    !(w.stores i).dead && ((w.stores i).calls.lookup c).isNone
  | event => !(w.stores event.owner).dead

def step (name : String) (w : World) (event : Event) : Option World :=
  if w.admits event then
    (w.act name event).map fun (st, etcd) => ⟨Function.update w.stores event.owner st, etcd⟩
  else none

/-- Every place that is listed lies in memory that is registered there and holds the bytes of its shard. -/
def Truthful (w : World) : Prop :=
  ∀ s, w.etcd.stored = some s → ∀ (k : Nat) (shard : Shard), s.payload.shards[k]? = some shard →
    ∃ content, s.version.contents[k]? = some content ∧ ∀ location ∈ shard.locations,
      (∀ b < shard.length, ∃ base size, (w.stores location.segmentName).session.memory.engine base = some size ∧
        base ≤ location.offset + b ∧ location.offset + b < base + size) ∧
      Extent.read (w.stores location.segmentName).memory location.offset shard.length = content

end World

end Mooncake.P2PStore
