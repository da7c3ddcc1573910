import Mooncake.Lib.Run
import Mooncake.Master.Segment
import Mooncake.Master.Strategy
import Mooncake.Master.Sweeps

/-! The master as one state machine. An event is one critical section of a mutex, one call
of an allocator under the shared segment lock, or one step of the monitor thread; events
of different threads interleave freely as far as the locks allow. The clock moves only by
`tick` and never back. What the code leaves open is left to the event: the iteration order
of a map, the shuffle, whether the ping queue takes an element. -/
namespace Mooncake.Master
open Function
variable {A H : Type}

def kNumShards : Nat := 1024

/-- The configuration, and the library functions the master calls. -/
structure Params where
  hash : String → Nat
  resolvePath : String → String
  /-- `none` for a pattern that does not compile, otherwise `std::regex_search` with it. -/
  regex : String → Option (String → Bool)
  /-- `std::ceil` of a product in floating point. -/
  ceilTimes : Int → ℚ → Int
  memoryAllocator : BufferAllocatorType
  defaultKvLeaseTtl : Nat
  defaultKvSoftPinTtl : Nat
  allowEvictSoftPinnedObjects : Bool
  clientLiveTtlSec : Int
  useDiskReplica : Bool

variable (p : Params)

def Params.getShardIndex (key : String) : Fin kNumShards :=
  ⟨p.hash key % kNumShards, Nat.mod_lt _ (by decide)⟩

/-- `PutStart` between taking and releasing the mutex of its shard. -/
inductive PutPhase (H : Type) where
  /-- The key is free; the segment lock is next. -/
  | locked
  /-- Under the shared segment lock, with the buffers it owns so far. -/
  | allocating (held : List (AllocatedBuffer H)) (program : AllocProgram H (Except ErrorCode (List (Replica H))))
  /-- The segment lock is released. -/
  | inserting (replicas : List (Replica H))

structure PutTask (H : Type) where
  key : String
  sliceLengths : List Nat
  config : ReplicateConfig
  phase : PutPhase H

def PutTask.totalLength (t : PutTask H) : Nat := t.sliceLengths.foldl (fun sum n => (sum + n) % 2 ^ 64) 0

theorem foldl_mod_eq {M : Nat} (positive : 0 < M) (ns : List Nat) {a : Nat} (small : a < M) :
    ns.foldl (fun sum n => (sum + n) % M) a = (a + ns.sum) % M := by
  induction ns generalizing a with
  | nil => exact (Nat.mod_eq_of_lt small).symm
  | cons n ns ih =>
    rw [List.foldl_cons, ih (Nat.mod_lt _ positive), List.sum_cons, Nat.mod_add_mod, Nat.add_assoc]

theorem totalLength_eq (task : PutTask H) : task.totalLength = task.sliceLengths.sum % 2 ^ 64 := by
  rw [PutTask.totalLength, foldl_mod_eq (by decide) _ (by decide), Nat.zero_add]

/-- A mount that has pushed its client to the ping queue; it holds the segment lock, and a
remount the client lock too. -/
inductive MountTask where
  | mount (segment : Segment) (client : UUID)
  | reMount (segments : List Segment) (client : UUID)

/-- A request that takes the mutexes of the shards one after the other. -/
inductive Task where
  | unmount (segment client : UUID) (decCapacity next : Nat)
  | removeByRegex (found : String → Bool) (next removed : Nat)
  | removeAll (now : Int) (next removed : Nat)
  | replicaListByRegex (found : String → Bool) (next : Nat) (results : List (String × List ReplicaDescriptor))
  | evict (state : Eviction)

/-- Where the monitor thread is in its loop. A commit is a segment, its client and its size. -/
inductive MonitorPhase where
  | sleeping
  | draining (now : Int)
  | expiring (clients : List UUID)
  | sweeping (commits : List (UUID × UUID × Nat)) (next : Nat)

structure World (A H : Type) where
  clock : Int := 0
  shards : Fin kNumShards → Shard H := fun _ => ∅
  busy : Fin kNumShards → Option (PutTask H) := fun _ => none
  segments : SegmentManager
  mounting : Option MountTask := none
  segmentReaders : List (Fin kNumShards) := []
  heap : Heap A := {}
  okClient : Finset UUID := ∅
  clientPingQueue : List UUID := []
  clientTtl : Table UUID Int := ∅
  monitor : MonitorPhase := .sleeping
  tasks : Table Nat Task := ∅
  needEviction : Bool := false
  nextObject : Nat := 0

inductive Event where
  | tick (nanos : Nat)
  | rehash (i : Fin kNumShards) (order : List String)
  | mountSegment (segment : Segment) (client : UUID) (pushed : Bool)
  | reMountSegment (segments : List Segment) (client : UUID) (pushed : Bool)
  | mountFinish
  | unmountSegment (task : Nat) (segment client : UUID)
  | ping (client : UUID) (pushed : Bool)
  | existKey (key : String)
  | getReplicaList (key : String)
  | getReplicaListByRegex (task : Nat) (pattern : String)
  | putStart (key : String) (sliceLengths : List Nat) (config : ReplicateConfig)
  | putAdvance (i : Fin kNumShards) (choice : List Nat)
  | putEnd (key : String) (type : ReplicaType)
  | putRevoke (key : String) (type : ReplicaType)
  | remove (key : String)
  | removeByRegex (task : Nat) (pattern : String)
  | removeAll (task : Nat)
  | batchEvict (task : Nat) (ratioTarget ratioLowerbound : ℚ) (startIdx : Nat)
  | advance (task : Nat)
  | monitor (order : List UUID)

inductive Reply where
  | silent
  | void (result : Except ErrorCode Unit)
  | exists (found : Bool)
  | replicas (result : Except ErrorCode (List ReplicaDescriptor))
  | replicaLists (result : Except ErrorCode (List (String × List ReplicaDescriptor)))
  | removed (result : Except ErrorCode Nat)
  | status (result : Except ErrorCode ClientStatus)
deriving DecidableEq

namespace Heap

variable (h : Heap A)

def countObject (m : ObjectMetadata H) : Heap A :=
  { h with
    metrics :=
      { h.metrics with
        keyCount := h.metrics.keyCount + 1
        softPinKeyCount := h.metrics.softPinKeyCount + if m.softPinTimeout.isSome then 1 else 0
        allocatedFileSize := h.metrics.allocatedFileSize + BitVec.ofNat 64 m.diskReplicaSize } }

def uncountObject (m : ObjectMetadata H) : Heap A :=
  { h with
    metrics :=
      { h.metrics with
        keyCount := h.metrics.keyCount - 1
        softPinKeyCount := h.metrics.softPinKeyCount - if m.softPinTimeout.isSome then 1 else 0
        allocatedFileSize := h.metrics.allocatedFileSize - BitVec.ofNat 64 m.diskReplicaSize } }

variable [BufferAllocatorBase A H] (valid : Nat → Bool)

def collect (h : Heap A) : Garbage H → Heap A
  | .replica r => h.destroyAll valid r.buffers
  | .object m => (h.uncountObject m).destroyAll valid m.buffers

def collectAll (h : Heap A) (gs : List (Garbage H)) : Heap A := gs.foldl (collect valid) h

def segmentName (a : Nat) : String := (h.objects[a]?).elim "" BufferAllocatorBase.getSegmentName
def largestFreeRegion (a : Nat) : Nat := (h.objects[a]?).elim 0 BufferAllocatorBase.getLargestFreeRegion

/-- One call of the allocation strategy. The shuffle is any order of the indices. -/
def perform (h : Heap A) (choice : List Nat) : (op : AllocOp H) → Option (Heap A × op.Answer)
  | .getSegmentName a => some (h, h.segmentName a)
  | .getLargestFreeRegion a => some (h, h.largestFreeRegion a)
  | .allocate a size => some (h.allocate a size)
  | .shuffle indices => if choice.Perm indices then some (h, choice) else none
  | .destroy b => some (h.destroy valid b, ())

end Heap

def AllocOp.track (held : List (AllocatedBuffer H)) : (op : AllocOp H) → op.Answer → List (AllocatedBuffer H)
  | .getSegmentName _, _ => held
  | .getLargestFreeRegion _, _ => held
  | .allocate _ _, answer => (answer : Option (AllocatedBuffer H)).elim held (· :: held)
  | .shuffle _, _ => held
  | .destroy b, _ => held.eraseP (fun c => c.object = b.object)

namespace World

def start : World A H := { segments := { memoryAllocator := p.memoryAllocator } }

variable (w : World A H)

def isValid : Nat → Bool := w.segments.isAllocatorValid

def segmentFree : Bool := w.mounting.isNone && w.segmentReaders.isEmpty

def clientFree : Bool :=
  match w.mounting with
  | some (.reMount _ _) => false
  | _ => true

def setTask (id : Nat) (task : Task) : World A H := { w with tasks := w.tasks.insert id task }

def endTask (id : Nat) : World A H := { w with tasks := w.tasks.erase id }

variable (i : Fin kNumShards)

def setPut (task : Option (PutTask H)) : World A H :=
  { w with busy := update w.busy i task }

variable [BufferAllocatorBase A H]

/-- One critical section of a shard: `body` gets its entries and returns what it read, the
entries it leaves and what it took out. A put in flight holds the mutex. -/
def onShard {τ : Type} (body : Shard H → τ × Shard H × List (Garbage H)) : Option (World A H × τ) :=
  if (w.busy i).isSome then none
  else
    let result := body (w.shards i)
    some ({ w with
        shards := update w.shards i result.2.1
        heap := w.heap.collectAll w.isValid result.2.2 }, result.1)

def atKey {ρ : Type} (key : String) (use : Option (ObjectMetadata H) → Outcome H ρ) (t : Shard H) :
    ρ × Shard H × List (Garbage H) :=
  let outcome := use (t.lookup key)
  (outcome.1, outcome.2.1.elim (t.erase key) (t.insert key), outcome.2.2)

def request {ρ : Type} (w : World A H) (key : String) (missing : ρ)
    (use : ObjectMetadata H → Outcome H ρ) (reply : ρ → Reply) : Option (World A H × Reply) :=
  (w.onShard (p.getShardIndex key) (atKey key (accessEntry w.isValid missing use))).map
    (fun r => (r.1, reply r.2))

def clearShard : Option (World A H × Unit) :=
  w.onShard i (Table.sweep (clearVisit w.isValid) ())

/-! `PutStart`. -/

def findFree (valid : Nat → Bool) (key : String) : Shard H → Bool × Shard H × List (Garbage H) :=
  atKey key (fun
    | none => (true, none, [])
    | some m =>
      let cleaned := cleanupStaleHandles valid m
      (cleaned.1.replicas.isEmpty, some cleaned.1, cleaned.2))

def putStart (w : World A H) (key : String) (sliceLengths : List Nat) (config : ReplicateConfig) :
    Option (World A H × Reply) :=
  if config.replicaNum = 0 ∨ key = "" ∨ sliceLengths = [] then some (w, .replicas (.error .invalidParams))
  else if p.memoryAllocator = .cachelib ∧ sliceLengths.any (fun n => n > kMaxSliceSize) then
    some (w, .replicas (.error .invalidParams))
  else
    (w.onShard (p.getShardIndex key) (findFree w.isValid key)).map (fun r =>
      if r.2 then (r.1.setPut (p.getShardIndex key) (some ⟨key, sliceLengths, config, .locked⟩), .silent)
      else (r.1, .replicas (.error .objectAlreadyExists)))

def putUnlock (w : World A H) (i : Fin kNumShards) (task : PutTask H)
    (result : Except ErrorCode (List (Replica H))) : World A H × Reply :=
  let w := { w with segmentReaders := w.segmentReaders.erase i }
  match result with
  | .error .invalidParams => (w.setPut i none, .replicas (.error .invalidParams))
  | .error _ => ({ w.setPut i none with needEviction := true }, .replicas (.error .noAvailableHandle))
  | .ok replicas =>
    let disk := if p.useDiskReplica then [⟨.disk (p.resolvePath task.key) task.totalLength, .processing⟩] else []
    (w.setPut i (some { task with phase := .inserting (replicas ++ disk) }), .silent)

/-- `emplace` builds the object first and drops it again when the key has an entry. -/
def putInsert (task : PutTask H) (replicas : List (Replica H)) : World A H × Reply :=
  let replicaList := replicas.map (fun r => r.getDescriptor w.isValid w.heap)
  let m := ObjectMetadata.make w.nextObject task.totalLength replicas task.config.withSoftPin
  let heap := w.heap.countObject m
  let w := { w.setPut i none with nextObject := w.nextObject + 1 }
  match (w.shards i).lookup task.key with
  | none =>
    ({ w with shards := update w.shards i ((w.shards i).insert task.key m), heap := heap },
      .replicas (.ok replicaList))
  | some _ => ({ w with heap := heap.collect w.isValid (.object m) }, .replicas (.ok replicaList))

def putAdvance (w : World A H) (i : Fin kNumShards) (choice : List Nat) : Option (World A H × Reply) :=
  match w.busy i with
  | none => none
  | some task =>
    match task.phase with
    | .locked =>
      if w.mounting.isSome then none
      else
        let program := allocateReplicas ⟨w.segments.allocators, w.segments.allocatorsByName, task.config⟩
          task.sliceLengths
        some ({ w.setPut i (some { task with phase := .allocating [] program }) with
          segmentReaders := i :: w.segmentReaders }, .silent)
    | .allocating held (.call op next) =>
      (w.heap.perform w.isValid choice op).map (fun r =>
        ({ w.setPut i (some { task with phase := .allocating (op.track held r.2) (next r.2) }) with heap := r.1 },
          .silent))
    | .allocating _ (.done result) => some (w.putUnlock p i task result)
    | .inserting replicas => some (w.putInsert i task replicas)

/-! Requests over all shards. -/

def evictAdvance (w : World A H) (id : Nat) (e : Eviction) : Option (World A H × Reply) :=
  let shardAt (i : Nat) : Fin kNumShards := ⟨(e.startIdx + i) % kNumShards, Nat.mod_lt _ (by decide)⟩
  match e.phase with
  | .firstPass i =>
    if i < kNumShards then
      (w.onShard (shardAt i) (e.firstPassShard p.ceilTimes p.allowEvictSoftPinnedObjects)).map (fun r =>
        (r.1.setTask id (.evict { r.2 with phase := .firstPass (i + 1) }), .silent))
    else some (w.setTask id (.evict { e with phase := e.planSecondPass p.ceilTimes }), .silent)
  | .secondPassA i targetTimeout targetEvictNum =>
    if i < kNumShards ∧ 0 < targetEvictNum then
      (w.onShard (shardAt i) (Table.sweep (Eviction.secondVisitA e.now targetTimeout)
        (targetEvictNum, e.evictedCount))).map (fun r =>
          (r.1.setTask id (.evict { e with
            evictedCount := r.2.2, phase := .secondPassA (i + 1) targetTimeout r.2.1 }), .silent))
    else some (w.setTask id (.evict { e with phase := .finished }), .silent)
  | .secondPassB i softTargetTimeout targetEvictNum =>
    if i < kNumShards ∧ 0 < targetEvictNum then
      (w.onShard (shardAt i) (Table.sweep (Eviction.secondVisitB e.now softTargetTimeout)
        (targetEvictNum, e.evictedCount))).map (fun r =>
          (r.1.setTask id (.evict { e with
            evictedCount := r.2.2, phase := .secondPassB (i + 1) softTargetTimeout r.2.1 }), .silent))
    else some (w.setTask id (.evict { e with phase := .finished }), .silent)
  | .finished =>
    some ({ w.endTask id with
      needEviction := w.needEviction && !(decide (0 < e.evictedCount) || decide (e.objectCount = 0)) }, .silent)

def taskAdvance (w : World A H) (id : Nat) : Task → Option (World A H × Reply)
  | .unmount segment client decCapacity next =>
    if below : next < kNumShards then
      (w.clearShard ⟨next, below⟩).map (fun r => (r.1.setTask id (.unmount segment client decCapacity (next + 1)), .silent))
    else if w.segmentFree then
      let result := w.segments.commitUnmountSegment w.heap segment client decCapacity
      some ({ w.endTask id with segments := result.1, heap := result.2 }, .void (.ok ()))
    else none
  | .removeByRegex found next removed =>
    if below : next < kNumShards then
      (w.onShard ⟨next, below⟩ (Table.sweep (removeByRegexVisit found w.clock) removed)).map (fun r =>
        (r.1.setTask id (.removeByRegex found (next + 1) r.2), .silent))
    else some (w.endTask id, .removed (.ok removed))
  | .removeAll now next removed =>
    if below : next < kNumShards then
      (w.onShard ⟨next, below⟩ (Table.sweep (removeAllVisit now) removed)).map (fun r =>
        (r.1.setTask id (.removeAll now (next + 1) r.2), .silent))
    else some (w.endTask id, .removed (.ok removed))
  | .replicaListByRegex found next results =>
    if below : next < kNumShards then
      (w.onShard ⟨next, below⟩ (Table.sweep (replicaListVisit found w.clock p.defaultKvLeaseTtl p.defaultKvSoftPinTtl
        (fun r => r.getDescriptor w.isValid w.heap)) results)).map (fun r =>
          (r.1.setTask id (.replicaListByRegex found (next + 1) r.2), .silent))
    else some (w.endTask id, .replicaLists (.ok results))
  | .evict e => w.evictAdvance p id e

/-! Mounts and the client monitor. -/

def mountFinish : Option (World A H × Reply) :=
  match w.mounting with
  | none => none
  | some (.mount segment client) =>
    let result := w.segments.mountSegment w.heap segment client
    let w := { w with segments := result.1, heap := result.2.1, mounting := none }
    match result.2.2 with
    | .ok => some (w, .void (.ok ()))
    | .segmentAlreadyExists => some (w, .void (.ok ()))
    | error => some (w, .void (.error error))
  | some (.reMount segments client) =>
    let result := w.segments.reMountSegment w.heap client segments
    let w := { w with segments := result.1, heap := result.2.1, mounting := none }
    match result.2.2 with
    | .ok =>
      some ({ w with
          okClient := insert client w.okClient
          heap := { w.heap with
            metrics := { w.heap.metrics with activeClients := w.heap.metrics.activeClients + 1 } } },
        .void (.ok ()))
    | error => some (w, .void (.error error))

def unmountSegment (id : Nat) (segment client : UUID) : Option (World A H × Reply) :=
  if w.segmentFree && (w.tasks.lookup id).isNone then
    match w.segments.prepareUnmountSegment segment with
    | (_, _, .segmentNotFound) => some (w, .void (.ok ()))
    | (manager, decCapacity, .ok) =>
      some ({ w with segments := manager }.setTask id (.unmount segment client decCapacity 0), .silent)
    | (_, _, error) => some (w, .void (.error error))
  else none

def expireSegments (client : UUID) : List Segment → SegmentManager × List (UUID × UUID × Nat) →
    SegmentManager × List (UUID × UUID × Nat)
  | [], state => state
  | segment :: segments, (manager, commits) =>
    match manager.prepareUnmountSegment segment.id with
    | (manager, decCapacity, .ok) =>
      expireSegments client segments (manager, commits ++ [(segment.id, client, decCapacity)])
    | (manager, _, _) => expireSegments client segments (manager, commits)

def expireClients : List UUID → SegmentManager × List (UUID × UUID × Nat) →
    SegmentManager × List (UUID × UUID × Nat)
  | [], state => state
  | client :: clients, state =>
    match state.1.getClientSegments client with
    | .error _ => expireClients clients state
    | .ok segments => expireClients clients (expireSegments client segments state)

def commitAll (state : SegmentManager × Heap A) : List (UUID × UUID × Nat) → SegmentManager × Heap A
  | [] => state
  | (segment, client, decCapacity) :: commits =>
    commitAll (state.1.commitUnmountSegment state.2 segment client decCapacity) commits

def nanosPerSecond : Int := 1000000000

/-- The next step of `ClientMonitorFunc`; `order` is the iteration order of its map. -/
def monitorAdvance (w : World A H) (order : List UUID) : Option (World A H × Reply) :=
  match w.monitor with
  | .sleeping => some ({ w with monitor := .draining w.clock }, .silent)
  | .draining now =>
    match w.clientPingQueue with
    | client :: rest =>
      some ({ w with
          clientPingQueue := rest
          clientTtl := w.clientTtl.insert client (now + p.clientLiveTtlSec * nanosPerSecond) }, .silent)
    | [] =>
      if distinct : order.Nodup then
        if order.Perm w.clientTtl.keys then
          let swept := Table.sweep (δ := Unit) (fun expired client deadline =>
            if deadline < now then (expired ++ [client], none, []) else (expired, some deadline, []))
            ([] : List UUID) (w.clientTtl.reorder order distinct)
          some ({ w with
              clientTtl := swept.2.1
              monitor := if swept.1.isEmpty then .sleeping else .expiring swept.1 }, .silent)
        else none
      else none
  | .expiring clients =>
    if w.segmentFree then
      let expired := expireClients clients (w.segments, [])
      some ({ w with
          okClient := w.okClient \ clients.toFinset
          segments := expired.1
          heap := { w.heap with
            metrics := { w.heap.metrics with
              activeClients := w.heap.metrics.activeClients - BitVec.ofNat 64 (w.okClient ∩ clients.toFinset).card } }
          monitor := if expired.2.isEmpty then .sleeping else .sweeping expired.2 0 }, .silent)
    else none
  | .sweeping commits next =>
    if below : next < kNumShards then
      (w.clearShard ⟨next, below⟩).map (fun r => ({ r.1 with monitor := .sweeping commits (next + 1) }, .silent))
    else if w.segmentFree then
      let result := commitAll (w.segments, w.heap) commits
      some ({ w with segments := result.1, heap := result.2, monitor := .sleeping }, .silent)
    else none

def spawn (id : Nat) (task : Task) : Option (World A H × Reply) :=
  if (w.tasks.lookup id).isNone then some (w.setTask id task, .silent) else none

def exec (w : World A H) : Event → Option (World A H × Reply)
  | .tick nanos => some ({ w with clock := w.clock + nanos }, .silent)
  | .rehash i order =>
    if distinct : order.Nodup then
      if order.Perm (w.shards i).keys then
        some ({ w with shards := update w.shards i ((w.shards i).reorder order distinct) }, .silent)
      else none
    else none
  | .mountSegment segment client pushed =>
    if w.segmentFree then
      if pushed then
        some ({ w with
          clientPingQueue := w.clientPingQueue ++ [client], mounting := some (.mount segment client) }, .silent)
      else some (w, .void (.error .internalError))
    else none
  | .reMountSegment segments client pushed =>
    if w.clientFree then
      if client ∈ w.okClient then some (w, .void (.ok ()))
      else if w.segmentFree then
        if pushed then
          some ({ w with
            clientPingQueue := w.clientPingQueue ++ [client], mounting := some (.reMount segments client) }, .silent)
        else some (w, .void (.error .internalError))
      else none
    else none
  | .mountFinish => w.mountFinish
  | .unmountSegment id segment client => w.unmountSegment id segment client
  | .ping client pushed =>
    if w.clientFree then
      if pushed then
        some ({ w with clientPingQueue := w.clientPingQueue ++ [client] },
          .status (.ok (if client ∈ w.okClient then .ok else .needRemount)))
      else some (w, .status (.error .internalError))
    else none
  | .existKey key =>
    w.request p key false (fun m => m.exist w.clock p.defaultKvLeaseTtl p.defaultKvSoftPinTtl) .exists
  | .getReplicaList key =>
    w.request p key (.error .objectNotFound) (fun m => m.getReplicaList w.clock p.defaultKvLeaseTtl
      p.defaultKvSoftPinTtl (fun r => r.getDescriptor w.isValid w.heap)) .replicas
  | .getReplicaListByRegex id pattern =>
    match p.regex pattern with
    | none => some (w, .replicaLists (.error .invalidParams))
    | some found => w.spawn id (.replicaListByRegex found 0 [])
  | .putStart key sliceLengths config => w.putStart p key sliceLengths config
  | .putAdvance i choice => w.putAdvance p i choice
  | .putEnd key type =>
    w.request p key (.error .objectNotFound) (fun m => m.putEnd w.clock type p.defaultKvSoftPinTtl) .void
  | .putRevoke key type => w.request p key (.error .objectNotFound) (fun m => m.putRevoke type) .void
  | .remove key => w.request p key (.error .objectNotFound) (fun m => m.remove w.clock) .void
  | .removeByRegex id pattern =>
    match p.regex pattern with
    | none => some (w, .removed (.error .invalidParams))
    | some found => w.spawn id (.removeByRegex found 0 0)
  | .removeAll id => w.spawn id (.removeAll w.clock 0 0)
  | .batchEvict id ratioTarget ratioLowerbound startIdx =>
    w.spawn id (.evict (Eviction.make w.clock ratioTarget ratioLowerbound startIdx))
  | .advance id =>
    match w.tasks.lookup id with
    | none => none
    | some task => w.taskAdvance p id task
  | .monitor order => w.monitorAdvance p order

def step (w : World A H) (e : Event) : Option (World A H) := (w.exec p e).map Prod.fst

def Reachable (w : World A H) : Prop := ∃ events, Run.run (step p) (start p) events = some w

def entry (key : String) : Option (ObjectMetadata H) := (w.shards i).lookup key

end World
end Mooncake.Master
