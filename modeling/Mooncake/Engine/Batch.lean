import Mooncake.Lib.Run
import Mooncake.Lib.Table

/-! Batches of transfers: how the engine cuts requests into slices, hands them to the worker pools and sessions,
and what it reports about them. Slice objects are drawn from a cache of the calling thread and go back to the
cache of the thread that frees the batch.

Calls are atomic. A slice that has been handed over may be marked at any later time: the marks only touch
counters that a submission does not read. -/
namespace Mooncake.Engine.Batch

def kLazyDeleteSliceCapacity : Nat := 4096

structure GlobalConfig where
  sliceSize : Nat
  fragmentLimit : Nat
  retryCnt : Nat
  maxWr : Nat
  numQpPerEp : Nat
  sliceSize_pos : 0 < sliceSize

inductive Status where
  | ok
  | tooManyRequests
  | invalidArgument
  | notSupportedTransport
  | addressNotRegistered
  | batchBusy
deriving DecidableEq

structure TransferRequest where
  source : Nat
  targetId : Nat
  targetOffset : Nat
  length : Nat
  adviseRetryCnt : Nat
deriving DecidableEq

abbrev TaskRef : Type := Nat × Nat

structure Slice where
  sourceAddr : Nat
  length : Nat
  destAddr : Nat
  targetId : Nat
  retryCnt : Nat
  maxRetryCnt : Nat
  task : TaskRef
deriving DecidableEq

structure TransferTask where
  sliceCount : Nat
  successSliceCount : Nat
  failedSliceCount : Nat
  transferredBytes : Nat
  isFinished : Bool
  totalBytes : Nat
  request : Option TransferRequest
  sliceList : List Nat
deriving DecidableEq

def TransferTask.new : TransferTask := ⟨0, 0, 0, 0, false, 0, none, []⟩

structure BatchDesc where
  batchSize : Nat
  taskList : List TransferTask

/-- Slice objects are numbered as they are allocated. `pool` has those that have been handed to a worker pool or
a session and have not been marked. -/
structure World where
  caches : Table Nat (List Nat)
  slices : Nat → Slice
  nextSlice : Nat
  batches : Table Nat BatchDesc
  nextBatch : Nat
  pool : List Nat

namespace World

def start : World := ⟨∅, fun _ => ⟨0, 0, 0, 0, 0, 0, (0, 0)⟩, 0, ∅, 0, []⟩

/-! ## Slice caches -/

variable (w : World) (thread : Nat)

def cache : List Nat := (w.caches.lookup thread).getD []

def allocate : World × Nat × Bool :=
  match w.cache thread with
  | [] => ({ w with nextSlice := w.nextSlice + 1 }, w.nextSlice, false)
  | x :: rest => ({ w with caches := w.caches.insert thread rest }, x, true)

def deallocate (x : Nat) : World :=
  if (w.cache thread).length = kLazyDeleteSliceCapacity then w
  else { w with caches := w.caches.insert thread (w.cache thread ++ [x]) }

def deallocateAll (xs : List Nat) : World := xs.foldl (fun w x => w.deallocate thread x) w

/-! ## Tasks -/

def taskAt (ref : TaskRef) : Option TransferTask := (w.batches.lookup ref.1).bind (fun b => b.taskList[ref.2]?)

def modifyTask (ref : TaskRef) (f : TransferTask → TransferTask) : World :=
  match w.batches.lookup ref.1 with
  | some b => { w with batches := w.batches.insert ref.1 { b with taskList := b.taskList.modify ref.2 f } }
  | none => w

def draw (slice : Slice) : World × Nat × Bool :=
  let drawn := w.allocate thread
  (({ drawn.1 with slices := Function.update drawn.1.slices drawn.2.1 slice }).modifyTask slice.task
    (fun t => { t with sliceList := t.sliceList ++ [drawn.2.1] }), drawn.2)

def markSuccess (x : Nat) : World :=
  w.modifyTask (w.slices x).task (fun t =>
    { t with transferredBytes := t.transferredBytes + (w.slices x).length, successSliceCount := t.successSliceCount + 1 })

def markFailed (x : Nat) : World :=
  w.modifyTask (w.slices x).task (fun t => { t with failedSliceCount := t.failedSliceCount + 1 })

end World

/-! ## The RDMA transport -/

/-- What the searches give during a call, each time a buffer and a device: for the whole request of a task, for
its slice at an offset and a retry count; and whether the device is active then, and again after the search. -/
structure Devices where
  forRequest : (task : Nat) → TransferRequest → Option (Nat × Nat)
  forSlice : (task : Nat) → TransferRequest → (offset retry : Nat) → Option (Nat × Nat)
  active : (task offset retry device : Nat) → Bool
  stillActive : (task offset device : Nat) → Bool

/-- The search goes on until `retry_cnt` has reached its maximum, `rounds` later. -/
def Devices.findDevice (d : Devices) (task : Nat) (request : TransferRequest) (offset : Nat) :
    (retry rounds : Nat) → Option (Nat × Nat)
  | _, 0 => none
  | retry, rounds + 1 =>
    match d.forSlice task request offset retry with
    | none => d.findDevice task request offset (retry + 1) rounds
    | some found =>
      if d.active task offset retry found.2 then some found else d.findDevice task request offset (retry + 1) rounds

def Devices.pick (d : Devices) (c : GlobalConfig) (request : TransferRequest) (task offset : Nat) :
    Option (Nat × Nat) :=
  (d.forRequest task request).or
    (d.findDevice task request offset request.adviseRetryCnt (c.retryCnt - request.adviseRetryCnt))

namespace GlobalConfig

variable (c : GlobalConfig)

def mergeFinalSlice (request : TransferRequest) (offset : Nat) : Bool :=
  request.length - offset ≤ c.sliceSize + c.fragmentLimit

def slice (ref : TaskRef) (request : TransferRequest) (offset : Nat) : Slice where
  sourceAddr := request.source + offset
  length := if c.mergeFinalSlice request offset then request.length - offset else c.sliceSize
  destAddr := request.targetOffset + offset
  targetId := request.targetId
  retryCnt := request.adviseRetryCnt
  maxRetryCnt := c.retryCnt
  task := ref

def submitWatermark : Nat := c.maxWr * c.numQpPerEp

end GlobalConfig

/-- The world in the middle of a submission. The groups by device do not matter here. -/
structure Posting where
  world : World
  slicesToPost : List Nat
  nrSlices : Nat

def Posting.submitPostSend (p : Posting) : Posting :=
  ⟨{ p.world with pool := p.world.pool ++ p.slicesToPost }, [], 0⟩

namespace Rdma

section
variable {σ α : Type}

/-- The slices of a request from an offset on. As many rounds as there are bytes are enough. -/
def sliceLoop (c : GlobalConfig) (request : TransferRequest) (body : σ → Nat → σ × Status) :
    (rounds : Nat) → σ → (offset : Nat) → σ × Status
  | 0, s, _ => (s, .ok)
  | rounds + 1, s, offset =>
    if offset < request.length then
      let r := body s offset
      if r.2 = .ok ∧ c.mergeFinalSlice request offset = false then
        sliceLoop c request body rounds r.1 (offset + c.sliceSize)
      else r
    else (s, .ok)

def taskLoop (submit : Nat → α → σ → σ × Status) : (task : Nat) → List α → σ → σ × Status
  | _, [], s => (s, .ok)
  | task, x :: rest, s =>
    let r := submit task x s
    if r.2 = .ok then taskLoop submit (task + 1) rest r.1 else r

end

variable (c : GlobalConfig) (d : Devices) (thread : Nat)

/-- One slice. The error of a missing device gives the slices that wait back to the cache, that of an inactive
one does not. -/
def sliceBody (task : Nat) (ref : TaskRef) (request : TransferRequest) (p : Posting) (offset : Nat) :
    Posting × Status :=
  let slice := c.slice ref request offset
  let (w, x, fromCache) := p.world.draw thread slice
  let nrSlices := if fromCache then p.nrSlices else p.nrSlices + 1
  match d.pick c request task offset with
  | none => (⟨w.deallocateAll thread p.slicesToPost, p.slicesToPost, nrSlices⟩, .addressNotRegistered)
  | some (_, device) =>
    if d.stillActive task offset device then
      let counted := w.modifyTask ref
        (fun t => { t with totalBytes := t.totalBytes + slice.length, sliceCount := t.sliceCount + 1 })
      let next : Posting := ⟨counted, p.slicesToPost ++ [x], nrSlices⟩
      (if c.submitWatermark ≤ nrSlices then next.submitPostSend else next, .ok)
    else (⟨w, p.slicesToPost, nrSlices⟩, .invalidArgument)

def submitTask (task : Nat) (t : TaskRef × TransferRequest) (p : Posting) : Posting × Status :=
  sliceLoop c t.2 (sliceBody c d thread task t.1 t.2) t.2.length { p with nrSlices := 0 } 0

def submitTransferTask (tasks : List (TaskRef × TransferRequest)) (w : World) : World × Status :=
  let r := taskLoop (submitTask c d thread) 0 tasks ⟨w, [], 0⟩
  (if r.2 = .ok then r.1.submitPostSend.world else r.1.world, r.2)

end Rdma

/-! ## The TCP transport -/

namespace Tcp

def taskBody (thread : Nat) (w : World) (task : TaskRef × TransferRequest) : World :=
  let request := task.2
  let (w, x, _) := w.draw thread ⟨request.source, request.length, request.targetOffset, request.targetId, 0, 0, task.1⟩
  let w := w.modifyTask task.1 (fun t => { t with totalBytes := request.length, sliceCount := t.sliceCount + 1 })
  { w with pool := w.pool ++ [x] }

def submitTransferTask (thread : Nat) (tasks : List (TaskRef × TransferRequest)) (w : World) : World :=
  tasks.foldl (taskBody thread) w

end Tcp

/-! ## Calls of the engine -/

inductive Transport where
  | rdma
  | tcp
deriving DecidableEq

/-- What a submission finds: the transport for each target, which of the two comes first in the map, and the
devices. -/
structure Surroundings where
  selectTransport : (targetId : Nat) → Except Status Transport
  rdmaFirst : Bool
  devices : Devices

structure SubmitTasks where
  rdma : List (TaskRef × TransferRequest)
  tcp : List (TaskRef × TransferRequest)

namespace World

def allocateBatchID (w : World) (batchSize : Nat) : World :=
  { w with batches := w.batches.insert w.nextBatch ⟨batchSize, []⟩, nextBatch := w.nextBatch + 1 }

def resize (w : World) (batchId : Nat) (batch : BatchDesc) (n : Nat) : World :=
  { w with batches := w.batches.insert batchId { batch with taskList := batch.taskList ++ List.replicate n .new } }

def assignLoop (select : Nat → Except Status Transport) (batchId : Nat) :
    (taskId : Nat) → List TransferRequest → World → SubmitTasks → World × Except Status SubmitTasks
  | _, [], w, tasks => (w, .ok tasks)
  | taskId, request :: rest, w, tasks =>
    match select request.targetId with
    | .error status => (w, .error status)
    | .ok transport =>
      assignLoop select batchId (taskId + 1) rest
        (w.modifyTask (batchId, taskId) (fun t => { t with request := some request }))
        (match transport with
          | .rdma => { tasks with rdma := tasks.rdma ++ [((batchId, taskId), request)] }
          | .tcp => { tasks with tcp := tasks.tcp ++ [((batchId, taskId), request)] })

def submitTasks (c : GlobalConfig) (e : Surroundings) (thread : Nat) (w : World) (tasks : SubmitTasks) :
    World × Status :=
  if e.rdmaFirst then
    let (w, status) := Rdma.submitTransferTask c e.devices thread tasks.rdma w
    (Tcp.submitTransferTask thread tasks.tcp w, status)
  else Rdma.submitTransferTask c e.devices thread tasks.rdma (Tcp.submitTransferTask thread tasks.tcp w)

def submitTransfer (c : GlobalConfig) (e : Surroundings) (thread : Nat) (w : World) (batchId : Nat)
    (entries : List TransferRequest) : Option (World × Status) :=
  (w.batches.lookup batchId).map (fun batch =>
    if batch.batchSize < batch.taskList.length + entries.length then (w, .tooManyRequests)
    else
      match assignLoop e.selectTransport batchId batch.taskList.length entries
        (w.resize batchId batch entries.length) ⟨[], []⟩ with
      | (w, .error status) => (w, status)
      | (w, .ok tasks) => w.submitTasks c e thread tasks)

end World

inductive TransferStatus where
  | waiting
  | completed
  | timeout
  | failed
deriving DecidableEq

/-- What is reported about a task. The assertion that it has slices is not part of the default build; `expired`
tells which slices were posted too long ago. -/
def TransferTask.status (t : TransferTask) (expired : Nat → Bool) : TransferStatus :=
  if t.successSliceCount + t.failedSliceCount = t.sliceCount then
    if t.failedSliceCount ≠ 0 then .failed else .completed
  else if t.sliceList.any expired then .timeout
  else .waiting

namespace World

def getTransferStatus (w : World) (ref : TaskRef) (expired : Nat → Bool) : Option (World × TransferStatus) :=
  (w.taskAt ref).map (fun t =>
    (w.modifyTask ref (fun t =>
      if t.successSliceCount + t.failedSliceCount = t.sliceCount then { t with isFinished := true } else t),
      t.status expired))

def freeBatchID (w : World) (thread : Nat) (batchId : Nat) : Option (World × Status) :=
  (w.batches.lookup batchId).map (fun batch =>
    if batch.taskList.all TransferTask.isFinished then
      (({ w with batches := w.batches.erase batchId }).deallocateAll thread
        (batch.taskList.flatMap TransferTask.sliceList), .ok)
    else (w, .batchBusy))

end World

inductive Event where
  | allocateBatchID (batchSize : Nat)
  | submitTransfer (thread batchId : Nat) (entries : List TransferRequest) (surroundings : Surroundings)
  | mark (slice : Nat) (success : Bool)
  | getTransferStatus (ref : TaskRef) (expired : Nat → Bool)
  | freeBatchID (thread batchId : Nat)
  | exitThread (thread : Nat)

def World.step (c : GlobalConfig) (w : World) : Event → Option World
  | .allocateBatchID batchSize => some (w.allocateBatchID batchSize)
  | .submitTransfer thread batchId entries surroundings =>
    (w.submitTransfer c surroundings thread batchId entries).map Prod.fst
  | .mark x success =>
    if x ∈ w.pool then
      let marked := if success then w.markSuccess x else w.markFailed x
      some { marked with pool := marked.pool.erase x }
    else none
  | .getTransferStatus ref expired => (w.getTransferStatus ref expired).map Prod.fst
  | .freeBatchID thread batchId => (w.freeBatchID thread batchId).map Prod.fst
  | .exitThread thread => some { w with caches := w.caches.erase thread }

end Mooncake.Engine.Batch
