import Mooncake.Lib.Extent
import Mooncake.Master.Metadata

/-! Slices of the client's memory and what `TransferSubmitter` makes of them: requests to the
transfer engine, copies inside the process, and reads of a file. What the client cannot decide
is a function of the operation that asks, given by its place in the call. The sizes of slices
are numbers: they describe buffers that exist, so adding them up does not wrap. -/
namespace Mooncake.Client
open Master (ErrorCode BufferDescriptor ReplicaDescriptor ReplicaStatus)

structure Slice where
  ptr : Nat
  size : Nat
deriving DecidableEq

def calculateSliceSize (slices : List Slice) : Nat := (slices.map (·.size)).sum

inductive OpCode where
  | read
  | write
deriving DecidableEq

structure TransferRequest where
  opcode : OpCode
  source : Nat
  targetId : String
  targetOffset : Nat
  length : Nat
deriving DecidableEq

structure MemcpyOperation where
  dest : Nat
  src : Nat
  size : Nat
deriving DecidableEq

structure Chunk where
  startOffset : Nat
  iovs : List Slice
deriving DecidableEq

inductive Job where
  | engine (requests : List TransferRequest)
  | memcpy (operations : List MemcpyOperation)
  | fileRead (filePath : String) (fileLength : Nat) (slices : List Slice)
  | empty
deriving DecidableEq

structure TransferFuture where
  job : Job
  result : ErrorCode
deriving DecidableEq

/-- `submitTransfer` answers `none` when the engine has no batch for the requests or refuses
them, and otherwise which of the requests are going to complete. -/
structure TransferSubmitter where
  memcpyEnabled : Bool
  localIpAndPort : String
  backend : Bool
  openSegment : Nat → String → Bool
  submitTransfer : Nat → List TransferRequest → Option (TransferRequest → Bool)
  memcpy : Nat → List MemcpyOperation → Bool
  createFile : Nat → String → Bool
  vectorRead : Nat → String → Chunk → Except ErrorCode Nat

def calculateTotalSize : ReplicaDescriptor → Nat
  | .memory handles _ => (handles.map (·.size)).sum
  | .disk _ objectSize _ => objectSize

namespace StorageBackend

def processChunk (vectorRead : Chunk → Except ErrorCode Nat) (chunk : Chunk) (total : Nat) : Except ErrorCode Nat :=
  if chunk.iovs.isEmpty then .ok total
  else
    match vectorRead chunk with
    | .error e => .error e
    | .ok count =>
      if count = calculateSliceSize chunk.iovs then .ok (total + calculateSliceSize chunk.iovs)
      else .error .fileReadFail

/-- The loop of `LoadObject`. A slice without a buffer ends the chunk and counts as read. -/
def loadLoop (vectorRead : Chunk → Except ErrorCode Nat) : List Slice → Nat → Nat → Chunk → Except ErrorCode Nat
  | [], _, total, chunk => processChunk vectorRead chunk total
  | slice :: rest, currentOffset, total, chunk =>
    if slice.ptr = 0 then
      match processChunk vectorRead chunk total with
      | .error e => .error e
      | .ok total =>
        loadLoop vectorRead rest (currentOffset + slice.size) (total + slice.size) { chunk with iovs := [] }
    else
      loadLoop vectorRead rest (currentOffset + slice.size) total
        { startOffset := if chunk.iovs.isEmpty then currentOffset else chunk.startOffset
          iovs := chunk.iovs ++ [slice] }

def loadObject (createFile : Bool) (vectorRead : Chunk → Except ErrorCode Nat) (slices : List Slice) (length : Nat) :
    Except ErrorCode Unit :=
  if createFile then
    match loadLoop vectorRead slices 0 0 ⟨0, []⟩ with
    | .error e => .error e
    | .ok total => if total = length then .ok () else .error .fileReadFail
  else .error .fileOpenFail

end StorageBackend

namespace TransferSubmitter
variable (t : TransferSubmitter) (i : Nat) (handles : List BufferDescriptor)

/-- A batch allocation has one merged buffer for all slices, so only the first handle is compared. -/
def validateTransferParams (slices : List Slice) (isMultiBuffers : Bool := false) : Bool :=
  match handles with
  | [] => false
  | first :: _ =>
    if slices.length < handles.length then false
    else if isMultiBuffers then first.size == calculateSliceSize slices
    else (handles.zip slices).all (fun pair => pair.1.size == pair.2.size)

def isLocalTransfer : Bool :=
  t.localIpAndPort != "" &&
    handles.all (fun h => h.transportEndpoint != "" && h.transportEndpoint == t.localIpAndPort)

def submitRequests (requests : List TransferRequest) : Option TransferFuture :=
  (t.submitTransfer i requests).map (fun completes =>
    ⟨.engine requests, if requests.all completes then .ok else .transferFail⟩)

def engineRequests (opCode : OpCode) : List (BufferDescriptor × Slice) → Option (List TransferRequest)
  | [] => some []
  | (handle, slice) :: rest =>
    if slice.ptr = 0 then engineRequests opCode rest
    else if handle.transportEndpoint = "" then none
    else if t.openSegment i handle.transportEndpoint then
      (engineRequests opCode rest).map (fun requests =>
        ⟨opCode, slice.ptr, handle.transportEndpoint, handle.bufferAddress, handle.size⟩ :: requests)
    else none

def submitTransferEngineOperation (slices : List Slice) (opCode : OpCode) : Option TransferFuture :=
  (t.engineRequests i opCode (handles.zip slices)).bind (t.submitRequests i)

variable (opCode : OpCode)

def memcpyOperation (handle : BufferDescriptor) (slice : Slice) : MemcpyOperation :=
  match opCode with
  | .read => ⟨slice.ptr, handle.bufferAddress, handle.size⟩
  | .write => ⟨handle.bufferAddress, slice.ptr, handle.size⟩

def memcpyOperations (pairs : List (BufferDescriptor × Slice)) : List MemcpyOperation :=
  (pairs.filter (fun pair => pair.2.ptr != 0)).map (fun pair => memcpyOperation opCode pair.1 pair.2)

def submitMemcpyOperation (slices : List Slice) (opCode : OpCode) : TransferFuture :=
  let operations := memcpyOperations opCode (handles.zip slices)
  ⟨.memcpy operations, if t.memcpy i operations then .ok else .transferFail⟩

def fileReadResult (filePath : String) (slices : List Slice) (fileLength : Nat) : ErrorCode :=
  if t.backend then
    match StorageBackend.loadObject (t.createFile i filePath) (t.vectorRead i filePath) slices fileLength with
    | .ok () => .ok
    | .error _ => .transferFail
  else .transferFail

def submitFileReadOperation (filePath : String) (fileLength : Nat) (slices : List Slice) : TransferFuture :=
  ⟨.fileRead filePath fileLength slices, t.fileReadResult i filePath slices fileLength⟩

def submit (replica : ReplicaDescriptor) (slices : List Slice) (opCode : OpCode) : Option TransferFuture :=
  match replica with
  | .memory handles _ =>
    if validateTransferParams handles slices then
      if t.memcpyEnabled && t.isLocalTransfer handles then some (t.submitMemcpyOperation i handles slices opCode)
      else t.submitTransferEngineOperation i handles slices opCode
    else none
  | .disk filePath objectSize _ => some (t.submitFileReadOperation i filePath objectSize slices)

def offsetRequests (opCode : OpCode) (handle : BufferDescriptor) : Nat → List Slice → List TransferRequest
  | _, [] => []
  | offset, slice :: rest =>
    ⟨opCode, slice.ptr, handle.transportEndpoint, handle.bufferAddress + offset, slice.size⟩ ::
      offsetRequests opCode handle (offset + slice.size) rest

def batchRequests (opCode : OpCode) : List (ReplicaDescriptor × List Slice) → Option (List TransferRequest)
  | [] => some []
  | (.memory (handle :: more) _, slices) :: rest =>
    if validateTransferParams (handle :: more) slices true && t.openSegment i handle.transportEndpoint then
      (batchRequests opCode rest).map (fun requests => offsetRequests opCode handle 0 slices ++ requests)
    else none
  | _ :: _ => none

def submitBatch (replicas : List (ReplicaDescriptor × List Slice)) (opCode : OpCode) : Option TransferFuture :=
  (t.batchRequests i opCode replicas).bind (t.submitRequests i)

/-- The requests for one object of a batch. -/
def entryRequests : ReplicaDescriptor × List Slice → List TransferRequest
  | (.memory (handle :: _) _, slices) => offsetRequests opCode handle 0 slices
  | _ => []

variable {requests : List TransferRequest}

theorem batchRequests_spec {t : TransferSubmitter} {i : Nat} {opCode : OpCode}
    {entries : List (ReplicaDescriptor × List Slice)}
    (built : t.batchRequests i opCode entries = some requests) :
    requests = entries.flatMap (entryRequests opCode) ∧ ∀ entry ∈ entries, ∃ handle more status,
      entry.1 = .memory (handle :: more) status ∧ validateTransferParams (handle :: more) entry.2 true = true := by
  induction entries generalizing requests with
  | nil => cases built; exact ⟨rfl, by nofun⟩
  | cons entry rest ih =>
    unfold batchRequests at built
    split at built
    next => contradiction
    next handle more status slices others shape =>
      cases shape
      split at built
      next valid =>
        obtain ⟨later, builtRest, rfl⟩ := Option.map_eq_some_iff.mp built
        obtain ⟨rfl, shapes⟩ := ih builtRest
        exact ⟨rfl, List.forall_mem_cons.mpr ⟨⟨_, _, _, rfl, (Bool.and_eq_true_iff.mp valid).1⟩, shapes⟩⟩
      next => cases built
    next => cases built

theorem submitRequests_result {future : TransferFuture}
    (taken : t.submitRequests i requests = some future) : future.result = .ok ∨ future.result = .transferFail := by
  obtain ⟨completes, _, rfl⟩ := Option.map_eq_some_iff.mp taken
  simp only
  split
  · exact .inl rfl
  · exact .inr rfl

theorem submit_result {replica : ReplicaDescriptor} {slices : List Slice} {opCode : OpCode} {future : TransferFuture}
    (taken : t.submit i replica slices opCode = some future) :
    future.result = .ok ∨ future.result = .transferFail := by
  cases replica with
  | memory handles status =>
    simp only [submit] at taken
    split at taken
    · split at taken
      · cases taken
        simp only [submitMemcpyOperation]
        split
        · exact .inl rfl
        · exact .inr rfl
      · obtain ⟨requests, _, sent⟩ := Option.bind_eq_some_iff.mp taken
        exact t.submitRequests_result i sent
    · cases taken
  | disk filePath objectSize status =>
    cases taken
    simp only [submitFileReadOperation, fileReadResult]
    split
    · split
      · exact .inl rfl
      · exact .inr rfl
    · exact .inr rfl

end TransferSubmitter

namespace Sample

def submitter : TransferSubmitter where
  memcpyEnabled := false
  localIpAndPort := "here"
  backend := true
  openSegment _ _ := true
  submitTransfer _ _ := some (fun _ => true)
  memcpy _ _ := true
  createFile _ _ := true
  vectorRead _ _ chunk := .ok (calculateSliceSize chunk.iovs)

end Sample

end Mooncake.Client
