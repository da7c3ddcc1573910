import Mooncake.Lib.Indexed
import Mooncake.Client.Transfer

/-! Writing objects. The master is asked for replicas, the slices are transferred to them, and
the master is told that each object is complete or given up. The answers of the master are
functions of what it is asked. Of the operation records only what the phases read is kept: the
texts of the failure contexts go to the log. -/
namespace Mooncake.Client
open Master (ErrorCode ReplicaDescriptor ReplicaType ReplicateConfig)

abbrev StartReply : Type := Except ErrorCode (List ReplicaDescriptor)

structure MasterClient where
  putStart : String → List Nat → ReplicateConfig → StartReply
  batchPutStart : List String → List (List Nat) → ReplicateConfig → List StartReply
  putEnd : String → ReplicaType → Except ErrorCode Unit
  putRevoke : String → ReplicaType → Except ErrorCode Unit
  batchPutEnd : List String → List (Except ErrorCode Unit)
  batchPutRevoke : List String → List (Except ErrorCode Unit)

/-- What a client works with. `storeObject` tells whether the file of the operation at a place of
the call gets written. -/
structure Context where
  transferSubmitter : TransferSubmitter
  masterClient : MasterClient
  storageBackend : Bool
  storeObject : Nat → String → Bool

/-- What finalizes a put. A batch request stands for one message for each of its keys. -/
inductive Message where
  | putEnd (key : String) (type : ReplicaType)
  | putRevoke (key : String) (type : ReplicaType)
deriving DecidableEq

def Message.about : Message → String × ReplicaType
  | putEnd key type | putRevoke key type => (key, type)

/-- What `PutToLocalFile` leaves to the write thread pool; the slices are copied when it is called. -/
structure StoreTask where
  place : Nat
  key : String
  path : String
  slices : List Slice
deriving DecidableEq

def StoreTask.run (c : Context) (task : StoreTask) : Message :=
  if c.storeObject task.place task.path then .putEnd task.key .disk else .putRevoke task.key .disk

def diskReplica (replicas : List ReplicaDescriptor) : Option String :=
  replicas.reverse.findSome? (fun r =>
    match r with
    | .disk filePath _ _ => some filePath
    | .memory _ _ => none)

def putToLocalFile (c : Context) (place : Nat) (key : String) (slices : List Slice)
    (replicas : List ReplicaDescriptor) : List StoreTask :=
  if c.storageBackend then (diskReplica replicas).toList.map (fun path => ⟨place, key, path, slices⟩) else []

inductive PutOperationState where
  | pending
  | masterFailed
  | transferFailed
  | finalizeFailed
  | success
deriving DecidableEq

structure PutOperation where
  key : String
  slices : List Slice
  state : PutOperationState := .pending
  result : Except ErrorCode Unit := .error .internalError
  replicas : List ReplicaDescriptor := []
  pendingTransfers : List TransferFuture := []

namespace PutOperation
variable (op : PutOperation)

def setSuccess : PutOperation := { op with state := .success, result := .ok () }

def setError (error : ErrorCode) : PutOperation :=
  { op with
    result := .error error
    state :=
      if op.replicas.isEmpty then .masterFailed
      else if op.pendingTransfers.isEmpty then .transferFailed
      else .finalizeFailed }

/-- A transfer was not taken: the error is set first, and then the pending transfers are dropped. -/
def abandon : PutOperation := { op.setError .transferFail with pendingTransfers := [] }

def isResolved : Bool := op.state != .pending

def needsEnd : Bool := !op.isResolved && !op.replicas.isEmpty && !op.pendingTransfers.isEmpty

def needsRevoke : Bool := !op.needsEnd && op.state != .pending && !op.replicas.isEmpty

def start (reply : StartReply) : PutOperation :=
  match reply with
  | .error e => op.setError e
  | .ok replicas => { op with replicas := replicas }

def wait : PutOperation :=
  if op.isResolved then op
  else if op.pendingTransfers.isEmpty then op.setError .internalError
  else
    match op.pendingTransfers.find? (fun future => future.result != .ok) with
    | none => op
    | some future => op.setError future.result

def finish (response : Except ErrorCode Unit) : PutOperation :=
  match response with
  | .ok () => op.setSuccess
  | .error e => op.setError e

def settle : PutOperation := if op.isResolved then op else op.setError .internalError

end PutOperation

def createPutOperations (keys : List String) (batchedSlices : List (List Slice)) : List PutOperation :=
  keys.zipWith (fun key slices => { key := key, slices := slices }) batchedSlices

section
variable (c : Context)

def startReplies (config : ReplicateConfig) (ops : List PutOperation) : List StartReply :=
  c.masterClient.batchPutStart (ops.map (·.key)) (ops.map (fun op => op.slices.map (·.size))) config

def startBatchPut (config : ReplicateConfig) (ops : List PutOperation) : List PutOperation :=
  if (startReplies c config ops).length = ops.length then ops.zipWith PutOperation.start (startReplies c config ops)
  else ops.map (·.setError .rpcFail)

def submitLoop (i : Nat) (slices : List Slice) : List ReplicaDescriptor → List TransferFuture →
    List TransferFuture × Bool
  | [], pending => (pending, true)
  | replica :: rest, pending =>
    if replica.isMemoryReplica then
      match c.transferSubmitter.submit i replica slices .write with
      | none => (pending, false)
      | some future => submitLoop i slices rest (pending ++ [future])
    else submitLoop i slices rest pending

def submitTransfer (i : Nat) (op : PutOperation) : PutOperation :=
  if op.isResolved then op
  else if op.replicas.isEmpty then op.setError .internalError
  else
    let submitted := submitLoop c i op.slices op.replicas op.pendingTransfers
    if submitted.2 then { op with pendingTransfers := submitted.1 }
    else { op with pendingTransfers := submitted.1 }.abandon

/-- The file is left to the pool before the transfers are submitted. -/
def storeTasks (i : Nat) (op : PutOperation) : List StoreTask :=
  if op.isResolved || op.replicas.isEmpty then [] else putToLocalFile c i op.key op.slices op.replicas

def endWrites (successful : List (Nat × PutOperation)) : List (Nat × PutOperation) :=
  if successful.isEmpty then []
  else
    let responses := c.masterClient.batchPutEnd (successful.map (·.2.key))
    if responses.length = successful.length then successful.zipWith (fun p r => (p.1, p.2.finish r)) responses
    else successful.map (fun p => (p.1, p.2.setError .rpcFail))

/-- A revoke that fails changes the text of the failure only. -/
def revokeWrites (failed : List (Nat × PutOperation)) : List (Nat × PutOperation) :=
  if failed.isEmpty then []
  else if (c.masterClient.batchPutRevoke (failed.map (·.2.key))).length = failed.length then []
  else failed.map (fun p => (p.1, p.2.setError .rpcFail))

variable (ops : List PutOperation)

def endable : List (Nat × PutOperation) :=
  Indexed.pick (fun op : PutOperation => if op.needsEnd then some op else none) ops

def revocable : List (Nat × PutOperation) :=
  Indexed.pick (fun op : PutOperation => if op.needsRevoke then some op else none) ops

def finalizeBatchPut : List PutOperation × List Message :=
  let ended := Indexed.writes ops (endWrites c (endable ops))
  let revoked := Indexed.writes ended (revokeWrites c (revocable ops))
  (revoked.map PutOperation.settle,
    (endable ops).map (fun p => .putEnd p.2.key .memory) ++ (revocable ops).map (fun p => .putRevoke p.2.key .memory))

def collectResults : List (Except ErrorCode Unit) :=
  ops.map (fun op => if op.result = .error .objectAlreadyExists then .ok () else op.result)

def checkSameNode (op : PutOperation) : PutOperation :=
  if op.isResolved then op
  else
    match op.replicas with
    | [] => op.setError .internalError
    | .memory (_ :: _) _ :: _ => op
    | _ => op.setError .invalidParams

def segmentOf (op : PutOperation) : Option (String × ReplicaDescriptor) :=
  match op.replicas with
  | .memory (handle :: more) status :: _ => some (handle.transportEndpoint, .memory (handle :: more) status)
  | _ => none

/-- The batch of a segment; its place is that of its submission in the call. -/
structure SegGroup where
  place : Nat
  segment : String
  members : List (String × ReplicaDescriptor × List Slice)
  future : Option TransferFuture

def segToOps : List SegGroup :=
  let entries := ops.filterMap (fun op =>
    if op.isResolved then none else (segmentOf op).map (fun s => (s.1, (op.key, s.2, op.slices))))
  (Table.collect entries).entries.mapIdx
    (fun g e => ⟨g, e.1, e.2, c.transferSubmitter.submitBatch g (e.2.map Prod.snd) .write⟩)

/-- The merged operation of a segment after it has been waited for. It carries the key and the
slices of the first member, which only the log reads. -/
def SegGroup.merged (group : SegGroup) : PutOperation :=
  let merged : PutOperation :=
    { key := (group.members.map (·.1)).headD ""
      slices := (group.members.map (·.2.2)).headD []
      replicas := group.members.map (·.2.1) }
  match group.future with
  | none => merged.abandon.wait
  | some future => { merged with pendingTransfers := [future] }.wait

def shareState (groups : List SegGroup) (op : PutOperation) : PutOperation :=
  if op.isResolved then op
  else
    match segmentOf op with
    | none => op
    | some (segment, _) =>
      { op with
        state := ((groups.find? (·.segment == segment)).map (·.merged.state)).getD op.state
        pendingTransfers := op.pendingTransfers ++ [⟨.empty, .ok⟩] }

structure PutOutcome where
  starts : List StartReply
  results : List (Except ErrorCode Unit)
  sent : List Message
  tasks : List StoreTask

/-- The transfers of `Put` are waited for one by one, up to the first that fails. The futures
that were waited for come with the error. -/
def transferWrites (slices : List Slice) : List ReplicaDescriptor → ErrorCode × List TransferFuture
  | [] => (.ok, [])
  | replica :: rest =>
    if replica.isMemoryReplica then
      match c.transferSubmitter.submit 0 replica slices .write with
      | none => (.transferFail, [])
      | some future =>
        if future.result = .ok then
          let later := transferWrites slices rest
          (later.1, future :: later.2)
        else (future.result, [future])
    else transferWrites slices rest

def put (key : String) (slices : List Slice) (config : ReplicateConfig) : PutOutcome :=
  let start := c.masterClient.putStart key (slices.map (·.size)) config
  match start with
  | .error e =>
    { starts := [start], results := [if e = .objectAlreadyExists then .ok () else .error e], sent := [], tasks := [] }
  | .ok replicas =>
    let tasks := putToLocalFile c 0 key slices replicas
    let error := (transferWrites c slices replicas).1
    if error = .ok then
      { starts := [start], results := [c.masterClient.putEnd key .memory], sent := [.putEnd key .memory], tasks := tasks }
    else
      { starts := [start], results := [(c.masterClient.putRevoke key .memory).bind (fun _ => .error error)],
        sent := [.putRevoke key .memory], tasks := tasks }

def batchPutWhenPreferSameNode (starts : List StartReply) (ops : List PutOperation) : PutOutcome :=
  let checked := ops.map checkSameNode
  let final := finalizeBatchPut c (checked.map (shareState (segToOps c checked)))
  { starts := starts, results := collectResults final.1, sent := final.2, tasks := [] }

def batchPut (keys : List String) (batchedSlices : List (List Slice)) (config : ReplicateConfig) : PutOutcome :=
  let ops := createPutOperations keys batchedSlices
  if config.preferAllocInSameNode && config.replicaNum != 1 then
    { starts := [], results := keys.map (fun _ => .error .invalidParams), sent := [], tasks := [] }
  else
    let starts := startReplies c config ops
    let started := startBatchPut c config ops
    if config.preferAllocInSameNode then batchPutWhenPreferSameNode c starts started
    else
      let final := finalizeBatchPut c ((started.mapIdx (submitTransfer c)).map PutOperation.wait)
      { starts := starts, results := collectResults final.1, sent := final.2,
        tasks := (started.mapIdx (storeTasks c)).flatten }

end

end Mooncake.Client
