import Mooncake.P2PStore.Payload
import Mooncake.P2PStore.RegisteredMemory

/-! `GetReplica`: reading the payload, one goroutine for the transfer of each shard, the check that the payload
is still the same, and the update of the metadata. The offsets of shards are natural numbers: a shard lies in a
buffer of the process, so that no sum of an address and an offset reaches `2 ^ 64`. -/
namespace Mooncake.P2PStore

def maxChunkSize : Nat := 4096 * 1024 * 1024

abbrev Segments : Type := String → Nat → UInt8

abbrev Memory : Type := Nat → UInt8

/-! ## The transfer of a shard -/

/-- How one attempt ends. One that was submitted but did not complete may have written some of the bytes. -/
inductive Attempt where
  | unallocated
  | unsubmitted
  | interrupted (e : Err) (residue : Nat → Option UInt8)
  | failed (residue : Nat → Option UInt8)
  | unfreed (residue : Nat → Option UInt8)
  | completed

def leave (memory : Memory) (source length : Nat) (residue : Nat → Option UInt8) : Memory :=
  fun a => if source ≤ a ∧ a < source + length then (residue (a - source)).getD (memory a) else memory a

/-- What is left of a call of `performTransfer`, with the batches it has allocated: the place that each was
submitted for, and whether it was freed. -/
structure Transfer where
  err : Option Err
  memory : Memory
  batches : List (Option Location × Bool)

/-- The loop of `performTransfer`, which starts with `max(3, shard.Count())` rounds. -/
def transferLoop (segments : Segments) (source : Nat) (shard : Shard) (random : Nat) (attempts : Nat → Attempt) :
    Nat → Nat → Memory → Transfer
  | 0, _, memory => ⟨some .tooManyRetries, memory, []⟩
  | rounds + 1, retryCount, memory =>
    match attempts retryCount, shard.getLocation random retryCount with
    | .unallocated, _ => ⟨some .transferEngine, memory, []⟩
    | _, none => ⟨some .tooManyRetries, memory, [(none, false)]⟩
    | .unsubmitted, some location => ⟨some .transferEngine, memory, [(some location, false)]⟩
    | .interrupted e residue, some location => ⟨some e, leave memory source shard.length residue, [(some location, false)]⟩
    | .unfreed residue, some location =>
      ⟨some .transferEngine, leave memory source shard.length residue, [(some location, false)]⟩
    | .failed residue, some location =>
      let rest := transferLoop segments source shard random attempts rounds (retryCount + 1)
        (leave memory source shard.length residue)
      { rest with batches := (some location, true) :: rest.batches }
    | .completed, some location =>
      ⟨none, Extent.write memory source (Extent.read (segments location.segmentName) location.offset shard.length),
        [(some location, true)]⟩

variable (segments : Segments)

def performTransfer (source : Nat) (shard : Shard) (random : Nat) (attempts : Nat → Attempt)
    (memory : Memory) : Option Err × Memory :=
  let transfer := transferLoop segments source shard random attempts (max 3 shard.count) 0 memory
  (transfer.err, transfer.memory)

/-! ## The goroutines of `doGetReplica` -/

structure Task where
  buffer : Nat
  source : Nat
  shard : Shard

/-- A goroutine stores the result in the variable `err` of its buffer, which it shares with the others of that
buffer, and then looks at the variable. -/
inductive TaskPhase where
  | running
  | stored
  | done
deriving DecidableEq

structure Download where
  /-- the buffers that the loop has not come to -/
  rest : List (Nat × Nat)
  buffer : Nat
  offset : Nat
  taskID : Nat
  tasks : List Task
  phase : Nat → TaskPhase
  err : Nat → Option Err
  errChan : Option Err

namespace Download

def start (buffers : List (Nat × Nat)) : Download := ⟨buffers, 0, 0, 0, [], fun _ => .running, fun _ => none, none⟩

def launch (shards : List Shard) (buffer addr : Nat) : Nat → List Nat → Option (List Task)
  | _, [] => some []
  | taskID, offset :: offsets =>
    match shards[taskID]? with
    | none => none
    | some shard => (launch shards buffer addr (taskID + 1) offsets).map (⟨buffer, addr + offset, shard⟩ :: ·)

/-- What the loop does for a buffer that has been added to the registered memory. The offset is not set back. -/
def spawn (payload : Payload) (d : Download) (addr size : Nat) (rest : List (Nat × Nat)) : Option Download :=
  let offsets := Strides.strides size payload.maxShardSize d.offset
  (launch payload.shards d.buffer addr d.taskID offsets).map fun tasks =>
    { d with
      rest := rest
      buffer := d.buffer + 1
      offset := d.offset + offsets.length * payload.maxShardSize
      taskID := d.taskID + offsets.length
      tasks := d.tasks ++ tasks }

def transferred (d : Download) (memory : Memory) (k random : Nat) (attempts : Nat → Attempt) :
    Option (Download × Memory) :=
  match d.tasks[k]?, d.phase k with
  | some task, .running =>
    let (err, memory') := performTransfer segments task.source task.shard random attempts memory
    some ({ d with phase := Function.update d.phase k .stored, err := Function.update d.err task.buffer err }, memory')
  | _, _ => none

def checked (d : Download) (k : Nat) : Option Download :=
  match d.tasks[k]?, d.phase k with
  | some task, .stored =>
    some { d with
      phase := Function.update d.phase k .done
      errChan := match d.errChan with
        | none => d.err task.buffer
        | some e => some e }
  | _, _ => none

def waited (d : Download) : Bool := d.rest.isEmpty && (List.range d.tasks.length).all (fun k => d.phase k = .done)

end Download

/-! ## The call -/

inductive Outcome where
  | returned (err : Option Err)
  | indexOutOfRange
  | nilDereference
deriving DecidableEq

inductive GetPhase where
  | reading
  | downloading (payload : Payload) (revision : Nat) (d : Download)
  | rechecking (payload : Payload) (revision : Nat)
  | updating (payload : Payload) (revision : Nat)
  | rereading
  /-- returned because a buffer could not be added; the goroutines of the buffers before it go on -/
  | abandoned (e : Err) (d : Download)
  | finished (outcome : Outcome)

def GetPhase.outcome : GetPhase → Option Outcome
  | .abandoned e _ => some (.returned (some e))
  | .finished outcome => some outcome
  | _ => none

structure Getting where
  phase : GetPhase
  memory : Memory

abbrev GetReply : Type := Except Err (Option (Payload × Nat))

/-- What the call sees next: an answer of etcd, of the registered memory, or a step of a goroutine. -/
inductive GetInput where
  | got (reply : GetReply)
  | added (err : Option Err)
  | transferred (k random : Nat) (attempts : Nat → Attempt)
  | checked (k : Nat)
  | waited
  | updated (reply : Except Err Bool)

namespace GetPhase

def start (contained : Bool) (addrList sizeList : List Nat) : GetPhase :=
  if addrList.length ≠ sizeList.length ∨ addrList.length = 0 then .finished (.returned (some .invalidArgument))
  else if contained then .finished (.returned (some .payloadOpened))
  else .reading

def update (localServerName : String) (buffers : List (Nat × Nat)) (payload : Payload) (revision : Nat) : GetPhase :=
  match payload.appendReplicas localServerName buffers with
  | none => .finished .indexOutOfRange
  | some payload' => .updating payload' revision

end GetPhase

namespace Getting

def step (localServerName : String) (buffers : List (Nat × Nat)) (g : Getting) : GetInput → Option Getting
  | .got reply =>
    match g.phase with
    | .reading =>
      match reply with
      | .error e => some { g with phase := .finished (.returned (some e)) }
      | .ok none => some { g with phase := .finished (.returned (some .payloadNotFound)) }
      | .ok (some (payload, revision)) => some { g with phase := .downloading payload revision (.start buffers) }
    | .rechecking payload revision =>
      match reply with
      | .error e => some { g with phase := .finished (.returned (some e)) }
      | .ok none => some { g with phase := .finished .nilDereference }
      | .ok (some (newPayload, recheckRevision)) =>
        if revision = recheckRevision ∨ isSubsetOf payload newPayload then
          some { g with phase := .update localServerName buffers payload revision }
        else some { g with phase := .downloading payload revision (.start buffers) }
    | .rereading =>
      match reply with
      | .error e => some { g with phase := .finished (.returned (some e)) }
      | .ok none => some { g with phase := .finished (.returned (some .payloadNotFound)) }
      | .ok (some (payload, revision)) => some { g with phase := .update localServerName buffers payload revision }
    | _ => none
  | .added err =>
    match g.phase with
    | .downloading payload revision d =>
      match d.rest, err with
      | [], _ => none
      | _ :: _, some e => some { g with phase := .abandoned e d }
      | (addr, size) :: rest, none =>
        match d.spawn payload addr size rest with
        | none => some { g with phase := .finished .indexOutOfRange }
        | some d' => some { g with phase := .downloading payload revision d' }
    | _ => none
  | .transferred k random attempts =>
    match g.phase with
    | .downloading payload revision d =>
      (d.transferred segments g.memory k random attempts).map fun (d', memory) => ⟨.downloading payload revision d', memory⟩
    | .abandoned e d =>
      (d.transferred segments g.memory k random attempts).map fun (d', memory) => ⟨.abandoned e d', memory⟩
    | _ => none
  | .checked k =>
    match g.phase with
    | .downloading payload revision d => (d.checked k).map fun d' => { g with phase := .downloading payload revision d' }
    | .abandoned e d => (d.checked k).map fun d' => { g with phase := .abandoned e d' }
    | _ => none
  | .waited =>
    match g.phase with
    | .downloading payload revision d =>
      if d.waited then
        match d.errChan with
        | some e => some { g with phase := .finished (.returned (some e)) }
        | none => some { g with phase := .rechecking payload revision }
      else none
    | _ => none
  | .updated reply =>
    match g.phase with
    | .updating _ _ =>
      match reply with
      | .error e => some { g with phase := .finished (.returned (some e)) }
      | .ok true => some { g with phase := .finished (.returned none) }
      | .ok false => some { g with phase := .rereading }
    | _ => none

end Getting

end Mooncake.P2PStore
