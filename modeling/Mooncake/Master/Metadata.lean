import Mooncake.Lib.Table
import Mooncake.Master.Buffer

/-! Replicas and the metadata of an object, with the operations the master applies to one
entry of a shard. Time is a number of nanoseconds on a steady clock. What an operation
takes out of an entry is returned as garbage, to be destroyed by the caller. -/
namespace Mooncake.Master

inductive ReplicaData (H : Type) where
  | memory (buffers : List (AllocatedBuffer H))
  | disk (filePath : String) (objectSize : Nat)

structure Replica (H : Type) where
  data : ReplicaData H
  status : ReplicaStatus

inductive ReplicaDescriptor where
  | memory (bufferDescriptors : List BufferDescriptor) (status : ReplicaStatus)
  | disk (filePath : String) (objectSize : Nat) (status : ReplicaStatus)
deriving DecidableEq

namespace ReplicaDescriptor

def status : ReplicaDescriptor → ReplicaStatus
  | .memory _ status => status
  | .disk _ _ status => status

def isMemoryReplica : ReplicaDescriptor → Bool
  | .memory _ _ => true
  | .disk _ _ _ => false

end ReplicaDescriptor

section
variable {A H : Type}

namespace ReplicaData

def type : ReplicaData H → ReplicaType
  | .memory _ => .memory
  | .disk _ _ => .disk

def buffers : ReplicaData H → List (AllocatedBuffer H)
  | .memory buffers => buffers
  | .disk _ _ => []

def diskSize : ReplicaData H → Nat
  | .memory _ => 0
  | .disk _ objectSize => objectSize

end ReplicaData

namespace Replica

def type (r : Replica H) : ReplicaType := r.data.type
def buffers (r : Replica H) : List (AllocatedBuffer H) := r.data.buffers

def hasInvalidMemHandle (valid : Nat → Bool) (r : Replica H) : Bool :=
  r.buffers.any (fun b => !valid b.allocator)

/-- A replica that is not being written stays as it is, with a line in the log. -/
def markComplete (r : Replica H) : Replica H :=
  if r.status = .processing then { r with status := .complete } else r

def getDescriptor [BufferAllocatorBase A H] (valid : Nat → Bool) (h : Heap A) (r : Replica H) : ReplicaDescriptor :=
  match r.data with
  | .memory buffers => .memory (buffers.map (h.bufferDescriptor valid)) r.status
  | .disk filePath objectSize => .disk filePath objectSize r.status

end Replica

/-- `object` tells two objects stored one after the other under one key apart. -/
structure ObjectMetadata (H : Type) where
  object : Nat
  replicas : List (Replica H)
  size : Nat
  leaseTimeout : Int
  softPinTimeout : Option Int
  diskReplicaSize : Nat

inductive Garbage (H : Type) where
  | replica (r : Replica H)
  | object (m : ObjectMetadata H)

namespace ObjectMetadata

/-- The constructor: no lease yet, which is a lease that ended at the epoch of the clock. -/
def make (object valueLength : Nat) (reps : List (Replica H)) (enableSoftPin : Bool) : ObjectMetadata H :=
  { object := object
    replicas := reps
    size := valueLength
    leaseTimeout := 0
    softPinTimeout := if enableSoftPin then some 0 else none
    diskReplicaSize := (reps.map (fun r => r.data.diskSize)).foldl (fun sum n => (sum + n) % 2 ^ 64) 0 }

variable (m : ObjectMetadata H)

def buffers : List (AllocatedBuffer H) := m.replicas.flatMap Replica.buffers

/-- The status of the first replica of this type whose status is another one. -/
def hasDiffRepStatus (status : ReplicaStatus) (type : ReplicaType) : Option ReplicaStatus :=
  (m.replicas.find? (fun r => r.status ≠ status ∧ r.type = type)).map Replica.status

def nanosPerMilli : Int := 1000000

def grantLease (now : Int) (ttl softTtl : Nat) : ObjectMetadata H :=
  { m with
    leaseTimeout := max m.leaseTimeout (now + ttl * nanosPerMilli)
    softPinTimeout := m.softPinTimeout.map (fun t => max t (now + softTtl * nanosPerMilli)) }

variable (type : ReplicaType)

def eraseReplica : ObjectMetadata H × List (Garbage H) :=
  ({ m with replicas := m.replicas.filter (fun r => r.type ≠ type) },
    (m.replicas.filter (fun r => r.type = type)).map .replica)

def hasMemReplica : Bool := m.replicas.any (fun r => r.type = .memory)
def isLeaseExpired (now : Int) : Bool := now ≥ m.leaseTimeout
def isSoftPinned (now : Int) : Bool := m.softPinTimeout.any (fun t => now < t)
def isValid : Bool := !m.replicas.isEmpty && decide (m.size > 0)
def isAllReplicasComplete : Bool := m.replicas.all (fun r => r.status = .complete)

def markReplicas : ObjectMetadata H :=
  { m with replicas := m.replicas.map (fun r => if r.type = type then r.markComplete else r) }

/-- `EraseReplica`, then the entry goes unless it is still valid. -/
def dropReplicas : Option (ObjectMetadata H) × List (Garbage H) :=
  let erased := m.eraseReplica type
  if erased.1.isValid then (some erased.1, erased.2) else (none, erased.2 ++ [.object erased.1])

end ObjectMetadata

def cleanupStaleHandles (valid : Nat → Bool) (m : ObjectMetadata H) : ObjectMetadata H × List (Garbage H) :=
  ({ m with replicas := m.replicas.filter (fun r => !r.hasInvalidMemHandle valid) },
    (m.replicas.filter (fun r => r.hasInvalidMemHandle valid)).map .replica)

abbrev Outcome (H ρ : Type) : Type := ρ × Option (ObjectMetadata H) × List (Garbage H)

/-- `MetadataAccessor`: stale handles go first, and with the last of them the entry. -/
def accessEntry {ρ : Type} (valid : Nat → Bool) (missing : ρ) (use : ObjectMetadata H → Outcome H ρ) :
    Option (ObjectMetadata H) → Outcome H ρ
  | none => (missing, none, [])
  | some m =>
    let cleaned := cleanupStaleHandles valid m
    if cleaned.1.replicas.isEmpty then (missing, none, cleaned.2 ++ [.object cleaned.1])
    else
      let used := use cleaned.1
      (used.1, used.2.1, cleaned.2 ++ used.2.2)

namespace ObjectMetadata
variable (m : ObjectMetadata H) (now : Int)

def completeReplicas : List (Replica H) := m.replicas.filter (fun r => r.status = .complete)

def exist (ttl softTtl : Nat) : Outcome H Bool :=
  if m.completeReplicas.isEmpty then (false, some m, [])
  else (true, some (m.grantLease now ttl softTtl), [])

def getReplicaList (ttl softTtl : Nat) (describe : Replica H → ReplicaDescriptor) :
    Outcome H (Except ErrorCode (List ReplicaDescriptor)) :=
  if m.completeReplicas.isEmpty then (.error .replicaIsNotReady, some m, [])
  else (.ok (m.completeReplicas.map describe), some (m.grantLease now ttl softTtl), [])

def putEnd (type : ReplicaType) (softTtl : Nat) : Outcome H (Except ErrorCode Unit) :=
  (.ok (), some ((m.markReplicas type).grantLease now 0 softTtl), [])

def putRevoke (type : ReplicaType) : Outcome H (Except ErrorCode Unit) :=
  match m.hasDiffRepStatus .processing type with
  | some _ => (.error .invalidWrite, some m, [])
  | none => (.ok (), m.dropReplicas type)

def remove : Outcome H (Except ErrorCode Unit) :=
  if !m.isLeaseExpired now then (.error .objectHasLease, some m, [])
  else if !m.isAllReplicasComplete then (.error .replicaIsNotReady, some m, [])
  else (.ok (), none, [.object m])

end ObjectMetadata
end
end Mooncake.Master
