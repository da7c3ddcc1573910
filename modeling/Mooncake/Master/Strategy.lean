import Mooncake.Lib.Program
import Mooncake.Master.Metadata

/-! `RandomAllocationStrategy::Allocate`. It runs under a shared lock on the segments, so
other requests allocate and free buffers between its calls of the allocators: it is a
program of such calls. The shuffle of the eligible allocators is one more call, answered
by the random number generator. Allocators are named by their index in the heap. -/
namespace Mooncake.Master
open Program
variable {H : Type}

inductive AllocOp (H : Type) where
  | getSegmentName (allocator : Nat)
  | getLargestFreeRegion (allocator : Nat)
  | allocate (allocator size : Nat)
  | shuffle (indices : List Nat)
  | destroy (buffer : AllocatedBuffer H)

@[reducible] def AllocOp.Answer : AllocOp H → Type
  | .getSegmentName _ => String
  | .getLargestFreeRegion _ => Nat
  | .allocate _ _ => Option (AllocatedBuffer H)
  | .shuffle _ => List Nat
  | .destroy _ => Unit

abbrev AllocProgram (H α : Type) : Type := Program (AllocOp H) AllocOp.Answer α

def kMaxRetryLimit : Nat := 10

section Calls

def getSegmentName (allocator : Nat) : AllocProgram H String := perform (AllocOp.getSegmentName allocator)
def getLargestFreeRegion (allocator : Nat) : AllocProgram H Nat := perform (AllocOp.getLargestFreeRegion allocator)
def allocateBuffer (allocator size : Nat) : AllocProgram H (Option (AllocatedBuffer H)) :=
  perform (AllocOp.allocate allocator size)
def shuffle (indices : List Nat) : AllocProgram H (List Nat) := perform (AllocOp.shuffle indices)
def destroyBuffer (buffer : AllocatedBuffer H) : AllocProgram H Unit := perform (AllocOp.destroy buffer)

def destroyBuffers : List (AllocatedBuffer H) → AllocProgram H Unit
  | [] => pure ()
  | b :: bs => do
    destroyBuffer b
    destroyBuffers bs

end Calls

def allocateFirst (size : Nat) : List Nat → AllocProgram H (Option (AllocatedBuffer H))
  | [] => pure none
  | a :: rest => do
    match ← allocateBuffer a size with
    | some buffer => pure (some buffer)
    | none => allocateFirst size rest

def eligibleAllocators (size : Nat) (excludedSegments : List String) : List Nat → AllocProgram H (List Nat)
  | [] => pure []
  | a :: rest => do
    let name ← getSegmentName a
    if name ∈ excludedSegments then eligibleAllocators size excludedSegments rest
    else
      let free ← getLargestFreeRegion a
      let others ← eligibleAllocators size excludedSegments rest
      pure (if size ≤ free then a :: others else others)

def tryRandomAllocate (allocators : List Nat) (size : Nat) (excludedSegments : List String) :
    AllocProgram H (Option (AllocatedBuffer H)) := do
  let eligible ← eligibleAllocators size excludedSegments allocators
  if eligible.isEmpty then pure none
  else
    let order ← shuffle eligible
    allocateFirst size (order.take (min kMaxRetryLimit eligible.length))

/-- What `PutStart` reads of the segments under the shared lock, with its request. -/
structure Placement where
  allocators : List Nat
  allocatorsByName : Table String (List Nat)
  config : ReplicateConfig

def allocateSingleBuffer (p : Placement) (size : Nat) (excludedSegments : List String) :
    AllocProgram H (Option (AllocatedBuffer H)) := do
  let preferred := p.config.preferredSegment
  if preferred ≠ "" ∧ preferred ∉ excludedSegments then
    match ← allocateFirst size (p.allocatorsByName.listAt preferred) with
    | some buffer => pure (some buffer)
    | none => tryRandomAllocate p.allocators size excludedSegments
  else tryRandomAllocate p.allocators size excludedSegments

def allocateSlice (p : Placement) (sliceSize : Nat) : Nat → List String → AllocProgram H (List (AllocatedBuffer H))
  | 0, _ => pure []
  | replicaNum + 1, usedSegments => do
    match ← allocateSingleBuffer p sliceSize usedSegments with
    | none => pure []
    | some buffer => do
      let name ← getSegmentName buffer.allocator
      let buffers ← allocateSlice p sliceSize replicaNum (name :: usedSegments)
      pure (buffer :: buffers)

/-- The loop over the slices. A slice that finds fewer segments lowers the number of
replicas, and the buffers of the replicas given up are destroyed. -/
def allocateSlices (p : Placement) : List Nat → Nat → List (List (AllocatedBuffer H)) →
    AllocProgram H (Except ErrorCode (List (List (AllocatedBuffer H))))
  | [], _, replicaBuffers => pure (.ok replicaBuffers)
  | size :: sizes, actualReplicaCount, replicaBuffers => do
    let sliceReplicas ← allocateSlice p size actualReplicaCount []
    if sliceReplicas.isEmpty then do
      destroyBuffers replicaBuffers.flatten
      pure (.error .noAvailableHandle)
    else do
      destroyBuffers (replicaBuffers.drop sliceReplicas.length).flatten
      allocateSlices p sizes sliceReplicas.length
        (List.zipWith (fun buffers buffer => buffers ++ [buffer]) replicaBuffers sliceReplicas)

def validateInput (sliceSizes : List Nat) (replicaNum : Nat) : Bool :=
  replicaNum ≠ 0 && !sliceSizes.isEmpty && !sliceSizes.contains 0

def allocateReplicas (p : Placement) (sliceSizes : List Nat) :
    AllocProgram H (Except ErrorCode (List (Replica H))) := do
  if validateInput sliceSizes p.config.replicaNum then
    match ← allocateSlices p sliceSizes p.config.replicaNum (List.replicate p.config.replicaNum []) with
    | .error e => pure (.error e)
    | .ok replicaBuffers => pure (.ok (replicaBuffers.map (fun buffers => ⟨.memory buffers, .processing⟩)))
  else pure (.error .invalidParams)

end Mooncake.Master
