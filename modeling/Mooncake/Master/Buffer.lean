import Mooncake.Master.Types

/-! Buffer allocators and the buffers they hand out. A `shared_ptr` to an allocator
is its index in the heap; a buffer holds such an index as its `weak_ptr`, so it
outlives the allocator. Nothing is assumed about an allocator's own bookkeeping:
what the master relies on has to follow from the order of its calls. -/
namespace Mooncake.Master

/-- The abstract class `BufferAllocatorBase`, with the `switch` over its constructors in
`MountSegment` as `create`; `none` is a constructor that throws. A failing `allocate` may still
change the allocator. `H` is what a buffer keeps to give its memory back. -/
class BufferAllocatorBase (A : Type) (H : outParam Type) where
  create : BufferAllocatorType → Segment → Option A
  allocate : A → Nat → A × Option (Nat × H)
  deallocate : A → Nat → Nat → H → A
  capacity : A → Nat
  size : A → Nat
  getSegmentName : A → String
  getTransportEndpoint : A → String
  getLargestFreeRegion : A → Nat

structure AllocatedBuffer (H : Type) where
  object : Nat
  allocator : Nat
  bufferPtr : Nat
  size : Nat
  handle : H
deriving DecidableEq

structure BufferDescriptor where
  size : Nat
  bufferAddress : Nat
  transportEndpoint : String
deriving DecidableEq

/-- The allocators ever created, the identities of the buffers that have not been
destroyed, and the gauges. `origin` is history that no step reads: the segment and
the client each allocator was made for. -/
structure Heap (A : Type) where
  objects : List A := []
  origin : List (UUID × UUID) := []
  live : List Nat := []
  nextBuffer : Nat := 0
  metrics : Metrics := {}

namespace Heap
variable {A H : Type}
open BufferAllocatorBase

def addAllocator (h : Heap A) (a : A) (segment : Segment) (client : UUID) : Heap A :=
  { h with
    objects := h.objects ++ [a]
    origin := h.origin ++ [(segment.id, client)]
    metrics := { h.metrics with totalMemCapacity := h.metrics.totalMemCapacity + BitVec.ofNat 64 segment.size } }

variable [BufferAllocatorBase A H]

def allocate (h : Heap A) (id size : Nat) : Heap A × Option (AllocatedBuffer H) :=
  match h.objects[id]? with
  | none => (h, none)
  | some a =>
    let result := BufferAllocatorBase.allocate a size
    let h := { h with objects := h.objects.set id result.1 }
    match result.2 with
    | none => (h, none)
    | some (ptr, handle) =>
      ({ h with
          live := h.nextBuffer :: h.live
          nextBuffer := h.nextBuffer + 1
          metrics := { h.metrics with allocatedMemSize := h.metrics.allocatedMemSize + BitVec.ofNat 64 size } },
        some ⟨h.nextBuffer, id, ptr, size, handle⟩)

variable (valid : Nat → Bool)

/-- `~AllocatedBuffer`; `valid` says which allocators are still referenced. -/
def destroy (h : Heap A) (b : AllocatedBuffer H) : Heap A :=
  { h with
    objects :=
      if valid b.allocator then h.objects.modify b.allocator (fun a => deallocate a b.bufferPtr b.size b.handle)
      else h.objects
    live := h.live.erase b.object
    metrics := { h.metrics with allocatedMemSize := h.metrics.allocatedMemSize - BitVec.ofNat 64 b.size } }

def destroyAll (h : Heap A) (bs : List (AllocatedBuffer H)) : Heap A :=
  bs.foldl (destroy valid) h

def bufferDescriptor (h : Heap A) (b : AllocatedBuffer H) : BufferDescriptor :=
  ⟨b.size, b.bufferPtr,
    if valid b.allocator then (h.objects[b.allocator]?).elim "" getTransportEndpoint else ""⟩

end Heap
end Mooncake.Master
