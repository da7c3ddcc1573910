import Mooncake.Master.Buffer
import Mooncake.OffsetAllocator.Report

/-! The buffer allocator of a segment in OFFSET mode. The slab allocator of CACHELIB
mode is third-party code and is not modelled: its constructor fails here, and what
is proved about the master holds for any allocator in its place. -/
namespace Mooncake.Master
open Offset

structure OffsetBufferAllocator where
  segmentName : String
  totalSize : Nat
  curSize : Nat
  transportEndpoint : String
  offsetAllocator : OffsetAllocator

namespace OffsetBufferAllocator

/-- Between 1K and 64K nodes at first, and between 1M and 64M at most. -/
def make (segment : Segment) : OffsetBufferAllocator :=
  let initCapacity := min (max (segment.size / 4096) 1024) (64 * 1024)
  let maxCapacity := min (max (segment.size / 1024) (1024 * 1024)) (64 * 1024 * 1024)
  { segmentName := segment.name
    totalSize := segment.size
    curSize := 0
    transportEndpoint := segment.teEndpoint
    offsetAllocator := OffsetAllocator.create segment.base segment.size initCapacity maxCapacity }

def create : BufferAllocatorType → Segment → Option OffsetBufferAllocator
  | .cachelib, _ => none
  | .offset, segment => some (make segment)

def allocate (a : OffsetBufferAllocator) (size : Nat) :
    OffsetBufferAllocator × Option (Nat × OffsetAllocationHandle) :=
  match a.offsetAllocator.allocate size with
  | (owner, none) => ({ a with offsetAllocator := owner }, none)
  | (owner, some handle) =>
    ({ a with offsetAllocator := owner, curSize := (a.curSize + size) % 2 ^ 64 }, some (handle.address, handle))

def deallocate (a : OffsetBufferAllocator) (_ptr size : Nat) (handle : OffsetAllocationHandle) :
    OffsetBufferAllocator :=
  { a with
    offsetAllocator := a.offsetAllocator.freeAllocation handle.allocation handle.size
    curSize := (a.curSize + (2 ^ 64 - size)) % 2 ^ 64 }

instance : BufferAllocatorBase OffsetBufferAllocator OffsetAllocationHandle where
  create := create
  allocate := allocate
  deallocate := deallocate
  capacity := totalSize
  size := curSize
  getSegmentName := segmentName
  getTransportEndpoint := transportEndpoint
  getLargestFreeRegion a := a.offsetAllocator.storageReport.largestFreeRegion

/-- A region is reported for just the requests that would be granted. -/
theorem le_region_iff {capacity n : Nat} {s : Arena} {a : OffsetBufferAllocator} (framed : s.Framed capacity)
    (word : capacity < 2 ^ 64) (owner : a.offsetAllocator = s.owner) (positive : 1 ≤ n) (half : n < 2 ^ 63) :
    n ≤ BufferAllocatorBase.getLargestFreeRegion a ↔ (BufferAllocatorBase.allocate a n).2.isSome := by
  have passed : (allocate a n).2.isSome ↔ (s.owner.allocate n).2.isSome := by
    simp only [allocate, owner]
    split <;> rename_i outcome <;> simp [outcome]
  refine Iff.trans ?_ passed.symm
  simp only [BufferAllocatorBase.getLargestFreeRegion, owner]
  by_cases room : s.owner.allocator.freeOffset < s.owner.allocator.maxCapacity
  · exact (allocate_iff_le_report framed word positive half room).symm
  · obtain ⟨nothing, refused⟩ := full_table framed room n
    rw [nothing, refused]
    exact iff_of_false (by omega) (by simp)

/-- In every state that calls of the owner lead to, the filter of `tryRandomAllocate` is
exact: a region is reported for just the requests that would be granted. -/
theorem largest_region_exact (base capacity init limit : Nat) (word : capacity < 2 ^ 64) (some_node : 1 ≤ init)
    (init_word : init < 2 ^ 32) (limit_word : limit < 2 ^ 32) (calls : List Call) (s : Arena)
    (run : Run.run Arena.step (Arena.start base capacity init limit) calls = some s) :
    (s.owner.allocator.freeOffset < s.owner.allocator.maxCapacity → ∀ n, 1 ≤ n → n < 2 ^ 63 →
      ((s.owner.allocate n).2.isSome ↔ n ≤ s.owner.storageReport.largestFreeRegion)) ∧
    (¬ s.owner.allocator.freeOffset < s.owner.allocator.maxCapacity →
      s.owner.storageReport.largestFreeRegion = 0 ∧ ∀ n, (s.owner.allocate n).2 = none) ∧
    ∀ a : OffsetBufferAllocator, a.offsetAllocator = s.owner → ∀ n, 1 ≤ n → n < 2 ^ 63 →
      (n ≤ BufferAllocatorBase.getLargestFreeRegion a ↔ (BufferAllocatorBase.allocate a n).2.isSome) := by
  have framed := arena_run_framed word some_node init_word limit_word run
  exact ⟨fun room n positive half => allocate_iff_le_report framed word positive half room,
    fun full => ⟨(full_table framed full 0).1, fun n => (full_table framed full n).2⟩,
    fun a owner n positive half => le_region_iff framed word owner positive half⟩

theorem largest_region_exact_scaled :
    ∃ s, Run.run Arena.step (Arena.start 4096 (2 ^ 33) 16 64) [.allocate 5, .allocate (2 ^ 32)] = some s ∧
      ((s.owner.allocate (2 ^ 31)).2.isSome ↔ 2 ^ 31 ≤ s.owner.storageReport.largestFreeRegion) := by
  have outcome : (Run.run Arena.step (Arena.start 4096 (2 ^ 33) 16 64) [.allocate 5, .allocate (2 ^ 32)]).map
      (fun s => (s.owner.allocator.freeOffset, s.owner.allocator.maxCapacity)) = some (3, 64) := by
    decide +kernel
  obtain ⟨s, run, offsets⟩ := Option.map_eq_some_iff.mp outcome
  simp only [Prod.mk.injEq] at offsets
  have exact_report := largest_region_exact 4096 (2 ^ 33) 16 64 (by decide) (by decide) (by decide) (by decide) _ s run
  exact ⟨s, run, exact_report.1 (by rw [offsets.1, offsets.2]; decide) _ (by decide) (by decide)⟩

end OffsetBufferAllocator
end Mooncake.Master
