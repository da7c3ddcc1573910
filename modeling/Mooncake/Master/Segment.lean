import Mooncake.Lib.Table
import Mooncake.Master.Buffer

/-! `SegmentManager` with the operations of `ScopedSegmentAccess`. Each of them runs
under the segment mutex and is one function of the manager and the heap. -/
namespace Mooncake.Master

structure MountedSegment where
  segment : Segment
  status : SegmentStatus
  bufAllocator : Option Nat
deriving DecidableEq

structure SegmentManager where
  memoryAllocator : BufferAllocatorType
  allocatorsByName : Table String (List Nat) := ∅
  allocators : List Nat := []
  mountedSegments : Table UUID MountedSegment := ∅
  clientSegments : Table UUID (List UUID) := ∅

namespace SegmentManager
variable {A H : Type} [BufferAllocatorBase A H] (m : SegmentManager)

/-- `weak_ptr::expired` of a buffer is read at the boundaries of steps only: a copy of the `shared_ptr` that a
call holds within a step does not count. -/
def isAllocatorValid (id : Nat) : Bool :=
  m.allocators.contains id || m.allocatorsByName.entries.any (fun e => e.2.contains id) ||
    m.mountedSegments.entries.any (fun e => e.2.bufAllocator == some id)

def mountCheck (segment : Segment) : ErrorCode :=
  if segment.base = 0 ∨ segment.size = 0 then .invalidParams
  else if m.memoryAllocator = .cachelib ∧ (segment.base % slabSize ≠ 0 ∨ segment.size % slabSize ≠ 0) then
    .invalidParams
  else
    match m.mountedSegments.lookup segment.id with
    | some exist => if exist.status = .ok then .segmentAlreadyExists else .unavailableInCurrentStatus
    | none => .ok

def addSegment (segment : Segment) (client : UUID) (id : Nat) : SegmentManager :=
  { m with
    allocators := m.allocators ++ [id]
    allocatorsByName := m.allocatorsByName.pushBack segment.name id
    clientSegments := m.clientSegments.pushBack client segment.id
    mountedSegments := m.mountedSegments.insert segment.id ⟨segment, .ok, some id⟩ }

def mountSegment (h : Heap A) (segment : Segment) (client : UUID) : SegmentManager × Heap A × ErrorCode :=
  match m.mountCheck segment with
  | .ok =>
    match BufferAllocatorBase.create (A := A) m.memoryAllocator segment with
    | none => (m, h, .invalidParams)
    | some a =>
      (m.addSegment segment client h.objects.length, h.addAllocator a segment client, .ok)
  | error => (m, h, error)

/-- The loop stops only at the errors that another remount could solve. -/
def reMountSegment (m : SegmentManager) (h : Heap A) (client : UUID) :
    List Segment → SegmentManager × Heap A × ErrorCode
  | [] => (m, h, .ok)
  | segment :: segments =>
    match m.mountSegment h segment client with
    | (m, h, .unavailableInCurrentStatus) => (m, h, .unavailableInCurrentStatus)
    | (m, h, .internalError) => (m, h, .internalError)
    | (m, h, _) => m.reMountSegment h client segments

def dropAllocator (id : UUID) (mounted : MountedSegment) : SegmentManager :=
  { m with
    allocators := mounted.bufAllocator.elim m.allocators m.allocators.erase
    allocatorsByName := m.allocatorsByName.eraseFrom mounted.segment.name mounted.bufAllocator
    mountedSegments := m.mountedSegments.insert id { mounted with bufAllocator := none, status := .unmounting } }

/-- The second component is the size to take off the capacity gauge later. -/
def prepareUnmountSegment (id : UUID) : SegmentManager × Nat × ErrorCode :=
  match m.mountedSegments.lookup id with
  | none => (m, 0, .segmentNotFound)
  | some mounted =>
    if mounted.status = .unmounting then (m, 0, .unavailableInCurrentStatus)
    else (m.dropAllocator id mounted, mounted.segment.size, .ok)

/-- It takes the client of the request, and goes on if that client does not list the segment. -/
def commitUnmountSegment (h : Heap A) (id client : UUID) (decCapacity : Nat) : SegmentManager × Heap A :=
  ({ m with
      clientSegments := m.clientSegments.eraseFrom client (some id)
      mountedSegments := m.mountedSegments.erase id },
    { h with
      metrics :=
        { h.metrics with totalMemCapacity := h.metrics.totalMemCapacity - BitVec.ofNat 64 decCapacity } })

def getClientSegments (client : UUID) : Except ErrorCode (List Segment) :=
  match m.clientSegments.lookup client with
  | none => .error .segmentNotFound
  | some ids => .ok (ids.filterMap (fun id => (m.mountedSegments.lookup id).map MountedSegment.segment))

/-- Used size and capacity of the first segment with this name. An empty list would be an
access out of bounds; `none` inside `ok` stands for it. -/
def querySegments (h : Heap A) (name : String) : Except ErrorCode (Option (Nat × Nat)) :=
  match m.allocatorsByName.lookup name with
  | none => .error .segmentNotFound
  | some ids =>
    .ok (ids.head?.bind (fun id => (h.objects[id]?).map
      (fun a => (BufferAllocatorBase.size a, BufferAllocatorBase.capacity a))))

/-- A mount changes nothing, or adds a segment whose identifier was free. -/
theorem mountSegment_cases (h : Heap A) (segment : Segment) (client : UUID) :
    (∃ code, code ≠ .ok ∧ m.mountSegment h segment client = (m, h, code)) ∨
      ∃ a, m.mountedSegments.lookup segment.id = none ∧
        m.mountSegment h segment client =
          (m.addSegment segment client h.objects.length, h.addAllocator a segment client, .ok) := by
  unfold mountSegment
  split
  · rename_i accepted
    have free : m.mountedSegments.lookup segment.id = none := by
      simp only [mountCheck] at accepted
      split at accepted <;> try contradiction
      split at accepted <;> try contradiction
      split at accepted
      · split at accepted <;> contradiction
      · assumption
    split
    · exact Or.inl ⟨.invalidParams, by decide, rfl⟩
    · rename_i a made
      exact Or.inr ⟨a, free, rfl⟩
  · rename_i error refused
    exact Or.inl ⟨_, refused, rfl⟩

theorem mountSegment_unmounting {m : SegmentManager} {segment : Segment} {s : MountedSegment}
    (found : m.mountedSegments.lookup segment.id = some s) (leaving : s.status = .unmounting) (h : Heap A)
    (client : UUID) :
    m.mountSegment h segment client = (m, h, .invalidParams) ∨
      m.mountSegment h segment client = (m, h, .unavailableInCurrentStatus) := by
  have busy : m.mountCheck segment = .invalidParams ∨ m.mountCheck segment = .unavailableInCurrentStatus := by
    simp only [mountCheck, found, leaving]
    split
    · exact Or.inl rfl
    split
    · exact Or.inl rfl
    · exact Or.inr rfl
  rcases busy with code | code
  · exact Or.inl (by simp only [mountSegment, code])
  · exact Or.inr (by simp only [mountSegment, code])

theorem reMountSegment_keeps {P : SegmentManager → Heap A → Prop} (client : UUID)
    (keeps : ∀ m h segment, P m h → P (m.mountSegment h segment client).1 (m.mountSegment h segment client).2.1)
    (segments : List Segment) (m : SegmentManager) (h : Heap A) (start : P m h) :
    P (m.reMountSegment h client segments).1 (m.reMountSegment h client segments).2.1 := by
  induction segments generalizing m h with
  | nil => exact start
  | cons segment segments ih =>
    have next := keeps m h segment start
    unfold reMountSegment
    split
    · rename_i outcome
      rw [outcome] at next
      exact next
    · rename_i outcome
      rw [outcome] at next
      exact next
    · rename_i outcome
      rw [outcome] at next
      exact ih _ _ next

theorem prepareUnmountSegment_cases (id : UUID) :
    (m.mountedSegments.lookup id = none ∧ m.prepareUnmountSegment id = (m, 0, .segmentNotFound)) ∨
    (∃ s, m.mountedSegments.lookup id = some s ∧ s.status = .unmounting ∧
      m.prepareUnmountSegment id = (m, 0, .unavailableInCurrentStatus)) ∨
    ∃ s, m.mountedSegments.lookup id = some s ∧ s.status ≠ .unmounting ∧
      m.prepareUnmountSegment id = (m.dropAllocator id s, s.segment.size, .ok) := by
  unfold prepareUnmountSegment
  split
  · exact Or.inl ⟨by assumption, rfl⟩
  · rename_i s found
    split
    · exact Or.inr (Or.inl ⟨s, found, by assumption, rfl⟩)
    · exact Or.inr (Or.inr ⟨s, found, by assumption, rfl⟩)

end SegmentManager
end Mooncake.Master
