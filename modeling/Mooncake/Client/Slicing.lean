import Mooncake.Client.Data

/-! How the Python client cuts buffers into slices, to write a value from them or to read one
into them. -/
namespace Mooncake.Client

open List
open Master (BufferDescriptor ReplicaDescriptor kMaxSliceSize)

structure BufferHandle where
  ptr : Nat
  size : Nat
deriving DecidableEq

def chunkSlices (buffer size : Nat) : Nat → Nat → List Slice
  | 0, _ => []
  | rounds + 1, offset =>
    if offset < size then
      let chunkSize := min (size - offset) kMaxSliceSize
      ⟨buffer + offset, chunkSize⟩ :: chunkSlices buffer size rounds (offset + chunkSize)
    else []

/-- Every round takes at least one byte, so there are no more rounds than bytes. -/
def bufferSlices (buffer size : Nat) : List Slice := chunkSlices buffer size size 0

def splitIntoSlices (handle : BufferHandle) : List Slice := bufferSlices handle.ptr handle.size

def handleSlices (buffer : Nat) : Nat → List BufferDescriptor → List Slice
  | _, [] => []
  | offset, handle :: rest => ⟨buffer + offset, handle.size⟩ :: handleSlices buffer (offset + handle.size) rest

variable (replica : ReplicaDescriptor)

/-- `allocateSlices`, and what `get_into` and its batch version do with the buffer they are given. -/
def allocateSlices (buffer : Nat) : List Slice :=
  match replica with
  | .disk _ objectSize _ => bufferSlices buffer objectSize
  | .memory handles _ => handleSlices buffer 0 handles

def copyParts (buffer : Nat) : Nat → List (List UInt8) → (Nat → UInt8) → Nat → UInt8
  | _, [], m => m
  | offset, value :: rest, m => copyParts buffer (offset + value.length) rest (Extent.write m (buffer + offset) value)

section
variable {m : Nat → UInt8}

variable {buffer size rounds offset : Nat}

theorem gather_chunkSlices (inside : offset ≤ size) (enough : size ≤ offset + rounds) :
    gather m (chunkSlices buffer size rounds offset) = Extent.read m (buffer + offset) (size - offset) := by
  induction rounds generalizing offset with
  | zero =>
    have ceased : size - offset = 0 := by omega
    rw [ceased]
    rfl
  | succ rounds ih =>
    unfold chunkSlices
    split
    next more =>
      have positive : 0 < kMaxSliceSize := by decide
      have step : size - offset = min (size - offset) kMaxSliceSize +
          (size - (offset + min (size - offset) kMaxSliceSize)) := by omega
      rw [gather_cons, ih (by omega) (by omega), step, Extent.read_add, ← step, Nat.add_assoc]
    next done =>
      have ceased : size - offset = 0 := by omega
      rw [ceased]
      rfl

theorem gather_bufferSlices (buffer size : Nat) : gather m (bufferSlices buffer size) = Extent.read m buffer size :=
  gather_chunkSlices (Nat.zero_le size) (Nat.le_add_left size 0)

theorem gather_handleSlices (buffer offset : Nat) (handles : List BufferDescriptor) :
    gather m (handleSlices buffer offset handles) =
      Extent.read m (buffer + offset) (handles.map (·.size)).sum := by
  induction handles generalizing offset with
  | nil => rfl
  | cons handle rest ih =>
    rw [handleSlices, gather_cons, ih, map_cons, sum_cons, Extent.read_add, Nat.add_assoc]

theorem gather_allocateSlices (buffer : Nat) :
    gather m (allocateSlices replica buffer) = Extent.read m buffer (calculateTotalSize replica) := by
  cases replica with
  | memory handles status => exact gather_handleSlices buffer 0 handles
  | disk filePath objectSize status => exact gather_bufferSlices buffer objectSize

/-- What holds of the slice at each offset holds of all of them. -/
theorem forall_chunkSlices {P : Slice → Prop}
    (each : ∀ offset < size, P ⟨buffer + offset, min (size - offset) kMaxSliceSize⟩) :
    ∀ s ∈ chunkSlices buffer size rounds offset, P s := by
  induction rounds generalizing offset with
  | zero => exact fun s none => nomatch none
  | succ rounds ih =>
    intro s member
    unfold chunkSlices at member
    split at member
    next inside =>
      rcases mem_cons.mp member with rfl | later
      · exact each offset inside
      · exact ih s later
    next => cases member

theorem bufferSlices_real (size : Nat) (real : buffer ≠ 0) : ∀ s ∈ bufferSlices buffer size, s.ptr ≠ 0 :=
  forall_chunkSlices (fun _ _ => Nat.ne_of_gt (by simp only; omega))

theorem handleSlices_real (real : buffer ≠ 0) (offset : Nat) (handles : List BufferDescriptor) :
    ∀ s ∈ handleSlices buffer offset handles, s.ptr ≠ 0 := by
  induction handles generalizing offset with
  | nil => exact fun s none => nomatch none
  | cons handle rest ih =>
    intro s member
    rcases mem_cons.mp member with rfl | later
    · exact Nat.ne_of_gt (by simp only; omega)
    · exact ih _ s later

theorem allocateSlices_real (real : buffer ≠ 0) : ∀ s ∈ allocateSlices replica buffer, s.ptr ≠ 0 := by
  cases replica with
  | memory handles status => exact handleSlices_real real 0 handles
  | disk filePath objectSize status => exact bufferSlices_real objectSize real

theorem bufferSlices_within (buffer size : Nat) :
    ∀ s ∈ bufferSlices buffer size, buffer ≤ s.ptr ∧ s.ptr + s.size ≤ buffer + size :=
  forall_chunkSlices (fun _ _ => by simp only; omega)

theorem bufferSlices_small (buffer size : Nat) : ∀ s ∈ bufferSlices buffer size, s.size ≤ kMaxSliceSize :=
  forall_chunkSlices (fun _ _ => Nat.min_le_right _ _)

theorem bufferSlices_eq_nil : bufferSlices buffer size = [] ↔ size = 0 := by
  constructor
  · intro empty
    have bytes := gather_bufferSlices (m := fun _ => 0) buffer size
    rw [empty, gather_nil] at bytes
    rw [← Extent.length_read (fun _ => (0 : UInt8)) buffer size, ← bytes]
    rfl
  · rintro rfl
    rfl

theorem handleSlices_within (buffer offset : Nat) (handles : List BufferDescriptor) :
    ∀ s ∈ handleSlices buffer offset handles,
      buffer ≤ s.ptr ∧ s.ptr + s.size ≤ buffer + offset + (handles.map (·.size)).sum := by
  induction handles generalizing offset with
  | nil => exact fun s none => nomatch none
  | cons handle rest ih =>
    intro s member
    rw [map_cons, sum_cons]
    rcases mem_cons.mp member with rfl | later
    · simp only
      omega
    · have inside := ih _ s later
      omega

theorem allocateSlices_within (buffer : Nat) :
    ∀ s ∈ allocateSlices replica buffer, buffer ≤ s.ptr ∧ s.ptr + s.size ≤ buffer + calculateTotalSize replica := by
  cases replica with
  | memory handles status => exact handleSlices_within buffer 0 handles
  | disk filePath objectSize status => exact bufferSlices_within buffer objectSize

theorem read_copyParts (m : Nat → UInt8) (buffer offset : Nat) (parts : List (List UInt8)) :
    Extent.read (copyParts buffer offset parts m) buffer (offset + (parts.map List.length).sum) =
      Extent.read m buffer offset ++ parts.flatten := by
  induction parts generalizing offset m with
  | nil => simp [copyParts]
  | cons value rest ih =>
    rw [map_cons, sum_cons, ← Nat.add_assoc, copyParts, ih, Extent.read_add,
      Extent.read_write_before (Nat.le_refl _), Extent.read_write, flatten_cons, append_assoc]

end

/-- The ways in which the Python client makes slices of a value. `put` and `put_batch` copy one
part, `put_parts` several. -/
inductive Slicing where
  | putParts (handle : BufferHandle) (parts : List (List UInt8))
  | putFrom (buffer size : Nat)
  | putFromWithMetadata (buffer metadataBuffer size metadataSize : Nat)
  | multiBuffers (buffers : List (Nat × Nat))

namespace Slicing

def slices : Slicing → List Slice
  | putParts handle _ => splitIntoSlices handle
  | putFrom buffer size => bufferSlices buffer size
  | putFromWithMetadata buffer metadataBuffer size metadataSize =>
    bufferSlices metadataBuffer metadataSize ++ bufferSlices buffer size
  | multiBuffers buffers => buffers.map (fun b => ⟨b.1, b.2⟩)

def value (m : Nat → UInt8) : Slicing → List UInt8
  | putParts _ parts => parts.flatten
  | putFrom buffer size => Extent.read m buffer size
  | putFromWithMetadata buffer metadataBuffer size metadataSize =>
    Extent.read m metadataBuffer metadataSize ++ Extent.read m buffer size
  | multiBuffers buffers => buffers.flatMap (fun b => Extent.read m b.1 b.2)

/-- The parts have been copied to a buffer that was allocated for them, and are still there. -/
def Prepared (m : Nat → UInt8) : Slicing → Prop
  | putParts handle parts => handle.size = (parts.map List.length).sum ∧
      ∃ before, Extent.read m handle.ptr handle.size =
        Extent.read (copyParts handle.ptr 0 parts before) handle.ptr handle.size
  | putFrom _ _ | putFromWithMetadata _ _ _ _ | multiBuffers _ => True

def Real : Slicing → Prop
  | putParts handle _ => handle.ptr ≠ 0
  | putFrom buffer _ => buffer ≠ 0
  | putFromWithMetadata buffer metadataBuffer _ _ => buffer ≠ 0 ∧ metadataBuffer ≠ 0
  | multiBuffers buffers => ∀ b ∈ buffers, b.1 ≠ 0

theorem gather_slices {m : Nat → UInt8} {s : Slicing} (prepared : s.Prepared m) : gather m s.slices = s.value m := by
  cases s with
  | putParts handle parts =>
    obtain ⟨size, before, copied⟩ := prepared
    have whole := read_copyParts before handle.ptr 0 parts
    rw [Nat.zero_add, ← size, ← copied] at whole
    exact (gather_bufferSlices handle.ptr handle.size).trans whole
  | putFrom buffer size => exact gather_bufferSlices buffer size
  | putFromWithMetadata buffer metadataBuffer size metadataSize =>
    rw [slices, gather_append, gather_bufferSlices, gather_bufferSlices]
    rfl
  | multiBuffers buffers => exact flatMap_map ..

theorem slices_real {s : Slicing} (real : s.Real) : ∀ slice ∈ s.slices, slice.ptr ≠ 0 := by
  cases s with
  | putParts handle parts => exact bufferSlices_real _ real
  | putFrom buffer size => exact bufferSlices_real _ real
  | putFromWithMetadata buffer metadataBuffer size metadataSize =>
    intro slice member
    rcases mem_append.mp member with metadata | data
    · exact bufferSlices_real _ real.2 slice metadata
    · exact bufferSlices_real _ real.1 slice data
  | multiBuffers buffers =>
    intro slice member
    obtain ⟨b, listed, rfl⟩ := mem_map.mp member
    exact real b listed

end Slicing

end Mooncake.Client
