import Mooncake.Storage.Bucket

/-! What `BuildBucket` lays out: the bucket says of each key where its bytes stand in the vectors. -/
namespace Mooncake.Storage

open List
open Master (ErrorCode)

def Writes (batch : Table Bytes (List Bytes)) : Prop := batch.entries ≠ [] ∧ ∀ e ∈ batch.entries, e.2 ≠ []

instance (batch : Table Bytes (List Bytes)) : Decidable (Writes batch) := inferInstanceAs (Decidable (_ ∧ _))

def objectSize (e : Sigma fun _ : Bytes => List Bytes) : Nat := e.1.length + e.2.flatten.length

def batchSize (batch : Table Bytes (List Bytes)) : Nat := (batch.entries.map objectSize).sum

structure Laid (done : List (Sigma fun _ : Bytes => List Bytes)) (bucket : BucketContents) (iovs : List Bytes) :
    Prop where
  dataSize : bucket.dataSize = iovs.flatten.length
  total : iovs.flatten.length = (done.map objectSize).sum
  keys : bucket.keys = done.map (·.1)
  stored : ∀ e ∈ done, (bucket.objectMetadata.lookup e.1).isSome
  placed : ∀ key o, bucket.objectMetadata.lookup key = some o →
    ∃ slices, ⟨key, slices⟩ ∈ done ∧ o.dataSize = slices.flatten.length ∧
      o.offset + key.length + o.dataSize ≤ iovs.flatten.length ∧
      (iovs.flatten.drop (o.offset + key.length)).take o.dataSize = slices.flatten

variable {bucket : BucketContents} {iovs : List Bytes}

theorem Laid.push {done : List (Sigma fun _ : Bytes => List Bytes)}
    (h : Laid done bucket iovs) (key : Bytes) (slices : List Bytes) :
    Laid (done ++ [⟨key, slices⟩])
      { dataSize := bucket.dataSize + (slices.flatten.length + key.length)
        objectMetadata := bucket.objectMetadata.emplace key ⟨iovs.flatten.length, key.length, slices.flatten.length⟩
        keys := bucket.keys ++ [key] }
      (iovs ++ key :: slices) where
  dataSize := by simp [h.dataSize, Nat.add_comm]
  total := by simp [h.total, objectSize]
  keys := by simp [h.keys]
  stored e member := by
    rw [Option.isSome_iff_exists]
    simp only [Table.lookup_emplace_eq_some]
    cases found : bucket.objectMetadata.lookup e.1 with
    | some o => exact ⟨o, .inl rfl⟩
    | none =>
      rcases mem_append.mp member with before | here
      · exact absurd (h.stored e before) (by simp [found])
      · cases mem_singleton.mp here
        exact ⟨_, .inr ⟨rfl, rfl, rfl⟩⟩
  placed k o found := by
    have longer : (iovs ++ key :: slices).flatten = iovs.flatten ++ (key ++ slices.flatten) := by simp
    rw [longer]
    rcases Table.lookup_emplace_eq_some.mp found with before | ⟨-, rfl, rfl⟩
    · obtain ⟨those, member, size, ends, bytes⟩ := h.placed k o before
      refine ⟨those, mem_append_left _ member, size, ?_, ?_⟩
      · rw [length_append]
        omega
      · rw [drop_append_of_le_length (by omega), take_append_of_le_length (by rw [length_drop]; omega), bytes]
    · refine ⟨slices, by simp, rfl, by simp [Nat.add_assoc], ?_⟩
      rw [← append_assoc, ← length_append, drop_left, take_length]

theorem buildBucketLoop_ok {rest done : List (Sigma fun _ : Bytes => List Bytes)}
    (h : Laid done bucket iovs) (some_slices : ∀ e ∈ rest, e.2 ≠ []) :
    ∃ bucket' iovs', buildBucketLoop rest bucket iovs iovs.flatten.length = .ok (bucket', iovs') ∧
      Laid (done ++ rest) bucket' iovs' := by
  induction rest generalizing done bucket iovs with
  | nil => exact ⟨bucket, iovs, rfl, by rwa [append_nil]⟩
  | cons e rest ih =>
    obtain ⟨key, slices⟩ := e
    have here : slices ≠ [] := some_slices _ mem_cons_self
    obtain ⟨bucket', iovs', built, laid⟩ :=
      ih (h.push key slices) (fun e member => some_slices e (mem_cons_of_mem _ member))
    refine ⟨bucket', iovs', ?_, by simpa using laid⟩
    rw [buildBucketLoop, if_neg (by simpa using here), ← built, ← length_flatten]
    simp [Nat.add_comm]

theorem buildBucketLoop_error {rest : List (Sigma fun _ : Bytes => List Bytes)}
    {e : Sigma fun _ : Bytes => List Bytes} (member : e ∈ rest) (empty : e.2 = []) (bucket : BucketContents)
    (iovs : List Bytes) (offset : Nat) : buildBucketLoop rest bucket iovs offset = .error .invalidKey := by
  induction rest generalizing bucket iovs offset with
  | nil => cases member
  | cons f rest ih =>
    obtain ⟨key, slices⟩ := f
    rw [buildBucketLoop]
    split
    · rfl
    next some_slices =>
      rcases mem_cons.mp member with rfl | later
      · exact absurd empty (by simpa using some_slices)
      · exact ih later _ _ _

variable {batch : Table Bytes (List Bytes)}

theorem buildBucket_ok (some_slices : ∀ e ∈ batch.entries, e.2 ≠ []) :
    ∃ bucket iovs, buildBucket batch = .ok (bucket, iovs) ∧ Laid batch.entries bucket iovs :=
  have start : Laid [] ⟨0, ∅, []⟩ [] :=
    { dataSize := rfl, total := rfl, keys := rfl
      stored := fun _ none => nomatch none
      placed := fun _ _ found => nomatch found }
  buildBucketLoop_ok start some_slices

theorem buildBucket_eq_ok (built : buildBucket batch = .ok (bucket, iovs)) :
    (∀ e ∈ batch.entries, e.2 ≠ []) ∧ Laid batch.entries bucket iovs := by
  have some_slices : ∀ e ∈ batch.entries, e.2 ≠ [] := by
    intro e member empty
    have fails := buildBucketLoop_error member empty ⟨0, ∅, []⟩ [] 0
    exact nomatch built.symm.trans fails
  obtain ⟨bucket', iovs', built', laid⟩ := buildBucket_ok some_slices
  cases Except.ok.inj (built.symm.trans built')
  exact ⟨some_slices, laid⟩

section
variable {batch : Table Bytes (List Bytes)} {bucket : BucketContents} {iovs : List Bytes}
  (laid : Laid batch.entries bucket iovs)
include laid

theorem Laid.isSome_iff (key : Bytes) : (bucket.objectMetadata.lookup key).isSome ↔ key ∈ batch := by
  constructor
  · intro found
    obtain ⟨o, same⟩ := Option.isSome_iff_exists.mp found
    obtain ⟨slices, member, -⟩ := laid.placed key o same
    exact AList.lookup_isSome.mp (Option.isSome_iff_exists.mpr ⟨slices, AList.mem_lookup_iff.mpr member⟩)
  · intro inside
    obtain ⟨slices, found⟩ := Option.isSome_iff_exists.mp (AList.lookup_isSome.mpr inside)
    exact laid.stored ⟨key, slices⟩ (AList.mem_lookup_iff.mp found)

theorem Laid.bytes {key : Bytes} {slices : List Bytes} (inside : batch.lookup key = some slices) :
    ∃ o, bucket.objectMetadata.lookup key = some o ∧ o.dataSize = slices.flatten.length ∧
      o.offset + key.length + o.dataSize ≤ iovs.flatten.length ∧
      (iovs.flatten.drop (o.offset + key.length)).take o.dataSize = slices.flatten := by
  obtain ⟨o, found⟩ := Option.isSome_iff_exists.mp (laid.stored ⟨key, slices⟩ (AList.mem_lookup_iff.mp inside))
  obtain ⟨those, member, rest⟩ := laid.placed key o found
  have same := inside.symm.trans (AList.mem_lookup_iff.mpr member)
  cases same
  exact ⟨o, found, rest⟩

end

end Mooncake.Storage
