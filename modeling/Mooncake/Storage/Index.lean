import Mooncake.Storage.Layout

/-! The index of a backend and the metadata files that it is built from. It is determined by the
buckets as long as no key is in two of them. -/
namespace Mooncake.Storage

open Option List
open Master (ErrorCode)

/-- The same values: the order in which a map is gone through is not part of them. -/
structure BucketContents.Same (c c' : BucketContents) : Prop where
  dataSize : c.dataSize = c'.dataSize
  keys : c.keys = c'.keys
  objects : ∀ key, c.objectMetadata.lookup key = c'.objectMetadata.lookup key

structure BucketMetadata.Same (m m' : BucketMetadata) : Prop where
  contents : m.toBucketContents.Same m'.toBucketContents
  metaSize : m.metaSize = m'.metaSize

structure Backend.Same (b b' : Backend) : Prop where
  objectBucketMap : ∀ key, b.objectBucketMap.lookup key = b'.objectBucketMap.lookup key
  buckets : ∀ id, Option.Rel BucketMetadata.Same (b.buckets.lookup id) (b'.buckets.lookup id)
  totalSize : b.totalSize = b'.totalSize

/-- What the library promises: what has been written is read back, and a message with keys has bytes. -/
structure StructPb.Faithful (pb : StructPb) : Prop where
  fromPb_toPb : ∀ c, ∃ c', pb.fromPb (pb.toPb c) = some c' ∧ c'.Same c
  toPb_ne_nil : ∀ c, c.keys ≠ [] → pb.toPb c ≠ []

/-! ## The index and its buckets -/

def bucketSize (_ : Int) (m : BucketMetadata) : Nat := m.dataSize + m.metaSize

/-- The map of the objects says of every key of a bucket where it is, in one of the buckets that have it. -/
structure Backend.Indexed (b : Backend) : Prop where
  mapped : ∀ key o, b.objectBucketMap.lookup key = some o →
    ∃ m object, b.buckets.lookup o.bucketId = some m ∧ m.objectMetadata.lookup key = some object ∧
      o = storageObject o.bucketId object
  covers : ∀ id m key, b.buckets.lookup id = some m → (m.objectMetadata.lookup key).isSome →
    (b.objectBucketMap.lookup key).isSome
  total : b.totalSize = Table.total bucketSize b.buckets

def Backend.Separate (b : Backend) : Prop :=
  ∀ id id' m m' key, b.buckets.lookup id = some m → b.buckets.lookup id' = some m' →
    (m.objectMetadata.lookup key).isSome → (m'.objectMetadata.lookup key).isSome → id = id'

section
variable {b b' : Backend} {id : Int} {m : BucketMetadata}

theorem lookup_register_object (key : Bytes) : (b.register id m).objectBucketMap.lookup key =
    (b.objectBucketMap.lookup key).or ((m.objectMetadata.lookup key).map (storageObject id)) :=
  Table.lookup_foldl_emplace_entries _ _ _ _

theorem buckets_register (new : b.buckets.lookup id = none) : (b.register id m).buckets = b.buckets.insert id m := by
  show b.buckets.emplace id m = _
  rw [Table.emplace, new]
  rfl

theorem lookup_register_bucket (new : b.buckets.lookup id = none) (id' : Int) :
    (b.register id m).buckets.lookup id' = if id' = id then some m else b.buckets.lookup id' := by
  rw [buckets_register new]
  split
  next same => rw [same, AList.lookup_insert]
  next other => rw [AList.lookup_insert_ne other]

theorem Backend.Indexed.register (h : b.Indexed) (new : b.buckets.lookup id = none) : (b.register id m).Indexed where
  mapped key o found := by
    rw [lookup_register_object, or_eq_some_iff] at found
    rcases found with before | ⟨-, here⟩
    · obtain ⟨m', object, bucket, inside, same⟩ := h.mapped key o before
      refine ⟨m', object, ?_, inside, same⟩
      rw [lookup_register_bucket new, if_neg (fun same => by rw [same, new] at bucket; cases bucket), bucket]
    · obtain ⟨object, inside, rfl⟩ := map_eq_some_iff.mp here
      exact ⟨m, object, by rw [lookup_register_bucket new]; exact if_pos rfl, inside, rfl⟩
  covers id' m' key bucket inside := by
    rw [lookup_register_object, isSome_or, isSome_map, Bool.or_eq_true]
    rw [lookup_register_bucket new] at bucket
    split at bucket
    · cases bucket
      exact .inr inside
    · exact .inl (h.covers id' m' key bucket inside)
  total := by
    rw [buckets_register new, Table.total_insert_new bucketSize new, ← h.total, Nat.add_comm]
    rfl

theorem Backend.Indexed.same (h : b.Indexed) (h' : b'.Indexed)
    (buckets : ∀ id, Option.Rel BucketMetadata.Same (b.buckets.lookup id) (b'.buckets.lookup id))
    (separate : b.Separate) : b.Same b' := by
  -- the bucket of an id on one side, and on the other
  have left : ∀ {id m'}, b'.buckets.lookup id = some m' → ∃ m, b.buckets.lookup id = some m ∧ m.Same m' := by
    intro id m' found
    have related := buckets id
    generalize b.buckets.lookup id = x at related
    rw [found] at related
    cases related with
    | some same => exact ⟨_, rfl, same⟩
  have right : ∀ {id m}, b.buckets.lookup id = some m → ∃ m', b'.buckets.lookup id = some m' ∧ m.Same m' := by
    intro id m found
    have related := buckets id
    generalize b'.buckets.lookup id = y at related
    rw [found] at related
    cases related with
    | some same => exact ⟨_, rfl, same⟩
  refine ⟨fun key => ?_, buckets, ?_⟩
  · cases found : b.objectBucketMap.lookup key with
    | none =>
      cases found' : b'.objectBucketMap.lookup key with
      | none => rfl
      | some o =>
        obtain ⟨m', object, bucket, inside, -⟩ := h'.mapped key o found'
        obtain ⟨m, bucket', same⟩ := left bucket
        have covered := h.covers _ m key bucket' (by rw [same.contents.objects, inside]; rfl)
        rw [found] at covered
        cases covered
    | some o =>
      obtain ⟨m, object, bucket, inside, shape⟩ := h.mapped key o found
      obtain ⟨m', bucket', same⟩ := right bucket
      have inside' := (same.contents.objects key).symm.trans inside
      have covered := h'.covers _ m' key bucket' (by rw [inside']; rfl)
      obtain ⟨o', found'⟩ := isSome_iff_exists.mp covered
      obtain ⟨n', object', there', inside₂', shape'⟩ := h'.mapped key o' found'
      obtain ⟨n, there, same'⟩ := left there'
      have inside₂ := (same'.contents.objects key).trans inside₂'
      have ids := separate _ _ m n key bucket there (by rw [inside]; rfl) (by rw [inside₂]; rfl)
      rw [← ids] at there shape'
      cases bucket.symm.trans there
      cases inside.symm.trans inside₂
      rw [found', shape, shape']
  · rw [h.total, h'.total]
    refine Table.total_congr (fun id => ?_)
    have related := buckets id
    generalize b.buckets.lookup id = x at related
    generalize b'.buckets.lookup id = y at related
    cases related with
    | none => rfl
    | some same => exact congrArg some (congrArg₂ (· + ·) same.contents.dataSize same.metaSize)

end

/-! ## The metadata files -/

section
variable {pb : StructPb}

def kept (pb : StructPb) (d : Directory) (id : Int) : Option BucketMetadata :=
  match loadBucketMetadata pb d id with
  | .error _ => none
  | .ok bucket => if bucket.valid then some bucket else none

variable {id : Int}

theorem kept_congr {d d' : Directory} (same : d.metadata.lookup id = d'.metadata.lookup id) :
    kept pb d id = kept pb d' id := by
  simp only [kept, loadBucketMetadata, same]

theorem kept_none {d : Directory} (missing : d.metadata.lookup id = none) : kept pb d id = none := by
  simp only [kept, loadBucketMetadata, missing]

theorem kept_written (faithful : pb.Faithful) {d : Directory} {bucket : BucketContents}
    {batch : Table Bytes (List Bytes)} {iovs : List Bytes} (laid : Laid batch.entries bucket iovs)
    (some_objects : batch.entries ≠ []) (written : d.metadata.lookup id = some (pb.toPb bucket)) :
    (bucket.dataSize = 0 ∧ kept pb d id = none) ∨
      (bucket.dataSize ≠ 0 ∧
        ∃ m, kept pb d id = some m ∧ BucketMetadata.Same { bucket with metaSize := (pb.toPb bucket).length } m) := by
  have some_keys : bucket.keys ≠ [] := by
    rw [laid.keys]
    simpa using some_objects
  have some_bytes := faithful.toPb_ne_nil bucket some_keys
  have long : (pb.toPb bucket).length ≠ 0 := fun none => some_bytes (length_eq_zero_iff.mp none)
  obtain ⟨c, read, same⟩ := faithful.fromPb_toPb bucket
  have loaded : loadBucketMetadata pb d id = .ok { c with metaSize := (pb.toPb bucket).length } := by
    simp only [loadBucketMetadata, written, if_neg long, read]
  have some_entries : c.objectMetadata.entries ≠ [] := by
    obtain ⟨e, es, shape⟩ := exists_cons_of_ne_nil some_objects
    have stored := laid.stored e (by rw [shape]; exact mem_cons_self)
    rw [← same.objects] at stored
    intro none
    rw [AList.lookup, none] at stored
    cases stored
  have checks : BucketMetadata.valid { c with metaSize := (pb.toPb bucket).length } = !(bucket.dataSize == 0) := by
    rw [BucketMetadata.valid]
    simp only [same.dataSize, same.keys, beq_eq_false_iff_ne.mpr long, Bool.or_false,
      Bool.eq_false_iff.mpr (mt List.isEmpty_iff.mp some_entries), Bool.eq_false_iff.mpr (mt List.isEmpty_iff.mp some_keys)]
  by_cases empty : bucket.dataSize = 0
  · refine .inl ⟨empty, ?_⟩
    simp only [kept, loaded, checks, empty]
    rfl
  · refine .inr ⟨empty, { c with metaSize := (pb.toPb bucket).length }, ?_, ?_⟩
    · simp only [kept, loaded, checks]
      rw [if_pos (by simpa using empty)]
    · exact ⟨⟨same.dataSize.symm, same.keys.symm, fun key => (same.objects key).symm⟩, rfl⟩

structure Loaded (pb : StructPb) (order : List Int) (s s' : Loading) : Prop where
  buckets : ∀ id, s'.backend.buckets.lookup id = if id ∈ order then kept pb s.directory id else s.backend.buckets.lookup id
  indexed : s.backend.Indexed → s'.backend.Indexed
  stays : ∀ key o, s.backend.objectBucketMap.lookup key = some o → s'.backend.objectBucketMap.lookup key = some o
  files : ∀ id, s'.directory.metadata.lookup id =
    if id ∈ order ∧ kept pb s.directory id = none then none else s.directory.metadata.lookup id
  above : s.maxBucketId ≤ s'.maxBucketId ∧ ∀ id ∈ order, (kept pb s.directory id).isSome → id ≤ s'.maxBucketId

theorem initBucket_eq (pb : StructPb) (s : Loading) (new : s.backend.buckets.lookup id = none) :
    initBucket pb s id = .ok (match kept pb s.directory id with
      | none => { s with directory := s.directory.remove id }
      | some m => { s with backend := s.backend.register id m, maxBucketId := max s.maxBucketId id }) := by
  unfold initBucket kept
  rw [new, isSome_none, if_neg Bool.false_ne_true]
  cases loadBucketMetadata pb s.directory id with
  | error _ => rfl
  | ok bucket => cases valid : bucket.valid <;> simp [valid]

theorem initBucket_ok (pb : StructPb) (s : Loading) (new : s.backend.buckets.lookup id = none) :
    ∃ s', initBucket pb s id = .ok s' ∧ Loaded pb [id] s s' ∧
      ∀ m, kept pb s.directory id = some m →
        s' = { s with backend := s.backend.register id m, maxBucketId := max s.maxBucketId id } := by
  rw [initBucket_eq pb s new]
  cases found : kept pb s.directory id with
  | none =>
    refine ⟨{ s with directory := s.directory.remove id }, rfl,
      ⟨fun j => ?_, fun h => h, fun _ _ found => found, fun j => ?_, Int.le_refl _,
      fun j member some_bucket => ?_⟩, fun _ wrong => nomatch wrong⟩
    · split
      next same => rw [mem_singleton.mp same, found, new]
      next => rfl
    · simp only [Directory.remove]
      by_cases same : j = id
      · subst same
        simp [found]
      · simp [same]
    · rw [mem_singleton.mp member, found] at some_bucket
      cases some_bucket
  | some bucket =>
    refine ⟨{ s with backend := s.backend.register id bucket, maxBucketId := max s.maxBucketId id }, rfl,
      ⟨fun j => ?_, fun h => h.register new, fun key o known => ?_, fun j => ?_, le_max_left _ _,
      fun j member _ => ?_⟩, fun m same => by cases same; rfl⟩
    · rw [lookup_register_bucket new]
      simp only [mem_singleton]
      split
      next same => rw [same, found]
      next => rfl
    · rw [lookup_register_object, known]
      rfl
    · split
      next wrong => rw [mem_singleton.mp wrong.1, found] at wrong; cases wrong.2
      next => rfl
    · rw [mem_singleton.mp member]
      exact le_max_right _ _

theorem Loaded.cons {s mid s' : Loading} {order : List Int} (first : Loaded pb [id] s mid)
    (rest : Loaded pb order mid s') (once : id ∉ order) : Loaded pb (id :: order) s s' := by
  have others : ∀ j ∈ order, kept pb mid.directory j = kept pb s.directory j := by
    intro j member
    have other : j ≠ id := fun same => once (same ▸ member)
    refine kept_congr ?_
    rw [first.files, if_neg (fun wrong => other (mem_singleton.mp wrong.1))]
  refine ⟨fun j => ?_, fun h => rest.indexed (first.indexed h),
    fun key o found => rest.stays key o (first.stays key o found),
    fun j => ?_, first.above.1.trans rest.above.1, fun j member some_bucket => ?_⟩
  · rw [rest.buckets, first.buckets]
    by_cases later : j ∈ order
    · simp [later, others j later]
    · simp [later]
  · rw [rest.files, first.files]
    by_cases later : j ∈ order
    · have other : j ≠ id := fun same => once (same ▸ later)
      simp [later, others j later, other]
    · simp [later]
  · rcases mem_cons.mp member with rfl | later
    · exact (first.above.2 j mem_cons_self some_bucket).trans rest.above.1
    · exact rest.above.2 j later (by rwa [others j later])

theorem initLoop_ok (pb : StructPb) {order : List Int} {s : Loading} (once : order.Nodup)
    (new : ∀ id ∈ order, s.backend.buckets.lookup id = none) :
    ∃ s', order.foldlM (initBucket pb) s = .ok s' ∧ Loaded pb order s s' := by
  induction order generalizing s with
  | nil =>
    exact ⟨s, rfl, fun j => by simp, fun h => h, fun _ _ found => found, fun j => by simp, Int.le_refl _,
      fun _ none => nomatch none⟩
  | cons id order ih =>
    obtain ⟨unlisted, once⟩ := nodup_cons.mp once
    obtain ⟨mid, done, first, -⟩ := initBucket_ok pb s (new id mem_cons_self)
    obtain ⟨s', loop, rest⟩ := ih once (s := mid) (fun j member => by
      have other : j ≠ id := fun same => unlisted (same ▸ member)
      rw [first.buckets, if_neg (fun wrong => other (mem_singleton.mp wrong)), new j (mem_cons_of_mem _ member)])
    refine ⟨s', ?_, first.cons rest unlisted⟩
    rw [foldlM_cons, done]
    exact loop

end

end Mooncake.Storage
