import Mooncake.Lib.Run
import Mooncake.Storage.Message

/-! What a restart finds: what `Init` makes of the metadata files, compared with the index of the
backend that wrote them. -/
namespace Mooncake.Storage

open Option Backend
open Master (ErrorCode)

section
variable {pb : StructPb}

structure Running (s : Backend × Directory) : Prop where
  initialized : s.1.initialized = true
  indexed : s.1.Indexed
  bucketsBelow : ∀ id, (s.1.buckets.lookup id).isSome → id ≤ s.1.currentId
  filesBelow : ∀ id, (s.2.metadata.lookup id).isSome → id ≤ s.1.currentId

def Consistent (pb : StructPb) (s : Backend × Directory) : Prop :=
  ∀ id, Option.Rel BucketMetadata.Same (s.1.buckets.lookup id) (kept pb s.2 id)

def Restarts (pb : StructPb) (s : Backend × Directory) : Prop :=
  ∀ time order, order.Perm s.2.metadata.keys →
    ∃ b' d', init pb time order Backend.new s.2 = .ok (b', d') ∧ s.1.Same b'

variable {call : Offload} {s s' : Backend × Directory} {b : Backend} {m : BucketMetadata} {d : Directory} {time : Nat}

theorem generatorStart_above {start : Int} : start ≤ generatorStart start time := by
  unfold generatorStart
  split
  next low => exact low.trans (Int.mul_nonneg (Int.natCast_nonneg time) (by decide))
  next => exact Int.le_refl _

theorem Backend.indexed_new : new.Indexed :=
  ⟨fun _ _ found => (nomatch found), fun _ _ _ found => (nomatch found), rfl⟩

theorem init_ok (pb : StructPb) (time : Nat) {order : List Int} (listed : order.Perm d.metadata.keys) :
    ∃ b d', init pb time order new d = .ok (b, d') ∧ Running (b, d') ∧
      (∀ id, b.buckets.lookup id = kept pb d id) ∧ ∀ id, kept pb d' id = kept pb d id := by
  have once : order.Nodup := listed.nodup_iff.mpr (AList.keys_nodup _)
  obtain ⟨s, loop, loaded⟩ := initLoop_ok pb (s := ⟨new, d, -1⟩) once (fun _ _ => rfl)
  have unlisted : ∀ id, id ∉ order → d.metadata.lookup id = none := fun id outside =>
    AList.lookup_eq_none.mpr (fun inside => outside (listed.mem_iff.mpr (AList.mem_keys.mp inside)))
  have buckets : ∀ id, s.backend.buckets.lookup id = kept pb d id := by
    intro id
    rw [loaded.buckets]
    split
    next => rfl
    next outside => rw [kept_none (unlisted id outside)]; rfl
  have files : ∀ id, kept pb s.directory id = kept pb d id := by
    intro id
    have file := loaded.files id
    split at file
    next dropped => rw [kept_none file, dropped.2]
    next => exact kept_congr file
  have below : ∀ id, (kept pb d id).isSome → id ≤ generatorStart s.maxBucketId time := by
    intro id some_bucket
    have listed : id ∈ order := by
      by_contra outside
      rw [kept_none (unlisted id outside)] at some_bucket
      cases some_bucket
    exact (loaded.above.2 id listed some_bucket).trans generatorStart_above
  refine ⟨{ s.backend with currentId := generatorStart s.maxBucketId time, initialized := true }, s.directory,
    ?_, ⟨rfl, ?_, fun id some_bucket => ?_, fun id some_file => ?_⟩, buckets, files⟩
  · have start : ({ new with totalSize := 0, objectBucketMap := ∅, buckets := ∅ } : Backend) = new := rfl
    rw [init, if_neg (by decide), start, loop]
  · obtain ⟨mapped, covers, total⟩ := loaded.indexed indexed_new
    exact ⟨mapped, covers, total⟩
  · exact below id (by rwa [← buckets id])
  · refine below id (isSome_iff_ne_none.mpr (fun none => ?_))
    have file := loaded.files id
    by_cases listed : id ∈ order
    · rw [if_pos ⟨listed, none⟩] at file
      rw [file] at some_file
      cases some_file
    · rw [if_neg (fun wrong => listed wrong.1)] at file
      rw [file, unlisted id listed] at some_file
      cases some_file

theorem init_first {id : Int} {rest : List Int} {d' : Directory} {key : Bytes} {object : BucketObjectMetadata}
    (once : (id :: rest).Nodup) (started : init pb time (id :: rest) new d = .ok (b, d'))
    (found : kept pb d id = some m) (inside : m.objectMetadata.lookup key = some object) :
    b.objectBucketMap.lookup key = some (storageObject id object) := by
  obtain ⟨unlisted, once⟩ := List.nodup_cons.mp once
  obtain ⟨mid, done, first, kept_first⟩ := initBucket_ok pb ⟨new, d, -1⟩ (AList.lookup_empty id)
  obtain ⟨s', loop, later⟩ := initLoop_ok pb (s := mid) once (fun j member => by
    have other : j ≠ id := fun same => unlisted (same ▸ member)
    rw [first.buckets, if_neg (fun wrong => other (List.mem_singleton.mp wrong))]
    rfl)
  have start : ({ new with totalSize := 0, objectBucketMap := ∅, buckets := ∅ } : Backend) = new := rfl
  have whole : (id :: rest).foldlM (initBucket pb) ⟨new, d, -1⟩ = .ok s' := by
    rw [List.foldlM_cons, done]
    exact loop
  rw [init, if_neg (by decide), start, whole] at started
  cases Except.ok.inj started
  refine later.stays key _ ?_
  rw [kept_first m found, lookup_register_object, inside]
  rfl

theorem restarts_iff (running : Running s) : Restarts pb s ↔ Consistent pb s ∧ s.1.Separate := by
  constructor
  · intro restarts
    have consistent : Consistent pb s := by
      intro id
      obtain ⟨b', d', started, same⟩ := restarts 0 _ (List.Perm.refl _)
      obtain ⟨b₂, d₂, started₂, -, buckets, -⟩ := init_ok pb 0 (List.Perm.refl s.2.metadata.keys)
      cases Except.ok.inj (started.symm.trans started₂)
      rw [← buckets id]
      exact same.buckets id
    refine ⟨consistent, fun id id' m m' key found found' inside inside' => ?_⟩
    -- whichever of the two buckets is found first gets the key
    have wins : ∀ j n, s.1.buckets.lookup j = some n → (n.objectMetadata.lookup key).isSome →
        ∃ o, s.1.objectBucketMap.lookup key = some o ∧ o.bucketId = j := by
      intro j n bucket has
      have related := consistent j
      rw [bucket] at related
      generalize kept_eq : kept pb s.2 j = y at related
      cases related with
      | some same =>
        rw [same.contents.objects] at has
        obtain ⟨object, has⟩ := isSome_iff_exists.mp has
        have listed : j ∈ s.2.metadata.keys := by
          by_contra outside
          rw [kept_none (AList.lookup_eq_none.mpr (fun inside => outside (AList.mem_keys.mp inside)))] at kept_eq
          cases kept_eq
        have perm := (List.perm_cons_erase listed).symm
        obtain ⟨b', d', started, same⟩ := restarts 0 _ perm
        have first := init_first (perm.nodup_iff.mpr (AList.keys_nodup _)) started kept_eq has
        exact ⟨_, (same.objectBucketMap key).trans first, rfl⟩
    obtain ⟨o, at_first, rfl⟩ := wins id m found inside
    obtain ⟨o', at_second, rfl⟩ := wins id' m' found' inside'
    rw [some.inj (at_first.symm.trans at_second)]
  · rintro ⟨consistent, separate⟩ time order listed
    obtain ⟨b', d', started, running', buckets, -⟩ := init_ok pb time listed
    exact ⟨b', d', started, running.indexed.same running'.indexed
      (fun id => by rw [buckets id]; exact consistent id) separate⟩

/-! ## The calls -/

def Offload.Complete (call : Offload) : Prop :=
  call.answers.opensData = true ∧ call.answers.opensMetadata = true ∧ call.answers.writesMetadata = true ∧
    ∃ n, call.answers.pwritev = some n ∧ batchSize call.batchObject ≤ n

def Offload.accepted (call : Offload) : Bool :=
  match buildBucket call.batchObject with
  | .error _ => false
  | .ok (bucket, _) => completes call.completeHandler bucket.objectMetadata == .ok

/-- The condition on a call: unless it stops before its writes, the handler agrees exactly if the batch
has bytes, and then no key of it has been offloaded before. -/
def Lasting (s : Backend × Directory) (call : Offload) : Prop :=
  Writes call.batchObject →
    (call.accepted = true ↔ 0 < batchSize call.batchObject) ∧
      (call.accepted = true → ∀ key ∈ call.batchObject, s.1.objectBucketMap.lookup key = none)

def offloadStep (pb : StructPb) (s : Backend × Directory) (call : Offload) : Option (Backend × Directory) :=
  some (batchOffload pb s.1 s.2 call).2

theorem offloadStep_refused (refused : ¬ Writes call.batchObject) (step : offloadStep pb s call = some s') :
    s' = s ∨ s' = (s.1.nextId, s.2) := by
  cases step
  unfold batchOffload
  split
  · exact .inl rfl
  split
  · exact .inl rfl
  next some_objects =>
    have empty : ∃ e ∈ call.batchObject.entries, e.2 = [] := by
      by_contra none
      refine refused ⟨by simpa using some_objects, fun e member empty => none ⟨e, member, empty⟩⟩
    obtain ⟨e, member, empty⟩ := empty
    have fails : buildBucket call.batchObject = .error .invalidKey := buildBucketLoop_error member empty _ _ _
    rw [fails]
    exact .inr rfl

theorem offloadStep_written (faithful : pb.Faithful) (initialized : s.1.initialized = true) (complete : call.Complete)
    (writes : Writes call.batchObject) (step : offloadStep pb s call = some s') :
    ∃ bucket iovs, Laid call.batchObject.entries bucket iovs ∧
      s'.2.metadata = s.2.metadata.insert s.1.nextId.currentId (pb.toPb bucket) ∧
      s'.1 = if call.accepted then
          s.1.nextId.register s.1.nextId.currentId { bucket with metaSize := (pb.toPb bucket).length }
        else s.1.nextId := by
  obtain ⟨opens, opens', writes', n, taken, -⟩ := complete
  obtain ⟨some_objects, some_slices⟩ := writes
  obtain ⟨bucket, iovs, built, laid⟩ := buildBucket_ok some_slices
  have some_keys : bucket.keys ≠ [] := by
    rw [laid.keys]
    simpa using some_objects
  have long : (pb.toPb bucket).length ≠ 0 := fun none =>
    faithful.toPb_ne_nil bucket some_keys (List.length_eq_zero_iff.mp none)
  refine ⟨bucket, iovs, laid, ?_⟩
  cases step
  have not_empty : call.batchObject.entries.isEmpty = false := by simpa using some_objects
  simp only [batchOffload, initialized, not_empty, built, writeBucket, storeBucketMetadata, opens, taken, opens', writes',
    long, Offload.accepted, Bool.not_true, Bool.false_eq_true, if_false, if_true]
  cases agreed : completes call.completeHandler bucket.objectMetadata <;> exact ⟨rfl, rfl⟩

theorem Running.new (running : Running s) :
    s.1.nextId.buckets.lookup s.1.nextId.currentId = none ∧ s.2.metadata.lookup s.1.nextId.currentId = none := by
  have above : ¬ s.1.nextId.currentId ≤ s.1.currentId := Int.not_le.mpr (Int.lt_succ _)
  exact ⟨not_isSome_iff_eq_none.mp (fun found => above (running.bucketsBelow _ found)),
    not_isSome_iff_eq_none.mp (fun found => above (running.filesBelow _ found))⟩

theorem Running.nextId (running : Running (b, d)) : Running (b.nextId, d) := by
  have above : b.currentId ≤ b.nextId.currentId := Int.le_of_lt (Int.lt_succ _)
  exact ⟨running.initialized, ⟨running.indexed.mapped, running.indexed.covers, running.indexed.total⟩,
    fun id found => (running.bucketsBelow id found).trans above, fun id found => (running.filesBelow id found).trans above⟩

theorem Running.written {bytes : Bytes} (running : Running s)
    (files : d.metadata = s.2.metadata.insert s.1.nextId.currentId bytes) :
    Running (s.1.nextId, d) ∧ ∀ m, Running (s.1.nextId.register s.1.nextId.currentId m, d) := by
  have moved := running.nextId
  have filesBelow : ∀ id, (d.metadata.lookup id).isSome → id ≤ s.1.nextId.currentId := by
    intro id found
    by_cases same : id = s.1.nextId.currentId
    · exact same.le
    · rw [files, AList.lookup_insert_ne same] at found
      exact moved.filesBelow id found
  refine ⟨⟨moved.initialized, moved.indexed, moved.bucketsBelow, filesBelow⟩, fun m =>
    ⟨moved.initialized, moved.indexed.register running.new.1, fun id found => ?_, filesBelow⟩⟩
  rw [lookup_register_bucket running.new.1] at found
  split at found
  next same => exact same.le
  next => exact moved.bucketsBelow id found

theorem Running.offloadStep (faithful : pb.Faithful) (running : Running s) (complete : call.Complete)
    (step : offloadStep pb s call = some s') : Running s' := by
  by_cases writes : Writes call.batchObject
  · obtain ⟨bucket, iovs, laid, files, backend⟩ := offloadStep_written faithful running.initialized complete writes step
    rw [← Prod.eta s', backend]
    split
    · exact (running.written files).2 _
    · exact (running.written files).1
  · rcases offloadStep_refused writes step with rfl | rfl
    · exact running
    · exact running.nextId

theorem Consistent.offloadStep_iff (faithful : pb.Faithful) (running : Running s) (complete : call.Complete)
    (writes : Writes call.batchObject) (step : offloadStep pb s call = some s') :
    Consistent pb s' ↔ Consistent pb s ∧ (call.accepted = true ↔ 0 < batchSize call.batchObject) := by
  obtain ⟨bucket, iovs, laid, files, backend⟩ := offloadStep_written faithful running.initialized complete writes step
  obtain ⟨newBucket, newFile⟩ := running.new
  have file : s'.2.metadata.lookup s.1.nextId.currentId = some (pb.toPb bucket) := by rw [files, AList.lookup_insert]
  have others : ∀ id, id ≠ s.1.nextId.currentId →
      s'.1.buckets.lookup id = s.1.buckets.lookup id ∧ kept pb s'.2 id = kept pb s.2 id := by
    intro id other
    refine ⟨?_, kept_congr (by rw [files, AList.lookup_insert_ne other])⟩
    rw [backend]
    split
    · rw [lookup_register_bucket newBucket, if_neg other]
      rfl
    · rfl
  have size : bucket.dataSize = batchSize call.batchObject := laid.dataSize.trans laid.total
  -- the new bucket is in memory if it was accepted, and on disk if it has bytes
  have here : Option.Rel BucketMetadata.Same (s'.1.buckets.lookup s.1.nextId.currentId)
    (kept pb s'.2 s.1.nextId.currentId) ↔
      (call.accepted = true ↔ 0 < batchSize call.batchObject) := by
    rw [← size, Nat.pos_iff_ne_zero, backend]
    cases call.accepted with
    | false =>
      rw [if_neg Bool.false_ne_true, newBucket]
      rcases kept_written faithful laid writes.1 file with ⟨empty, nothing⟩ | ⟨some_bytes, m, found, -⟩
      · simp [nothing, empty]
      · rw [found]
        exact ⟨fun related => (nomatch related), fun agrees => (nomatch agrees.mpr some_bytes)⟩
    | true =>
      rw [if_pos rfl, lookup_register_bucket newBucket, if_pos rfl]
      rcases kept_written faithful laid writes.1 file with ⟨empty, nothing⟩ | ⟨some_bytes, m, found, same⟩
      · rw [nothing]
        exact ⟨fun related => (nomatch related), fun agrees => absurd empty (agrees.mp rfl)⟩
      · rw [found]
        exact ⟨fun _ => ⟨fun _ => some_bytes, fun _ => rfl⟩, fun _ => .some same⟩
  rw [← here]
  constructor
  · refine fun consistent => ⟨fun id => ?_, consistent _⟩
    by_cases same : id = s.1.nextId.currentId
    · have before : s.1.buckets.lookup id = none := by rw [same]; exact newBucket
      rw [before, kept_none (by rw [same]; exact newFile)]
      exact .none
    · rw [← (others id same).1, ← (others id same).2]
      exact consistent id
  · rintro ⟨consistent, new⟩ id
    by_cases same : id = s.1.nextId.currentId
    · rw [same]
      exact new
    · rw [(others id same).1, (others id same).2]
      exact consistent id

/-- A new bucket is separate from the others if none of its keys is in the index. -/
theorem Backend.Separate.register_iff {id : Int} (indexed : b.Indexed) (new : b.buckets.lookup id = none) :
    (b.register id m).Separate ↔
      b.Separate ∧ ∀ key, (m.objectMetadata.lookup key).isSome → b.objectBucketMap.lookup key = none := by
  have older : ∀ {j n}, b.buckets.lookup j = some n → j ≠ id ∧ (b.register id m).buckets.lookup j = some n := by
    intro j n found
    have other : j ≠ id := by
      rintro rfl
      rw [new] at found
      cases found
    exact ⟨other, by rw [lookup_register_bucket new, if_neg other, found]⟩
  have here : (b.register id m).buckets.lookup id = some m := by rw [lookup_register_bucket new, if_pos rfl]
  constructor
  · intro separate
    refine ⟨fun j j' n n' key found found' => separate j j' n n' key (older found).2 (older found').2, fun key inside => ?_⟩
    cases found : b.objectBucketMap.lookup key with
    | none => rfl
    | some o =>
      obtain ⟨n, object, bucket, has, -⟩ := indexed.mapped key o found
      have same := separate _ _ n m key (older bucket).2 here (by rw [has]; rfl) inside
      exact absurd same (older bucket).1
  · rintro ⟨separate, unknown⟩ j j' n n' key found found' inside inside'
    have apart : ∀ {j n}, b.buckets.lookup j = some n → (n.objectMetadata.lookup key).isSome →
        (m.objectMetadata.lookup key).isSome → False := by
      intro j n found inside inside'
      have covered := indexed.covers j n key found inside
      rw [unknown key inside'] at covered
      cases covered
    rw [lookup_register_bucket new] at found found'
    split at found
    next same =>
      cases found
      split at found'
      next same' => rw [same, same']
      next => exact (apart found' inside' inside).elim
    next =>
      split at found'
      next => cases found'; exact (apart found inside inside').elim
      next => exact separate j j' n n' key found found' inside inside'

theorem restarts_offloadStep_iff (faithful : pb.Faithful) (running : Running s) (complete : call.Complete)
    (step : offloadStep pb s call = some s') : Restarts pb s' ↔ Restarts pb s ∧ Lasting s call := by
  rw [restarts_iff (running.offloadStep faithful complete step), restarts_iff running]
  by_cases writes : Writes call.batchObject
  · have consistent := Consistent.offloadStep_iff faithful running complete writes step
    obtain ⟨bucket, iovs, laid, files, backend⟩ := offloadStep_written faithful running.initialized complete writes step
    have separate : s'.1.Separate ↔ s.1.Separate ∧
        (call.accepted = true → ∀ key ∈ call.batchObject, s.1.objectBucketMap.lookup key = none) := by
      rw [backend]
      cases call.accepted with
      | false =>
        rw [if_neg Bool.false_ne_true]
        exact ⟨fun separate => ⟨separate, fun wrong => nomatch wrong⟩, fun both => both.1⟩
      | true =>
        rw [if_pos rfl, Separate.register_iff running.nextId.indexed running.new.1]
        simp only [laid.isSome_iff, true_implies]
        rfl
    rw [consistent, separate]
    have lasting : Lasting s call ↔ _ ∧ _ := ⟨fun h => h writes, fun h _ => h⟩
    rw [lasting]
    exact and_and_and_comm
  · have unchanged : ∀ id, s'.1.buckets.lookup id = s.1.buckets.lookup id ∧ kept pb s'.2 id = kept pb s.2 id := by
      intro id
      rcases offloadStep_refused writes step with rfl | rfl
      · exact ⟨rfl, rfl⟩
      · exact ⟨rfl, rfl⟩
    have lasting : Lasting s call := fun wrong => absurd wrong writes
    simp only [Consistent, Separate, unchanged, lasting, and_true]

/-- For every sequence of offloads whose writes are complete, whatever was in the directory at the start:
a restart finds the same index, for every order of the files, exactly if no key was in two buckets at
the start and every call meets the condition in the state in which it is made. -/
theorem restarts_iff_lasting (faithful : pb.Faithful) {time : Nat} {order : List Int} {d d' : Directory}
    {b : Backend} (listed : order.Perm d.metadata.keys)
    (started : init pb time order Backend.new d = .ok (b, d')) {calls : List Offload}
    (complete : ∀ call ∈ calls, call.Complete) {s : Backend × Directory}
    (run : Run.run (offloadStep pb) (b, d') calls = some s) :
    Restarts pb s ↔ b.Separate ∧ Run.Guarded (offloadStep pb) Lasting (b, d') calls := by
  obtain ⟨b₂, d₂, started₂, running, buckets, files⟩ := init_ok pb time listed
  cases Except.ok.inj (started.symm.trans started₂)
  have consistent : Consistent pb (b, d') := by
    intro id
    simp only [buckets, files]
    cases kept pb d id with
    | none => exact .none
    | some m => exact .some ⟨⟨rfl, rfl, fun _ => rfl⟩, rfl⟩
  have start : Restarts pb (b, d') ↔ b.Separate := (restarts_iff running).trans (and_iff_right consistent)
  rw [← start]
  exact Run.holds_iff_guarded (P := Running) (fun _ _ _ running complete step => running.offloadStep faithful complete step)
    (fun _ _ _ running complete step => restarts_offloadStep_iff faithful running complete step) running complete run

/-- Whatever was in the directory at the start, the index is exact, and the next bucket has an id of its own:
neither a bucket nor a file is replaced. -/
theorem index_exact_after_offloads (faithful : pb.Faithful) {time : Nat} {order : List Int} {d d' : Directory}
    {b : Backend} (listed : order.Perm d.metadata.keys)
    (started : init pb time order Backend.new d = .ok (b, d')) {calls : List Offload}
    (complete : ∀ call ∈ calls, call.Complete) {s : Backend × Directory}
    (run : Run.run (offloadStep pb) (b, d') calls = some s) :
    s.1.Indexed ∧ s.1.nextId.buckets.lookup s.1.nextId.currentId = none ∧
      s.2.metadata.lookup s.1.nextId.currentId = none := by
  obtain ⟨b₂, d₂, started₂, running, -⟩ := init_ok pb time listed
  cases Except.ok.inj (started.symm.trans started₂)
  have after : Running s := Run.guarded_invariant
    (fun _ _ _ running complete step => running.offloadStep faithful complete step)
    running run (Run.guarded_of_forall _ complete)
  exact ⟨after.indexed, after.new⟩

end

namespace Sample

def fine : WriteAnswers := ⟨true, some 100, true, true⟩

def offloadSeven (value : Bytes) : Offload := ⟨(∅ : Table Bytes (List Bytes)).insert [7] [value], none, fine⟩

def empty : Directory := ⟨∅, ∅⟩

def started : Backend := { Backend.new with initialized := true }

theorem listed_empty : ([] : List Int).Perm empty.metadata.keys := .nil

theorem init_empty : init Message.format 0 [] new empty = .ok (started, empty) := rfl

theorem complete_seven {value : Bytes} (short : value.length ≤ 99) : (offloadSeven value).Complete := by
  refine ⟨rfl, rfl, rfl, 100, rfl, ?_⟩
  have size : batchSize (offloadSeven value).batchObject = 1 + (value ++ []).length := rfl
  rw [size, List.append_nil]
  omega

def after (calls : List Offload) : Backend × Directory :=
  calls.foldl (fun s call => (batchOffload Message.format s.1 s.2 call).2) (started, empty)

end Sample

open Sample in
theorem one_offload_restarts : Restarts Message.format (after [offloadSeven [1]]) :=
  (restarts_iff_lasting Message.faithful_format listed_empty init_empty
    (fun call member => List.mem_singleton.mp member ▸ complete_seven (by decide)) rfl).mpr
    ⟨fun _ _ _ _ _ found => (nomatch found), fun _ => ⟨by decide, fun _ _ _ => rfl⟩, fun _ _ => trivial⟩

open Sample in
theorem one_offload_indexed : (after [offloadSeven [1]]).1.Indexed :=
  (index_exact_after_offloads Message.faithful_format listed_empty init_empty
    (fun call member => List.mem_singleton.mp member ▸ complete_seven (by decide)) rfl).1

open Sample in
/-- A key that is offloaded twice. The backend goes on with the first bucket, of one byte; started again
on the same directory, it has the second, of two bytes, if that file comes first. -/
theorem second_bucket_after_restart :
    (after [offloadSeven [1], offloadSeven [2, 3]]).1.objectBucketMap.lookup [7] = some ⟨1, 0, 1, 1⟩ ∧
      [2, 1].Perm (after [offloadSeven [1], offloadSeven [2, 3]]).2.metadata.keys ∧
      (init Message.format 0 [2, 1] Backend.new (after [offloadSeven [1], offloadSeven [2, 3]]).2).toOption.map
        (fun s => s.1.objectBucketMap.lookup [7]) = some (some ⟨2, 0, 1, 2⟩) := by
  decide +kernel

end Mooncake.Storage
