import Mooncake.Storage.Restart

/-! Loading what has been offloaded. A data file may have been cut off by a short write, and a read may
be short: a load that succeeds has nevertheless read what was offloaded. That the file is whole is not
what a successful offload says. -/
namespace Mooncake.Storage

open List AList
open Master (ErrorCode)

section
variable {pb : StructPb}

def offloadOk (pb : StructPb) (s : Backend × Directory) (call : Offload) : Option (Backend × Directory) :=
  match batchOffload pb s.1 s.2 call with
  | (.ok _, s') => some s'
  | (.error _, _) => none

def Offload.Written (call : Offload) (s : Backend × Directory) : Prop :=
  ∃ bucket iovs, buildBucket call.batchObject = .ok (bucket, iovs) ∧ s.2.data.lookup s.1.currentId = some iovs.flatten

def Offload.Whole (call : Offload) : Prop := ∀ n, call.answers.pwritev = some n → batchSize call.batchObject ≤ n

def ReadAnswers.Serves (answers : ReadAnswers) (b : Backend) (keys : List Bytes) : Prop :=
  ∀ bucketKeyMap, bucketKeyMapLoop b keys ∅ = .ok bucketKeyMap → answers.order.Perm bucketKeyMap.keys

def LoadsValue (s : Backend × Directory) (key value : Bytes) : Prop :=
  ∀ answers batchObject filled, answers.Serves s.1 (batchObject.entries.map (·.1)) →
    batchLoad s.1 s.2 answers batchObject = (.ok (), filled) → key ∈ batchObject → filled.lookup key = some value

/-! ## Where a value is -/

/-- The object lies in the bytes that its bucket was built from; the data file has the first of them. -/
structure StoredAt (s : Backend × Directory) (id : Int) (key value : Bytes) : Prop where
  indexed : ∃ o, s.1.objectBucketMap.lookup key = some o ∧ o.bucketId = id
  placed : ∃ m object, ∃ (full : Bytes) (n : Nat), s.1.buckets.lookup id = some m ∧
    m.objectMetadata.lookup key = some object ∧
    s.2.data.lookup id = some (full.take n) ∧ (full.drop (object.offset + key.length)).take object.dataSize = value

variable {call : Offload} {s s' : Backend × Directory} {id : Int} {answers : ReadAnswers} {keys : List Bytes}
    {bucketKeyMap : Table Int (List Bytes)}

theorem offloadOk_eq (step : offloadOk pb s call = some s') :
    ∃ bucket iovs n, buildBucket call.batchObject = .ok (bucket, iovs) ∧ call.answers.pwritev = some n ∧
      s' = (s.1.nextId.register s.1.nextId.currentId { bucket with metaSize := (pb.toPb bucket).length },
        { data := s.2.data.insert s.1.nextId.currentId (iovs.flatten.take n)
          metadata := s.2.metadata.insert s.1.nextId.currentId (pb.toPb bucket) }) := by
  unfold offloadOk batchOffload at step
  split at step
  next id s₂ done =>
    cases step
    split at done
    · cases done
    split at done
    · cases done
    simp only at done
    split at done
    · cases done
    next bucket iovs built =>
      split at done
      · cases done
      next metadata d written =>
        split at done
        next =>
          cases done
          unfold writeBucket storeBucketMetadata at written
          simp only at written
          split at written
          · split at written
            · cases written
            next n taken =>
              split at written
              · cases written
              next stored =>
                split at stored
                · split at stored
                  · cases stored
                  · split at stored
                    · cases stored
                      cases written
                      exact ⟨bucket, iovs, n, built, taken, rfl⟩
                    · cases stored
                · cases stored
          · cases written
        · cases done
  · cases step

section
variable (running : Running s)
include running

theorem Running.offloadOk (step : offloadOk pb s call = some s') : Running s' := by
  obtain ⟨bucket, iovs, n, -, -, rfl⟩ := offloadOk_eq step
  exact (running.written rfl).2 _

theorem StoredAt.offloadOk {key value : Bytes} (stored : StoredAt s id key value)
    (step : offloadOk pb s call = some s') : StoredAt s' id key value := by
  obtain ⟨⟨o, found, at_id⟩, m, object, full, n, bucket, inside, file, bytes⟩ := stored
  obtain ⟨new, iovs, n', -, -, rfl⟩ := offloadOk_eq step
  have other : id ≠ s.1.nextId.currentId := by
    rintro rfl
    rw [show s.1.buckets.lookup _ = none from running.new.1] at bucket
    cases bucket
  refine ⟨⟨o, ?_, at_id⟩, m, object, full, n, ?_, inside, ?_, bytes⟩
  · rw [lookup_register_object, show s.1.nextId.objectBucketMap = s.1.objectBucketMap from rfl, found]
    rfl
  · rw [lookup_register_bucket running.new.1, if_neg other]
    exact bucket
  · rw [lookup_insert_ne other]
    exact file

/-- The objects of a call are stored, if their keys were not there before. -/
theorem storedAt_offloadOk {key : Bytes} {slices : List Bytes}
    (step : offloadOk pb s call = some s') (new : s.1.objectBucketMap.lookup key = none)
    (inside : call.batchObject.lookup key = some slices) : StoredAt s' s.1.nextId.currentId key slices.flatten := by
  obtain ⟨bucket, iovs, n, built, -, rfl⟩ := offloadOk_eq step
  obtain ⟨o, found, -, -, bytes⟩ := (buildBucket_eq_ok built).2.bytes inside
  refine ⟨⟨storageObject s.1.nextId.currentId o, ?_, rfl⟩, { bucket with metaSize := (pb.toPb bucket).length }, o,
    iovs.flatten, n, ?_, found, lookup_insert _, bytes⟩
  · rw [lookup_register_object, show s.1.nextId.objectBucketMap = s.1.objectBucketMap from rfl, new, found]
    rfl
  · rw [lookup_register_bucket running.new.1, if_pos rfl]

theorem storedAt_run {calls : List Offload} (distinct : (calls.flatMap (·.batchObject.keys)).Nodup)
    (new : ∀ call ∈ calls, ∀ key ∈ call.batchObject, s.1.objectBucketMap.lookup key = none)
    (run : Run.run (offloadOk pb) s calls = some s') :
    ∀ call ∈ calls, ∀ key slices, call.batchObject.lookup key = some slices → ∃ id, StoredAt s' id key slices.flatten := by
  induction calls generalizing s with
  | nil => exact fun _ none => nomatch none
  | cons call calls ih =>
    obtain ⟨mid, first, rest⟩ := Run.run_cons run
    have running' := running.offloadOk first
    rw [flatMap_cons, nodup_append] at distinct
    obtain ⟨-, later, apart⟩ := distinct
    have new' : ∀ c ∈ calls, ∀ key ∈ c.batchObject, mid.1.objectBucketMap.lookup key = none := by
      intro c member key inside
      obtain ⟨bucket, iovs, n, built, -, rfl⟩ := offloadOk_eq first
      have unknown : s.1.nextId.objectBucketMap.lookup key = none := new c (mem_cons_of_mem _ member) key inside
      have elsewhere : key ∉ call.batchObject := fun here =>
        apart key (AList.mem_keys.mp here) key (mem_flatMap.mpr ⟨c, member, AList.mem_keys.mp inside⟩) rfl
      have missing : bucket.objectMetadata.lookup key = none :=
        Option.not_isSome_iff_eq_none.mp (fun found => elsewhere (((buildBucket_eq_ok built).2.isSome_iff key).mp found))
      rw [lookup_register_object, unknown, missing]
      rfl
    intro c member key slices inside
    rcases mem_cons.mp member with rfl | member
    · have here := storedAt_offloadOk running first
        (new c mem_cons_self key (lookup_isSome.mp (by rw [inside]; rfl))) inside
      have both : ∀ t e t', Running t ∧ StoredAt t s.1.nextId.currentId key slices.flatten → offloadOk pb t e = some t' →
          Running t' ∧ StoredAt t' s.1.nextId.currentId key slices.flatten :=
        fun t e t' h step => ⟨h.1.offloadOk step, h.2.offloadOk h.1 step⟩
      exact ⟨_, (Run.invariant both ⟨running', here⟩ rest).2⟩
    · exact ih running' later new' rest c member key slices inside

end

/-! ## Loading -/

theorem bucketKeyMapLoop_ok {b : Backend} {start : Table Int (List Bytes)}
    (collected : bucketKeyMapLoop b keys start = .ok bucketKeyMap) (id : Int) (key : Bytes) :
    key ∈ bucketKeyMap.listAt id ↔
      key ∈ start.listAt id ∨ key ∈ keys ∧ ∃ o, b.objectBucketMap.lookup key = some o ∧ o.bucketId = id := by
  induction keys generalizing start with
  | nil =>
    cases Except.ok.inj collected
    simp
  | cons k keys ih =>
    unfold bucketKeyMapLoop at collected
    split at collected
    · cases collected
    next o found =>
      rw [ih collected]
      by_cases same : id = o.bucketId
      · subst same
        rw [Table.listAt_pushBack_self, mem_append, mem_singleton, mem_cons, or_assoc]
        refine or_congr_right ⟨?_, ?_⟩
        · rintro (rfl | ⟨member, known⟩)
          · exact ⟨.inl rfl, o, found, rfl⟩
          · exact ⟨.inr member, known⟩
        · rintro ⟨rfl | member, known⟩
          · exact .inl rfl
          · exact .inr ⟨member, known⟩
      · rw [Table.listAt_pushBack_ne same, mem_cons]
        refine or_congr_right ⟨fun both => ⟨.inr both.1, both.2⟩, ?_⟩
        rintro ⟨rfl | member, o', found', at_id⟩
        · cases found.symm.trans found'
          exact absurd at_id.symm same
        · exact ⟨member, o', found', at_id⟩

theorem readAt_full {full slice : Bytes} {n offset limit : Nat}
    (count : (readAt (full.take n) offset limit slice).2 = slice.length) :
    (readAt (full.take n) offset limit slice).1 = (full.drop offset).take slice.length := by
  simp only [readAt] at count ⊢
  have got : (((full.take n).drop offset).take slice.length).take limit = (full.drop offset).take slice.length := by
    rw [drop_take, take_take, take_take] at count ⊢
    rw [length_take] at count
    congr 1
    omega
  rw [count, drop_length, append_nil, got]

variable {slices filled : Table Bytes Bytes}

theorem batchLoadBucketLoop_ok {file : Bytes} (opened : s.2.data.lookup id = some file)
    (loaded : batchLoadBucketLoop s.1 file id answers keys slices = (.ok (), filled)) (key : Bytes) :
    (key ∉ keys → filled.lookup key = slices.lookup key) ∧
      ∀ value, key ∈ keys → StoredAt s id key value → filled.lookup key = some value := by
  induction keys generalizing slices with
  | nil =>
    cases loaded
    exact ⟨fun _ => rfl, fun _ none => nomatch none⟩
  | cons k keys ih =>
    unfold batchLoadBucketLoop at loaded
    simp only at loaded
    split at loaded
    · cases loaded
    next m bucket =>
      split at loaded
      · cases loaded
      next object inside =>
        split at loaded
        · cases loaded
        next size =>
          split at loaded
          · cases loaded
          next limit answered =>
            split at loaded
            · cases loaded
            next count =>
              obtain ⟨others, later⟩ := ih loaded
              rw [Ne, not_not] at size count
              refine ⟨fun outside => ?_, fun value member stored => ?_⟩
              · simp only [mem_cons, not_or] at outside
                rw [others outside.2, lookup_insert_ne outside.1]
              · by_cases again : key ∈ keys
                · exact later value again stored
                · obtain rfl := (mem_cons.mp member).resolve_right again
                  obtain ⟨-, m', object', full, n, bucket', inside', file', bytes⟩ := stored
                  cases bucket.symm.trans bucket'
                  cases inside.symm.trans inside'
                  cases opened.symm.trans file'
                  rw [others again, lookup_insert, readAt_full count, ← size, bytes]

theorem batchLoadLoop_ok {order : List Int}
    (loaded : batchLoadLoop s.1 s.2 answers bucketKeyMap order slices = (.ok (), filled)) {key value : Bytes}
    (stored : StoredAt s id key value) (home : ∀ j, key ∈ bucketKeyMap.listAt j → j = id) :
    (id ∉ order → filled.lookup key = slices.lookup key) ∧
      (id ∈ order → key ∈ bucketKeyMap.listAt id → filled.lookup key = some value) := by
  induction order generalizing slices with
  | nil =>
    cases loaded
    exact ⟨fun _ => rfl, fun none => nomatch none⟩
  | cons j order ih =>
    unfold batchLoadLoop at loaded
    split at loaded
    · cases loaded
    next slices' here =>
      obtain ⟨others, later⟩ := ih loaded
      unfold batchLoadBucket at here
      split at here
      · split at here
        · cases here
        next file opened =>
          obtain ⟨outside, inside⟩ := batchLoadBucketLoop_ok opened here key
          refine ⟨fun unlisted => ?_, fun listed member => ?_⟩
          · simp only [mem_cons, not_or] at unlisted
            rw [others unlisted.2, outside (fun there => unlisted.1 (home j there).symm)]
          · by_cases again : id ∈ order
            · exact later again member
            · obtain rfl := (mem_cons.mp listed).resolve_right again
              rw [others again, inside value member stored]
      · cases here

theorem StoredAt.loads {key value : Bytes} (stored : StoredAt s id key value) : LoadsValue s key value := by
  intro answers batchObject filled serves loaded member
  unfold batchLoad at loaded
  split at loaded
  · cases loaded
  next bucketKeyMap collected =>
    obtain ⟨o, found, at_id⟩ := stored.indexed
    have places := bucketKeyMapLoop_ok collected
    have home : ∀ j, key ∈ bucketKeyMap.listAt j → j = id := by
      intro j there
      rcases (places j key).mp there with none | ⟨-, o', found', at_j⟩
      · cases none
      · rw [← at_j, ← at_id, Option.some.inj (found.symm.trans found')]
    have asked : key ∈ batchObject.entries.map (·.1) := AList.mem_keys.mp member
    have here : key ∈ bucketKeyMap.listAt id := (places id key).mpr (.inr ⟨asked, o, found, at_id⟩)
    have listed : id ∈ answers.order := by
      refine (serves bucketKeyMap collected).mem_iff.mpr (AList.mem_keys.mp (lookup_isSome.mp ?_))
      cases none : bucketKeyMap.lookup id with
      | some keys => rfl
      | none =>
        rw [Table.listAt, none] at here
        cases here
    exact (batchLoadLoop_ok loaded stored home).2 listed here

/-! ## The calls -/

theorem written_iff (step : offloadOk pb s call = some s') : call.Written s' ↔ call.Whole := by
  obtain ⟨bucket, iovs, n, built, taken, rfl⟩ := offloadOk_eq step
  have file : ((s.2.data.insert s.1.nextId.currentId (iovs.flatten.take n)).lookup s.1.nextId.currentId) =
      some (iovs.flatten.take n) := lookup_insert _
  have size : batchSize call.batchObject = iovs.flatten.length := (buildBucket_eq_ok built).2.total.symm
  have complete : iovs.flatten.take n = iovs.flatten ↔ batchSize call.batchObject ≤ n := by
    rw [take_eq_self_iff, size]
  constructor
  · rintro ⟨bucket', iovs', built', written⟩ n' taken'
    cases Except.ok.inj (built.symm.trans built')
    cases taken.symm.trans taken'
    exact complete.mp (Option.some.inj (file.symm.trans written))
  · intro whole
    exact ⟨bucket, iovs, built, file.trans (congrArg some (complete.mpr (whole n taken)))⟩

/-- For every backend that has been started, and every sequence of successful calls with keys that are all
different and were not there: every load that succeeds gives the bytes that were offloaded, and each of the
calls has written its whole bucket, exactly if no write of a data file was short. -/
theorem offloads_load_iff_whole {time : Nat} {order : List Int} {d d' : Directory} {b : Backend}
    (listed : order.Perm d.metadata.keys) (started : init pb time order Backend.new d = .ok (b, d'))
    {calls : List Offload} (distinct : (calls.flatMap (·.batchObject.keys)).Nodup)
    (new : ∀ call ∈ calls, ∀ key ∈ call.batchObject, b.objectBucketMap.lookup key = none)
    {s : Backend × Directory} (run : Run.run (offloadOk pb) (b, d') calls = some s) :
    ((∀ call ∈ calls, ∀ key slices, call.batchObject.lookup key = some slices → LoadsValue s key slices.flatten) ∧
        Run.Every (offloadOk pb) (fun _ call s' => call.Written s') (b, d') calls) ↔
      ∀ call ∈ calls, call.Whole := by
  obtain ⟨b₂, d₂, started₂, running, -, -⟩ := init_ok pb time listed
  cases Except.ok.inj (started.symm.trans started₂)
  have loads : ∀ call ∈ calls, ∀ key slices, call.batchObject.lookup key = some slices →
    LoadsValue s key slices.flatten := by
    intro call member key slices inside
    obtain ⟨id, stored⟩ := storedAt_run running distinct new run call member key slices inside
    exact stored.loads
  have each : ∀ t call t', True → offloadOk pb t call = some t' → (call.Written t' ↔ call.Whole) :=
    fun _ _ _ _ step => written_iff step
  have written : Run.Every (offloadOk pb) (fun _ call s' => call.Written s') (b, d') calls ↔
      Run.Guarded (offloadOk pb) (fun _ call => call.Whole) (b, d') calls :=
    Run.every_iff_guarded (fun _ _ _ _ _ => trivial) each trivial run
  rw [and_iff_right loads, written]
  exact Run.guarded_iff_forall run

end

namespace Sample

def offloadShort : Offload := { offloadSeven [1] with answers := { fine with pwritev := some 1 } }

end Sample

open Sample in
theorem one_offload_loads :
    LoadsValue (after [offloadSeven [1]]) [7] [1] ∧
      Run.Every (offloadOk Message.format) (fun _ call s' => call.Written s') (started, empty) [offloadSeven [1]] := by
  have run : Run.run (offloadOk Message.format) (started, empty) [offloadSeven [1]] = some (after [offloadSeven [1]]) := rfl
  obtain ⟨loads, written⟩ := (offloads_load_iff_whole listed_empty init_empty (by decide) (fun _ _ _ _ => rfl) run).mpr
    (fun call member n taken => by
      cases mem_singleton.mp member
      cases taken
      decide)
  exact ⟨loads _ mem_cons_self [7] [[1]] rfl, written⟩

open Sample in
theorem short_write_succeeds :
    (batchOffload Message.format started empty offloadShort).1.toOption = some 1 ∧
      (batchOffload Message.format started empty offloadShort).2.2.data.lookup 1 = some [7] ∧
      (buildBucket offloadShort.batchObject).toOption.map (fun built => built.2.flatten) = some [7, 1] := by
  decide +kernel

end Mooncake.Storage
