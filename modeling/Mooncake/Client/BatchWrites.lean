import Mooncake.Client.PyPut

/-! The batch puts of the Python client against its single puts, one call after the other. Between
two calls the surroundings may change: only the store is passed on. -/
namespace Mooncake.Client

open Option List
open Master (ErrorCode ReplicateConfig)

inductive PutRun (config : ReplicateConfig) : Store → List (String × List UInt8) → Store → Prop
  | nil (s : Store) : PutRun config s [] s
  | cons {s s' : Store} {key : String} {value : List UInt8} {rest : List (String × List UInt8)} (c : Context)
      (allocate : Nat → Option BufferHandle) (m : Nat → UInt8) (allocates : Allocates allocate)
      (smooth : (putInternal c config allocate m key value).Smooth c config s)
      (later : PutRun config ((putInternal c config allocate m key value).store c config s) rest s') :
      PutRun config s ((key, value) :: rest) s'

inductive PutFromRun (config : ReplicateConfig) (m : Nat → UInt8) : Store → List (String × Nat × Nat) → Store → Prop
  | nil (s : Store) : PutFromRun config m s [] s
  | cons {s s' : Store} {key : String} {buffer size : Nat} {rest : List (String × Nat × Nat)} (c : Context)
      (smooth : (putFromInternal c config m key buffer size).Smooth c config s)
      (later : PutFromRun config m ((putFromInternal c config m key buffer size).store c config s) rest s') :
      PutFromRun config m s ((key, buffer, size) :: rest) s'

section
variable {config : ReplicateConfig} {s s₁ : Store}

variable {keys : List String} {m : Nat → UInt8} {pairs : List (String × List UInt8)} {c : Context}

theorem PutRun.store_eq (run : PutRun config s pairs s₁) : s₁ = pairs.foldl (Store.put config) s := by
  induction run with
  | nil => rfl
  | cons c allocate m allocates smooth later ih => rw [ih, foldl_cons, putInternal_store allocates smooth]

theorem PutFromRun.store_eq {pairs : List (String × Nat × Nat)} (run : PutFromRun config m s pairs s₁) :
    s₁ = (pairs.map (fun p => (p.1, Extent.read m p.2.1 p.2.2))).foldl (Store.put config) s := by
  induction run with
  | nil => rfl
  | cons c smooth later ih => rw [ih, map_cons, foldl_cons, putFromInternal_store smooth]

theorem foldl_put_refused (prefers : config.preferAllocInSameNode = true) (pairs : List (String × List UInt8)) :
    pairs.foldl (Store.put config) s = s := by
  induction pairs with
  | nil => rfl
  | cons p rest ih => rw [foldl_cons, put_refused prefers, ih]

theorem foldl_put_eq_self :
    pairs.foldl (Store.put config) s = s ↔ ∀ p ∈ pairs, s p.1 = none → ¬ Storable config p := by
  rw [foldl_put, FirstWins.foldl_add_eq_self]
  simp only [mem_filter, decide_eq_true_eq, and_imp]
  exact forall₂_congr fun _ _ => imp_not_comm

theorem lookup_of_notMem {es : List (String × List UInt8)} {key : String} (listed : ∀ e ∈ es, e.1 ∈ keys)
    (absent : key ∉ keys) : es.lookup key = none := by
  refine lookup_eq_none_iff.mpr (fun e member => ?_)
  have other : key ≠ e.1 := by
    rintro rfl
    exact absent (listed e member)
  simpa using other

theorem putBatch_sequential_iff {allocate : Nat → Nat → Option BufferHandle} {values : List (List UInt8)}
    (same : keys.length = values.length) (room : Room allocate values)
    (smooth : (putBatchInternal c config allocate m keys values).Smooth c config s)
    (run : PutRun config s (keys.zip values) s₁) :
    (putBatchInternal c config allocate m keys values).store c config s = s₁ ↔
      (∀ value ∈ values, value ≠ []) ∨ ∀ p ∈ keys.zip values, s p.1 = none → ¬ Storable config p := by
  rw [run.store_eq]
  cases prefers : config.preferAllocInSameNode with
  | true =>
    have refused : (putBatchInternal c config allocate m keys values).store c config s = s := by
      simp only [putBatchInternal, prefers, if_true]
      rfl
    rw [refused]
    exact ⟨fun unchanged => .inr (foldl_put_eq_self.mp unchanged.symm), fun _ => (foldl_put_refused prefers _).symm⟩
  | false =>
    by_cases full : ∀ value ∈ values, value ≠ []
    · refine ⟨fun _ => .inl full, fun _ => ?_⟩
      rw [putBatch_store same room full prefers smooth, foldl_put_eq_iff]
      intro key _ _
      refine firstValue_uniform (fun absent => ?_)
      rw [firstValue, lookup_of_notMem (fun e member => ?_) absent]
      · rfl
      · exact (of_mem_zip (mem_filter.mp member).1).1
    · obtain ⟨value, listed, empty⟩ : ∃ value ∈ values, value = [] := by simpa using full
      have refused : (putBatchInternal c config allocate m keys values).store c config s = s := by
        obtain ⟨i, inside, valueAt⟩ := getElem_of_mem listed
        have keyed : i < keys.length := same ▸ inside
        have zipped : (keys[i], value) ∈ keys.zip values := mem_of_getElem? (i := i)
          (List.getElem?_zip_eq_some.mpr ⟨List.getElem?_eq_getElem keyed, List.getElem?_eq_some_iff.mpr ⟨inside, valueAt⟩⟩)
        have stopped := putBatchLoop_none (fun i => (room.allocates i).1) ⟨_, zipped, empty⟩ 0 m ∅
        simp only [putBatchInternal, prefers, Bool.false_eq_true, if_false, if_neg (not_not.mpr same), stopped]
        rfl
      rw [refused]
      refine ⟨fun unchanged => .inr (foldl_put_eq_self.mp unchanged.symm), ?_⟩
      rintro (all | unstored)
      · exact absurd all full
      · exact (foldl_put_eq_self.mpr unstored).symm

theorem batchPutFrom_sequential_iff {buffers sizes : List Nat} (sameBuffers : keys.length = buffers.length)
    (sameSizes : keys.length = sizes.length)
    (smooth : (batchPutFromInternal c config m keys buffers sizes).Smooth c config s)
    (run : PutFromRun config m s (keys.zip (buffers.zip sizes)) s₁) :
    (batchPutFromInternal c config m keys buffers sizes).store c config s = s₁ ↔
      ∀ key, s key = none → StorableKey config key →
        lastValue (keys.zip (buffers.zipWith (Extent.read m) sizes)) key =
          firstValue (keys.zip (buffers.zipWith (Extent.read m) sizes)) key := by
  have values : (keys.zip (buffers.zip sizes)).map (fun p => (p.1, Extent.read m p.2.1 p.2.2)) =
      keys.zip (buffers.zipWith (Extent.read m) sizes) := ext_getElem (by simp) (fun i _ _ => by simp)
  rw [run.store_eq, values]
  cases prefers : config.preferAllocInSameNode with
  | true =>
    have refused : (batchPutFromInternal c config m keys buffers sizes).store c config s = s := by
      simp only [batchPutFromInternal, prefers, if_true]
      rfl
    rw [refused, foldl_put_refused prefers]
    refine ⟨fun _ key _ storable => ?_, fun _ => rfl⟩
    have plain := storable.1
    rw [prefers] at plain
    cases plain
  | false =>
    rw [batchPutFrom_store sameBuffers sameSizes prefers smooth, foldl_put_eq_iff]
    refine forall_congr' (fun key => imp_congr_right (fun _ => imp_congr_right (fun _ => ?_)))
    rw [firstValue_uniform (fun absent => ?_)]
    rw [lastValue, lookup_of_notMem (fun e member => ?_) absent]
    · rfl
    · exact (of_mem_zip (mem_reverse.mp member)).1

end

/-- With space and successful transfers, `put_batch` leaves what calls of `put` would leave exactly
if every value has bytes or nothing can be stored anyway, and `batch_put_from` what calls of
`put_from` would leave exactly if, for every key that is new and can be stored, the last pair has
the bytes of the first pair that has any. -/
theorem batch_writes_sequential_iff (config : ReplicateConfig) (s s₁ : Store) :
    (∀ c allocate m keys values, keys.length = values.length → Room allocate values →
      (putBatchInternal c config allocate m keys values).Smooth c config s → PutRun config s (keys.zip values) s₁ →
      ((putBatchInternal c config allocate m keys values).store c config s = s₁ ↔
        (∀ value ∈ values, value ≠ []) ∨ ∀ p ∈ keys.zip values, s p.1 = none → ¬ Storable config p)) ∧
    (∀ c m keys buffers sizes, keys.length = buffers.length → keys.length = sizes.length →
      (batchPutFromInternal c config m keys buffers sizes).Smooth c config s →
      PutFromRun config m s (keys.zip (buffers.zip sizes)) s₁ →
      ((batchPutFromInternal c config m keys buffers sizes).store c config s = s₁ ↔
        ∀ key, s key = none → StorableKey config key →
          lastValue (keys.zip (buffers.zipWith (Extent.read m) sizes)) key =
            firstValue (keys.zip (buffers.zipWith (Extent.read m) sizes)) key)) :=
  ⟨fun _ _ _ _ _ same room smooth run => putBatch_sequential_iff same room smooth run,
    fun _ _ _ _ _ sameBuffers sameSizes smooth run => batchPutFrom_sequential_iff sameBuffers sameSizes smooth run⟩

namespace Sample
open Master Master.Sample

def oneByte : List ReplicaDescriptor := [.memory [⟨1, 4096, "a:1"⟩] .processing]

theorem free_answered : StartAnswered {} false "k" [1] (.ok oneByte) := by
  have silent : ((World.start params : State).putStart params "k" [1] {}).map (·.2) = some .silent := by decide +kernel
  obtain ⟨⟨w', answer⟩, done, rfl⟩ := map_eq_some_iff.mp silent
  exact ⟨_, _, _, params, World.start params, w', .silent, by decide +kernel, done, .inr ⟨rfl, oneByte, rfl⟩⟩

theorem taken_answered : StartAnswered {} true "k" [1] (.error .objectAlreadyExists) := by
  have outcome : (Run.run (World.step params) (World.start params : State)
    (mount segmentA clientA ++ Master.Sample.put "k" "a")).bind
      (fun w => (w.putStart params "k" [1] {}).map (fun r =>
        (r.2, (World.findFree w.isValid "k" (w.shards (params.getShardIndex "k"))).1))) =
      some (.replicas (.error .objectAlreadyExists), false) := by decide +kernel
  obtain ⟨w, -, seen⟩ := reached_of_outcome outcome
  obtain ⟨⟨w', answer⟩, done, same⟩ := map_eq_some_iff.mp seen
  obtain ⟨rfl, taken⟩ := Prod.mk.inj same
  exact ⟨_, _, _, params, w, w', _, taken, done, .inl rfl⟩

def starting (free : Bool) : MasterClient where
  putStart _ _ _ := if free then .ok oneByte else .error .objectAlreadyExists
  batchPutStart keys _ _ := keys.mapIdx (fun i _ => if free && i == 0 then .ok oneByte else .error .objectAlreadyExists)
  putEnd _ _ := .ok ()
  putRevoke _ _ := .ok ()
  batchPutEnd keys := keys.map (fun _ => .ok ())
  batchPutRevoke keys := keys.map (fun _ => .ok ())

theorem starting_sound (free : Bool) : (starting free).Sound where
  startSize := by simp [starting]
  endSize := by simp [starting]
  revokeSize := by simp [starting]
  startMemory := by
    intro keys lengths config replicas started
    obtain ⟨i, _, same⟩ := mem_mapIdx.mp started
    split at same
    · cases Except.ok.inj same
      exact ⟨_, _, _, _, rfl⟩
    · cases same
  endError := by simp [starting]

def serving (free : Bool) : Context :=
  { transferSubmitter := submitter, masterClient := starting free, storageBackend := false,
    storeObject := fun _ _ => false }

def nothing : Store := fun _ => none

theorem smooth_put {s : Store} {free : Bool} {address : Nat} (taken : (s "k").isSome = !free)
    (transferred : memoryTransferred (serving free) 0 [⟨address, 1⟩] oneByte = true) :
    (PutCall.put "k" [⟨address, 1⟩]).Smooth (serving free) {} s where
  sound := starting_sound free
  answered := by
    rw [PutCall.outcome, put_starts]
    refine ⟨_, [], rfl, ?_, rfl⟩
    simp only [taken]
    cases free with
    | true => exact free_answered
    | false => exact taken_answered
  transferred := by
    intro i slices replicas source started
    rw [PutCall.outcome, put_starts] at started
    obtain ⟨zero, same⟩ := List.getElem?_eq_some_iff.mp source
    have first : i = 0 := Nat.lt_one_iff.mp zero
    subst first
    cases same
    cases free with
    | true =>
      cases Except.ok.inj (some.inj started)
      exact transferred
    | false => cases started
  ended := fun _ => rfl
  batchEnded := by simp [serving, starting]

theorem smooth_twice : (PutCall.batchPut ["k", "k"] [[⟨101, 1⟩], [⟨101, 1⟩]]).Smooth (serving true) {} nothing where
  sound := starting_sound true
  answered := ⟨_, _, rfl, free_answered, _, _, rfl, taken_answered, rfl⟩
  transferred := by
    intro i slices replicas source started
    have starts : ((PutCall.batchPut ["k", "k"] [[⟨101, 1⟩], [⟨101, 1⟩]]).outcome (serving true) {}).starts =
        [.ok oneByte, .error .objectAlreadyExists] := by decide
    rw [starts] at started
    match i with
    | 0 =>
      cases source
      cases Except.ok.inj (some.inj started)
      decide
    | 1 => cases started
    | _ + 2 => cases started
  ended := fun _ => rfl
  batchEnded := by simp [serving, starting]

def twoBytes : Nat → UInt8 := fun a => if a = 100 then 1 else if a = 101 then 2 else 0

theorem twoBytes_run : ∃ s₁, PutFromRun {} twoBytes nothing [("k", 100, 1), ("k", 101, 1)] s₁ ∧ s₁ "k" = some [1] := by
  refine ⟨_, .cons (serving true) ?_ (.cons (serving false) ?_ (.nil _)), ?_⟩
  · rintro _ ⟨⟩
    exact smooth_put rfl (by decide)
  · rintro _ ⟨⟩
    exact smooth_put (by decide) (by decide)
  · decide

def allocateOne (size : Nat) : Option BufferHandle := if size = 0 then none else some ⟨200, size⟩

theorem allocateOne_allocates : Allocates allocateOne :=
  ⟨rfl, fun size some_size => ⟨⟨200, size⟩, if_neg some_size, rfl⟩⟩

theorem emptyFirst_run : ∃ s₁, PutRun {} nothing [("a", []), ("k", [7])] s₁ ∧ s₁ "k" = some [7] := by
  refine ⟨_, .cons (serving true) allocateOne twoBytes allocateOne_allocates ?_
    (.cons (serving true) allocateOne twoBytes allocateOne_allocates ?_ (.nil _)), ?_⟩
  · rintro _ ⟨⟩
  · rintro _ ⟨⟩
    exact smooth_put rfl (by decide)
  · decide

end Sample

open Sample in
theorem batch_writes_not_sequential : ∃ s₁, PutFromRun {} twoBytes nothing [("k", 100, 1), ("k", 101, 1)] s₁ ∧
    (batchPutFromInternal (serving true) {} twoBytes ["k", "k"] [100, 101] [1, 1]).store (serving true)
      {} nothing ≠ s₁ := by
  obtain ⟨s₁, run, -⟩ := twoBytes_run
  refine ⟨s₁, run, fun same => ?_⟩
  have smooth : (batchPutFromInternal (serving true) {} twoBytes ["k", "k"] [100, 101] [1, 1]).Smooth (serving true) {}
      nothing := by
    rintro _ ⟨⟩
    exact smooth_twice
  have values := ((batch_writes_sequential_iff {} nothing s₁).2 (serving true) twoBytes ["k", "k"] [100, 101] [1, 1] rfl rfl
    smooth run).mp same "k" rfl (by decide)
  revert values
  decide

open Sample in
/-- `batch_put_from` stores the byte of the second pair, where calls of `put_from` store that of the
first; `put_batch` stores nothing when one value is empty, where calls of `put` store the others. -/
theorem batch_writes_differ :
    (∃ s₁, PutFromRun {} twoBytes nothing [("k", 100, 1), ("k", 101, 1)] s₁ ∧ s₁ "k" = some [1]) ∧
    (batchPutFromInternal (serving true) {} twoBytes ["k", "k"] [100, 101] [1, 1]).Smooth (serving true) {} nothing ∧
    (batchPutFromInternal (serving true) {} twoBytes ["k", "k"] [100, 101] [1, 1]).result = [.ok (), .ok ()] ∧
    (batchPutFromInternal (serving true) {} twoBytes ["k", "k"] [100, 101] [1, 1]).store (serving true) {} nothing "k" =
      some [2] ∧
    (∃ s₁, PutRun {} nothing [("a", []), ("k", [7])] s₁ ∧ s₁ "k" = some [7]) ∧
    Room (fun _ => allocateOne) [[], [7]] ∧
    (putBatchInternal (serving true) {} (fun _ => allocateOne) twoBytes ["a", "k"] [[], [7]]).store
      (serving true) {} nothing "k" =
      none := by
  refine ⟨twoBytes_run, ?_, by decide, by decide, emptyFirst_run, ⟨fun _ => allocateOne_allocates, ?_⟩, by decide⟩
  · rintro _ ⟨⟩
    exact smooth_twice
  · intro i j v w h h' before first second none _
    match i, j with
    | 0, 1 =>
      cases first
      cases none
    | 0, _ + 2 => cases second
    | 1, j + 2 => cases second
    | _ + 2, _ => cases first

end Mooncake.Client
