import Mathlib.Tactic.Abel
import Mooncake.Engine.Batch

/-! Who has the slice objects. A slice is in one cache or in the list of one task, and there is nothing else
that may be returned to a cache. -/
namespace Mooncake.Engine.Batch

open Function Option Multiset List Table
namespace World

/-! ## What is held where -/

variable (w : World)

def cached : Multiset Nat := Table.total (fun _ cache => Multiset.ofList cache) w.caches

def listed : Multiset Nat :=
  Table.total (fun _ b => Multiset.ofList (b.taskList.flatMap TransferTask.sliceList)) w.batches

def holdings : Multiset Nat := w.cached + w.listed

def Unshared : Prop := w.holdings.Nodup ∧ ∀ x ∈ w.pool, ∀ thread, x ∉ w.cache thread

def waiting (pool : List Nat) (ref : TaskRef) : Nat := pool.countP (fun x => (w.slices x).task = ref)

variable {w : World} {ref : TaskRef} {thread x : Nat} {t : TransferTask}

theorem mem_cached : x ∈ w.cached ↔ ∃ thread, x ∈ w.cache thread := by
  unfold cached cache
  rw [mem_total]
  refine exists_congr fun thread => ?_
  cases w.caches.lookup thread <;> simp

theorem mem_listed : x ∈ w.listed ↔ ∃ ref t, w.taskAt ref = some t ∧ x ∈ t.sliceList := by
  unfold listed taskAt
  simp only [mem_total, Prod.exists, bind_eq_some_iff, mem_coe, mem_flatMap]
  constructor
  · rintro ⟨b, batch, found, t, member, inside⟩
    obtain ⟨i, place⟩ := getElem?_of_mem member
    exact ⟨b, i, t, ⟨batch, found, place⟩, inside⟩
  · rintro ⟨b, i, t, ⟨batch, found, place⟩, inside⟩
    exact ⟨b, batch, found, t, mem_of_getElem? place, inside⟩

theorem cached_insert (w : World) (thread : Nat) (cache : List Nat) :
    ({ w with caches := w.caches.insert thread cache } : World).cached + w.cache thread = w.cached + cache :=
  total_insert_getD (fun _ cache => ofList cache) rfl

/-! ## Changes of one task -/

section
variable (w ref) (f : TransferTask → TransferTask)

theorem taskAt_modifyTask (r : TaskRef) :
    (w.modifyTask ref f).taskAt r = if r = ref then (w.taskAt r).map f else w.taskAt r := by
  obtain ⟨b, i⟩ := ref
  obtain ⟨b', i'⟩ := r
  unfold modifyTask
  cases found : w.batches.lookup b with
  | none =>
    by_cases same : (b', i') = (b, i)
    · cases same
      simp [taskAt, found]
    · exact (if_neg same).symm
  | some batch =>
    simp only [taskAt]
    by_cases same : b' = b
    · subst same
      simp only [AList.lookup_insert, found, bind_some, getElem?_modify, Prod.mk.injEq, true_and]
      by_cases here : i = i'
      · simp [here]
      · simp [here, Ne.symm here]
    · simp [AList.lookup_insert_ne same, same]

@[simp] theorem caches_modifyTask : (w.modifyTask ref f).caches = w.caches := by
  unfold modifyTask
  split <;> rfl

@[simp] theorem slices_modifyTask : (w.modifyTask ref f).slices = w.slices := by
  unfold modifyTask
  split <;> rfl

@[simp] theorem pool_modifyTask : (w.modifyTask ref f).pool = w.pool := by
  unfold modifyTask
  split <;> rfl

@[simp] theorem nextSlice_modifyTask : (w.modifyTask ref f).nextSlice = w.nextSlice := by
  unfold modifyTask
  split <;> rfl

@[simp] theorem nextBatch_modifyTask : (w.modifyTask ref f).nextBatch = w.nextBatch := by
  unfold modifyTask
  split <;> rfl

theorem lookup_modifyTask_eq_none (b : Nat) :
    (w.modifyTask ref f).batches.lookup b = none ↔ w.batches.lookup b = none := by
  unfold modifyTask
  cases found : w.batches.lookup ref.1 with
  | none => exact Iff.rfl
  | some batch =>
    by_cases same : b = ref.1
    · subst same
      simp [AList.lookup_insert, found]
    · simp [AList.lookup_insert_ne same]

end

theorem coe_flatMap_modify {ts : List TransferTask} {i : Nat} {t : TransferTask} (f : TransferTask → TransferTask)
    (found : ts[i]? = some t) :
    (((ts.modify i f).flatMap TransferTask.sliceList : List Nat) : Multiset Nat) + t.sliceList =
      ((ts.flatMap TransferTask.sliceList : List Nat) : Multiset Nat) + (f t).sliceList := by
  induction ts generalizing i with
  | nil => cases found
  | cons head rest ih =>
    cases i with
    | zero =>
      cases found
      simp only [modify_zero_cons, flatMap_cons, ← coe_add]
      abel
    | succ i =>
      have later := ih (i := i) found
      simp only [modify_succ_cons, flatMap_cons, ← coe_add]
      rw [add_assoc, later, add_assoc]

variable {f : TransferTask → TransferTask}

theorem listed_modifyTask (found : w.taskAt ref = some t) :
    (w.modifyTask ref f).listed + t.sliceList = w.listed + (f t).sliceList := by
  obtain ⟨batch, here, place⟩ := bind_eq_some_iff.mp found
  unfold modifyTask listed
  rw [here]
  simp only [total_insert]
  rw [total_erase _ here, add_right_comm, coe_flatMap_modify f place, add_right_comm]

theorem listed_modifyTask_of_same (same : ∀ t, (f t).sliceList = t.sliceList) :
    (w.modifyTask ref f).listed = w.listed := by
  cases found : w.taskAt ref with
  | some t =>
    have change := listed_modifyTask (f := f) found
    rw [same t] at change
    exact add_right_cancel change
  | none =>
    unfold modifyTask
    cases here : w.batches.lookup ref.1 with
    | none => rfl
    | some batch =>
      have missing : batch.taskList.length ≤ ref.2 := by
        simpa [taskAt, here] using found
      have unchanged : batch.taskList.modify ref.2 f = batch.taskList := by
        rw [modify_eq_self missing]
      unfold listed
      simp only [total_insert]
      rw [total_erase _ here, unchanged]

/-! ## Drawing and returning slices -/

/-- What a draw does: the slice is from a cache or new, has been filled in and is in the list of its task. -/
structure Draws (w : World) (slice : Slice) (w' : World) (x : Nat) : Prop where
  source : (x ∈ w.cached ∧ w'.nextSlice = w.nextSlice ∧ w'.holdings = w.holdings) ∨
    (x = w.nextSlice ∧ w'.nextSlice = x + 1 ∧ w'.holdings = x ::ₘ w.holdings)
  slices : w'.slices = update w.slices x slice
  tasks : ∀ ref, w'.taskAt ref =
    if ref = slice.task then (w.taskAt ref).map (fun t => { t with sliceList := t.sliceList ++ [x] }) else w.taskAt ref
  pool : w'.pool = w.pool
  nextBatch : w'.nextBatch = w.nextBatch
  batches : ∀ b, w'.batches.lookup b = none ↔ w.batches.lookup b = none

theorem draw_draws (thread : Nat) (slice : Slice) (found : w.taskAt slice.task = some t) :
    Draws w slice (w.draw thread slice).1 (w.draw thread slice).2.1 := by
  have holds (v : World) (x : Nat) (tasks : v.taskAt slice.task = some t) :
      (v.modifyTask slice.task (fun t => { t with sliceList := t.sliceList ++ [x] })).holdings = x ::ₘ v.holdings := by
    have change := listed_modifyTask (f := fun t => { t with sliceList := t.sliceList ++ [x] }) tasks
    have grown : (v.modifyTask slice.task (fun t => { t with sliceList := t.sliceList ++ [x] })).listed =
      x ::ₘ v.listed := by
      apply add_right_cancel (b := (t.sliceList : Multiset Nat))
      rw [change, ← coe_add, coe_singleton, ← singleton_add, ← add_assoc]
      abel
    unfold holdings
    rw [grown, cached, caches_modifyTask, ← cached, add_cons]
  unfold draw allocate
  cases front : w.cache thread with
  | nil =>
    refine ⟨.inr ⟨rfl, by simp, holds _ _ found⟩, by simp,
      fun r => taskAt_modifyTask _ _ _ r, by simp, by simp, fun b => ?_⟩
    exact lookup_modifyTask_eq_none _ _ _ b
  | cons x rest =>
    have taken := cached_insert w thread rest
    rw [front, ← cons_coe, add_cons, ← cons_add] at taken
    have taken := add_right_cancel taken
    refine ⟨.inl ⟨mem_cached.mpr ⟨thread, by rw [front]; exact mem_cons_self⟩, by simp, ?_⟩, by simp,
      fun r => taskAt_modifyTask _ _ _ r, by simp, by simp, fun b => lookup_modifyTask_eq_none _ _ _ b⟩
    refine (holds { w with caches := w.caches.insert thread rest, slices := update w.slices x slice } x found).trans ?_
    unfold holdings
    rw [← cons_add]
    exact congrArg (· + w.listed) taken

theorem deallocateAll_spec (w : World) (thread : Nat) (xs : List Nat) :
    (w.deallocateAll thread xs).cached ≤ w.cached + xs ∧
      ∃ caches, w.deallocateAll thread xs = { w with caches := caches } := by
  induction xs generalizing w with
  | nil => exact ⟨by simp [deallocateAll], w.caches, rfl⟩
  | cons x xs ih =>
    obtain ⟨bound, caches, rest⟩ := ih (w.deallocate thread x)
    have first : (w.deallocate thread x).cached ≤ w.cached + {x} := by
      unfold deallocate
      split
      · exact Multiset.le_add_right _ _
      · have change := cached_insert w thread (w.cache thread ++ [x])
        apply le_of_eq
        apply add_right_cancel (b := (w.cache thread : Multiset Nat))
        rw [change, ← coe_add, coe_singleton]
        abel
    have same : ∃ caches, w.deallocate thread x = { w with caches := caches } := by
      unfold deallocate
      split
      · exact ⟨w.caches, rfl⟩
      · exact ⟨_, rfl⟩
    obtain ⟨before, here⟩ := same
    refine ⟨?_, caches, ?_⟩
    · refine le_trans bound ?_
      rw [← cons_coe, ← singleton_add, ← add_assoc]
      exact add_le_add_left first _
    · exact rest.trans (by rw [here])

end World

open World

/-! ## The invariant -/

/-- Each slice has one holder, and a slice in the list of a task points to that task. -/
structure Owned (w : World) : Prop where
  nodup : w.holdings.Nodup
  known : ∀ x ∈ w.holdings, x < w.nextSlice
  own : ∀ ref t x, w.taskAt ref = some t → x ∈ t.sliceList → (w.slices x).task = ref
  fresh : ∀ b, w.nextBatch ≤ b → w.batches.lookup b = none

/-- What has been handed over, or is about to be, has been counted by its task and is in its list. -/
structure Counted (w : World) (pool : List Nat) : Prop where
  once : pool.Nodup
  listed : ∀ x ∈ pool, ∃ t, w.taskAt (w.slices x).task = some t ∧ x ∈ t.sliceList
  counted : ∀ ref t, w.taskAt ref = some t → t.successSliceCount + t.failedSliceCount + w.waiting pool ref ≤ t.sliceCount
  finished : ∀ ref t, w.taskAt ref = some t → t.isFinished = true → w.waiting pool ref = 0

section
variable {w w' : World} {pool pool' : List Nat} {ref : TaskRef} {x : Nat} {t : TransferTask} {slice : Slice}

theorem Owned.withPool (owned : Owned w) (pool : List Nat) : Owned { w with pool := pool } :=
  ⟨owned.nodup, owned.known, owned.own, owned.fresh⟩

theorem Counted.withPool (counted : Counted w pool) (pool' : List Nat) : Counted { w with pool := pool' } pool :=
  ⟨counted.once, counted.listed, counted.counted, counted.finished⟩

theorem Counted.mem_listed (counted : Counted w pool) (member : x ∈ pool) : x ∈ w.listed := by
  obtain ⟨t, found, inside⟩ := counted.listed x member
  exact World.mem_listed.mpr ⟨_, t, found, inside⟩

theorem Owned.unshared (owned : Owned w) (counted : Counted w w.pool) : w.Unshared := by
  refine ⟨owned.nodup, fun x member thread inside => ?_⟩
  obtain ⟨-, -, apart⟩ := nodup_add.mp owned.nodup
  exact disjoint_left.mp apart (mem_cached.mpr ⟨thread, inside⟩) (counted.mem_listed member)

theorem Counted.sublist (counted : Counted w pool) (fewer : pool'.Sublist pool) : Counted w pool' := by
  have less (ref : TaskRef) : w.waiting pool' ref ≤ w.waiting pool ref := fewer.countP_le
  refine ⟨counted.once.sublist fewer, fun x member => counted.listed x (fewer.subset member), fun ref t found => ?_,
    fun ref t found ceased => ?_⟩
  · have := counted.counted ref t found
    have := less ref
    omega
  · have := counted.finished ref t found ceased
    have := less ref
    omega

variable {f : TransferTask → TransferTask} {r : TaskRef}

/-- A task after a change of the one at `ref`, and what it was before. -/
theorem World.taskAt_changed (changes : w'.taskAt r = if r = ref then (w.taskAt r).map f else w.taskAt r)
    (found : w'.taskAt r = some t) : ∃ t', w.taskAt r = some t' ∧ (r = ref ∧ f t' = t ∨ r ≠ ref ∧ t' = t) := by
  rw [changes] at found
  split at found
  next same =>
    obtain ⟨t', before, changed⟩ := map_eq_some_iff.mp found
    exact ⟨t', before, .inl ⟨same, changed⟩⟩
  next other => exact ⟨t, found, .inr ⟨other, rfl⟩⟩

theorem Owned.modify (owned : Owned w) (same : ∀ t, (f t).sliceList = t.sliceList) :
    Owned (w.modifyTask ref f) := by
  have holdings : (w.modifyTask ref f).holdings = w.holdings := by
    unfold World.holdings
    rw [listed_modifyTask_of_same same, cached, caches_modifyTask, ← cached]
  refine ⟨holdings ▸ owned.nodup, fun x member => ?_, fun r t x found inside => ?_, fun b above => ?_⟩
  · rw [nextSlice_modifyTask]
    exact owned.known x (holdings ▸ member)
  · rw [slices_modifyTask]
    obtain ⟨t', before, ⟨-, rfl⟩ | ⟨-, rfl⟩⟩ := taskAt_changed (taskAt_modifyTask w ref f r) found
    · exact owned.own r t' x before (same t' ▸ inside)
    · exact owned.own r t' x before inside
  · rw [nextBatch_modifyTask] at above
    exact (lookup_modifyTask_eq_none w ref f b).mpr (owned.fresh b above)

theorem Counted.modify (counted : Counted w pool) (once : pool'.Nodup)
    (listed : ∀ x ∈ pool', ∃ t, w.taskAt (w.slices x).task = some t ∧ x ∈ t.sliceList)
    (same : ∀ t, (f t).sliceList = t.sliceList) (others : ∀ r, r ≠ ref → w.waiting pool' r ≤ w.waiting pool r)
    (here : ∀ t, w.taskAt ref = some t →
      (f t).successSliceCount + (f t).failedSliceCount + w.waiting pool' ref ≤ (f t).sliceCount ∧
        ((f t).isFinished = true → w.waiting pool' ref = 0)) : Counted (w.modifyTask ref f) pool' := by
  have waiting (r : TaskRef) : (w.modifyTask ref f).waiting pool' r = w.waiting pool' r := by
    unfold World.waiting
    rw [slices_modifyTask]
  refine ⟨once, fun x member => ?_, fun r t found => ?_, fun r t found ceased => ?_⟩
  · obtain ⟨t, found, inside⟩ := listed x member
    rw [slices_modifyTask, taskAt_modifyTask, found]
    split
    · exact ⟨f t, rfl, (same t).symm ▸ inside⟩
    · exact ⟨t, rfl, inside⟩
  · rw [waiting]
    obtain ⟨t', before, ⟨rfl, rfl⟩ | ⟨other, rfl⟩⟩ := taskAt_changed (taskAt_modifyTask w ref f r) found
    · exact (here t' before).1
    · have := counted.counted r t' before
      have := others r other
      omega
  · rw [waiting]
    obtain ⟨t', before, ⟨rfl, rfl⟩ | ⟨other, rfl⟩⟩ := taskAt_changed (taskAt_modifyTask w ref f r) found
    · exact (here t' before).2 ceased
    · have := counted.finished r t' before ceased
      have := others r other
      omega

/-! ## Draws -/

/-- A task after a draw differs from what it was by its list at most. -/
theorem World.Draws.before (draws : Draws w slice w' x) (found : w'.taskAt ref = some t) :
    ∃ list, w.taskAt ref = some { t with sliceList := list } := by
  obtain ⟨t', before, ⟨-, rfl⟩ | ⟨-, rfl⟩⟩ := taskAt_changed (draws.tasks ref) found <;> exact ⟨t'.sliceList, before⟩

theorem Owned.not_listed (owned : Owned w) (draws : Draws w slice w' x) : x ∉ w.listed := by
  obtain ⟨-, -, apart⟩ := nodup_add.mp owned.nodup
  rcases draws.source with ⟨cached, -, -⟩ | ⟨rfl, -, -⟩
  · exact disjoint_left.mp apart cached
  · intro listed
    exact Nat.lt_irrefl _ (owned.known _ (mem_add.mpr (.inr listed)))

theorem Owned.draw (owned : Owned w) (draws : Draws w slice w' x) : Owned w' := by
  have absent := owned.not_listed draws
  refine ⟨?_, fun y member => ?_, fun r t y found inside => ?_, fun b above => ?_⟩
  · rcases draws.source with ⟨-, -, same⟩ | ⟨rfl, -, grown⟩
    · exact same ▸ owned.nodup
    · rw [grown]
      exact nodup_cons.mpr ⟨fun member => Nat.lt_irrefl _ (owned.known _ member), owned.nodup⟩
  · rcases draws.source with ⟨-, next, same⟩ | ⟨rfl, next, grown⟩
    · rw [next]
      exact owned.known y (same ▸ member)
    · rw [next]
      rcases mem_cons.mp (grown ▸ member) with rfl | old
      · exact Nat.lt_succ_self _
      · exact Nat.lt_succ_of_lt (owned.known y old)
  · -- what was in a list before is another slice
    have old (t' : TransferTask) (before : w.taskAt r = some t') (inside : y ∈ t'.sliceList) : (w'.slices y).task = r := by
      have other : y ≠ x := fun same => absent (same ▸ World.mem_listed.mpr ⟨r, t', before, inside⟩)
      rw [draws.slices, update_of_ne other]
      exact owned.own r t' y before inside
    obtain ⟨t', before, ⟨rfl, rfl⟩ | ⟨-, rfl⟩⟩ := taskAt_changed (draws.tasks r) found
    · rcases mem_append.mp inside with inside | last
      · exact old t' before inside
      · rw [List.mem_singleton.mp last, draws.slices, update_self]
    · exact old t' before inside
  · rw [draws.nextBatch] at above
    exact (draws.batches b).mpr (owned.fresh b above)

theorem Counted.draw (counted : Counted w pool) (owned : Owned w) (draws : Draws w slice w' x) :
    x ∉ pool ∧ Counted w' pool := by
  have absent : x ∉ pool := fun member => owned.not_listed draws (counted.mem_listed member)
  have kept (y : Nat) (member : y ∈ pool) : w'.slices y = w.slices y := by
    rw [draws.slices, update_of_ne (fun same : y = x => absent (same ▸ member))]
  have waiting (r : TaskRef) : w'.waiting pool r = w.waiting pool r :=
    countP_congr (fun y member => by rw [kept y member])
  refine ⟨absent, counted.once, fun y member => ?_, fun r t found => ?_, fun r t found ceased => ?_⟩
  · obtain ⟨t, found, inside⟩ := counted.listed y member
    rw [kept y member, draws.tasks, found]
    split
    · exact ⟨_, rfl, mem_append_left _ inside⟩
    · exact ⟨t, rfl, inside⟩
  · obtain ⟨list, before⟩ := draws.before found
    have count := counted.counted r _ before
    exact (waiting r).symm ▸ count
  · obtain ⟨list, before⟩ := draws.before found
    exact (waiting r).trans (counted.finished r _ before ceased)

end

end Mooncake.Engine.Batch
