import Mathlib.Algebra.Order.BigOperators.Group.Finset
import Mooncake.Master.Ownership
import Mooncake.Master.SegmentTurns

/-! The ledger of buffers: in every reachable state each live buffer is owned once, by the
entry of an object or by a put in flight. Nothing is assumed about the allocators. -/
namespace Mooncake.Master
open Program Function Option Multiset Finset World List
variable {A H : Type}

/-! What the heap does to the list of live buffers. -/

def ids (bag : Multiset (AllocatedBuffer H)) : Multiset Nat := bag.map AllocatedBuffer.object

theorem ids_add (a b : Multiset (AllocatedBuffer H)) : ids (a + b) = ids a + ids b := Multiset.map_add _ a b

section Heap
variable [BufferAllocatorBase A H] {valid : Nat → Bool}

theorem destroyAll_next (bs : List (AllocatedBuffer H)) (h : Heap A) :
    (h.destroyAll valid bs).nextBuffer = h.nextBuffer := by
  induction bs generalizing h with
  | nil => rfl
  | cons b bs ih => exact ih (h.destroy valid b)

theorem collect_next (g : Garbage H) (h : Heap A) : (h.collect valid g).nextBuffer = h.nextBuffer := by
  cases g with
  | replica r => exact destroyAll_next r.buffers h
  | object m => exact destroyAll_next m.buffers (h.uncountObject m)

theorem collectAll_next (gs : List (Garbage H)) (h : Heap A) : (h.collectAll valid gs).nextBuffer = h.nextBuffer := by
  induction gs generalizing h with
  | nil => rfl
  | cons g gs ih => exact (ih (h.collect valid g)).trans (collect_next g h)

variable {rest : Multiset Nat} {h : Heap A}

theorem destroyAll_live (bs : List (AllocatedBuffer H))
    (live : (h.live : Multiset Nat) = ids (bs : Multiset (AllocatedBuffer H)) + rest) :
    ((h.destroyAll valid bs).live : Multiset Nat) = rest := by
  induction bs generalizing h with
  | nil => exact live.trans (zero_add rest)
  | cons b bs ih =>
    have erased : ((h.destroy valid b).live : Multiset Nat) = (h.live : Multiset Nat).erase b.object :=
      (Multiset.coe_erase _ _).symm
    apply ih (h := h.destroy valid b)
    rw [erased, live, ids, ← cons_coe, Multiset.map_cons, cons_add, Multiset.erase_cons_head]
    rfl

theorem collect_live (g : Garbage H)
    (live : (h.live : Multiset Nat) = ids (g.buffers : Multiset (AllocatedBuffer H)) + rest) :
    ((h.collect valid g).live : Multiset Nat) = rest := by
  cases g with
  | replica r => exact destroyAll_live r.buffers live
  | object m => exact destroyAll_live (h := h.uncountObject m) m.buffers live

theorem collectAll_live (gs : List (Garbage H)) (live : (h.live : Multiset Nat) = ids (garbageBag gs) + rest) :
    ((h.collectAll valid gs).live : Multiset Nat) = rest := by
  induction gs generalizing h with
  | nil => exact live.trans (zero_add rest)
  | cons g gs ih =>
    rw [garbageBag, List.map_cons, List.sum_cons, ids_add, add_assoc] at live
    exact ih (h := h.collect valid g) (collect_live g live)

end Heap

/-! Who owns what. -/

def PutPhase.buffers : PutPhase H → List (AllocatedBuffer H)
  | .locked => []
  | .allocating held _ => held
  | .inserting replicas => replicas.flatMap Replica.buffers

def putBag (put : Option (PutTask H)) : Multiset (AllocatedBuffer H) := put.elim 0 (fun task => task.phase.buffers)

def cell (t : Shard H) (put : Option (PutTask H)) : Multiset (AllocatedBuffer H) :=
  Table.total (fun _ m => m.bag) t + putBag put

/-- All buffers that somebody owns. It is a sum over 1024 shards, which is never computed. -/
@[irreducible] def World.bag (w : World A H) : Multiset (AllocatedBuffer H) := ∑ i, cell (w.shards i) (w.busy i)

variable {w w' : World A H}

theorem bag_change (i : Fin kNumShards) (others : ∀ j, j ≠ i → w'.shards j = w.shards j ∧ w'.busy j = w.busy j) :
    w'.bag + cell (w.shards i) (w.busy i) = w.bag + cell (w'.shards i) (w'.busy i) := by
  have rest : ∑ j ∈ univ.erase i, cell (w'.shards j) (w'.busy j) =
      ∑ j ∈ univ.erase i, cell (w.shards j) (w.busy j) := by
    refine sum_congr rfl (fun j member => ?_)
    obtain ⟨shard, busy⟩ := others j (mem_erase.mp member).1
    rw [shard, busy]
  unfold bag
  rw [← add_sum_erase _ _ (mem_univ i), rest,
    ← add_sum_erase _ (fun j => cell (w.shards j) (w.busy j)) (mem_univ i)]
  rw [add_right_comm, add_comm (cell (w'.shards i) (w'.busy i)), add_right_comm]

theorem cell_le_bag (w : World A H) (i : Fin kNumShards) : cell (w.shards i) (w.busy i) ≤ w.bag := by
  unfold bag
  exact Finset.single_le_sum (f := fun j => cell (w.shards j) (w.busy j)) (fun _ _ => zero_le) (mem_univ i)

structure Ledger (w : World A H) : Prop where
  live : (w.heap.live : Multiset Nat) = ids w.bag
  distinct : w.heap.live.Nodup
  fresh : ∀ b ∈ w.heap.live, b < w.heap.nextBuffer

theorem ledger_start (p : Params) : Ledger (World.start p : World A H) := by
  refine ⟨?_, nodup_nil, fun b member => (nomatch member)⟩
  have empty : (start p : World A H).bag = 0 := by
    unfold bag
    exact Finset.sum_eq_zero (fun _ _ => rfl)
  rw [empty]
  rfl

theorem Ledger.shrink (x : Ledger w) {gone : Multiset (AllocatedBuffer H)} (bag : w.bag = gone + w'.bag)
    (live : ∀ rest, (w.heap.live : Multiset Nat) = ids gone + rest → (w'.heap.live : Multiset Nat) = rest)
    (next : w'.heap.nextBuffer = w.heap.nextBuffer) : Ledger w' := by
  have split : (w.heap.live : Multiset Nat) = ids gone + ids w'.bag := by rw [x.live, bag, ids_add]
  have after := live _ split
  have part : (w'.heap.live : Multiset Nat) ≤ w.heap.live := by
    rw [split, after]
    exact le_add_self
  refine ⟨after, ?_, ?_⟩
  · exact coe_nodup.mp (nodup_of_le part (coe_nodup.mpr x.distinct))
  · intro b member
    rw [next]
    exact x.fresh b (Multiset.mem_coe.mp (mem_of_le part (Multiset.mem_coe.mpr member)))

theorem Ledger.object_inj {w : World A H} (x : Ledger w) {bag : Multiset (AllocatedBuffer H)} (owned : bag ≤ w.bag) :
    (ids bag).Nodup := by
  have all : (ids w.bag).Nodup := x.live ▸ coe_nodup.mpr x.distinct
  exact nodup_of_le (map_le_map owned) all

/-! The puts in flight. -/

/-- What is known of a put between two steps; `reading` says that it holds the segment lock. -/
def PutPhase.Sound (valid : Nat → Bool) (reading : Prop) : PutPhase H → Prop
  | .locked => ¬reading
  | .allocating held program =>
    reading ∧ Meets (ownership (fun a => valid a = true)) Placed (held : Multiset (AllocatedBuffer H)) program
  | .inserting replicas => ¬reading ∧ replicas ≠ [] ∧ ∀ r ∈ replicas, r.status = .processing

structure InFlight (p : Params) (w : World A H) : Prop where
  put : ∀ i task, w.busy i = some task → p.getShardIndex task.key = i ∧
    (∀ m, (w.shards i).lookup task.key = some m → m.replicas = []) ∧
    task.phase.Sound w.isValid (i ∈ w.segmentReaders)
  idle : ∀ i, w.busy i = none → i ∉ w.segmentReaders
  single : w.segmentReaders.Nodup
  exclusive : w.mounting ≠ none → w.segmentReaders = []

theorem inFlight_start (p : Params) : InFlight p (World.start p : World A H) :=
  ⟨fun _ _ busy => (nomatch busy), fun _ _ member => (nomatch member), nodup_nil, fun _ => rfl⟩

theorem segmentFree_readers {w : World A H} (free : w.segmentFree = true) : w.segmentReaders = [] := by
  simp only [segmentFree, Bool.and_eq_true, List.isEmpty_iff] at free
  exact free.2

theorem PutPhase.Sound.congr {valid valid' : Nat → Bool} {reading reading' : Prop} {phase : PutPhase H}
    (h : phase.Sound valid reading) (same : reading' ↔ reading) (kept : reading → valid' = valid) :
    phase.Sound valid' reading' := by
  cases phase with
  | locked => exact fun now => h (same.mp now)
  | allocating held program => exact ⟨same.mpr h.1, kept h.1 ▸ h.2⟩
  | inserting replicas => exact ⟨fun now => h.1 (same.mp now), h.2⟩

theorem names_valid (m : SegmentManager) (config : ReplicateConfig) {a : Nat}
    (named : Placement.Names ⟨m.allocators, m.allocatorsByName, config⟩ a) : m.isAllocatorValid a = true := by
  simp only [SegmentManager.isAllocatorValid, Bool.or_eq_true, List.any_eq_true]
  rcases named with listed | ⟨n, listed⟩
  · exact Or.inl (Or.inl (contains_iff_mem.mpr listed))
  · refine Or.inl (Or.inr ?_)
    simp only at listed
    cases found : m.allocatorsByName.lookup n with
    | none =>
      rw [Table.listAt, found] at listed
      cases listed
    | some vs =>
      rw [Table.listAt_of_lookup found] at listed
      exact ⟨⟨n, vs⟩, AList.mem_lookup_iff.mp found, List.contains_iff_mem.mpr listed⟩

section Steps
variable [BufferAllocatorBase A H] {p : Params} {w w' : World A H} {e : Event}
variable (x : InFlight p w) (turn : SegmentTurn w w')
include x turn

/-- While a put reads the segments nothing changes them. -/
theorem segments_kept {i : Fin kNumShards}
    (reading : i ∈ w.segmentReaders) : w'.isValid = w.isValid := by
  have locked : w.segmentReaders ≠ [] := ne_nil_of_mem reading
  have unmounted : w.mounting = none := by
    by_contra mounting
    exact locked (x.exclusive mounting)
  unfold isValid
  cases turn with
  | same same => rw [same.segments]
  | begin task free segments => rw [segments]
  | mounted segment client was => exact nomatch unmounted.symm.trans was
  | reMounted segments client was => exact nomatch unmounted.symm.trans was
  | prepared id segment client s free => exact absurd (segmentFree_readers free) locked
  | committed id segment client dec next free => exact absurd (segmentFree_readers free) locked
  | expired clients was free => exact absurd (segmentFree_readers free) locked
  | finished commits next was all free => exact absurd (segmentFree_readers free) locked

theorem exclusive_kept (mounting : w'.mounting ≠ none) : w.segmentReaders = [] := by
  cases turn with
  | same same => exact x.exclusive (same.mounting ▸ mounting)
  | begin task free => exact segmentFree_readers free
  | mounted segment client was => exact x.exclusive (by rw [was]; exact some_ne_none _)
  | reMounted segments client was => exact x.exclusive (by rw [was]; exact some_ne_none _)
  | prepared id segment client s free => exact segmentFree_readers free
  | committed id segment client dec next free => exact segmentFree_readers free
  | expired clients was free => exact segmentFree_readers free
  | finished commits next was all free => exact segmentFree_readers free

theorem InFlight.keep (busy : w'.busy = w.busy)
    (readers : w'.segmentReaders = w.segmentReaders)
    (entries : ∀ i key, w.busy i ≠ none → (w'.shards i).lookup key = (w.shards i).lookup key) : InFlight p w' := by
  refine ⟨?_, ?_, readers ▸ x.single, fun mounting => readers ▸ exclusive_kept x turn mounting⟩
  · intro i task put
    rw [busy] at put
    obtain ⟨home, empty, phase⟩ := x.put i task put
    refine ⟨home, ?_, phase.congr (by rw [readers]) (segments_kept x turn)⟩
    rw [entries i task.key (by rw [put]; exact some_ne_none _)]
    exact empty
  · intro i free
    rw [busy] at free
    rw [readers]
    exact x.idle i free

theorem InFlight.update (i : Fin kNumShards) (put : Option (PutTask H))
    (busy : w'.busy = update w.busy i put) (shards : ∀ j, j ≠ i → w'.shards j = w.shards j)
    (others : ∀ j, j ≠ i → (j ∈ w'.segmentReaders ↔ j ∈ w.segmentReaders)) (single : w'.segmentReaders.Nodup)
    (exclusive : w'.mounting ≠ none → w'.segmentReaders = [])
    (here : ∀ task, put = some task → p.getShardIndex task.key = i ∧
      (∀ m, (w'.shards i).lookup task.key = some m → m.replicas = []) ∧
      task.phase.Sound w'.isValid (i ∈ w'.segmentReaders))
    (idle : put = none → i ∉ w'.segmentReaders) : InFlight p w' := by
  refine ⟨?_, ?_, single, exclusive⟩
  · intro j task found
    by_cases same : j = i
    · subst same
      rw [busy, update_self] at found
      exact here task found
    · rw [busy, update_of_ne same] at found
      obtain ⟨home, empty, phase⟩ := x.put j task found
      rw [shards j same]
      exact ⟨home, empty, phase.congr (others j same) (segments_kept x turn)⟩
  · intro j free
    rw [busy, update_apply] at free
    split at free
    next same => exact same ▸ idle free
    next other => exact (others j other).not.mpr (x.idle j free)

end Steps

theorem bag_congr (shards : w'.shards = w.shards) (busy : w'.busy = w.busy) : w'.bag = w.bag := by
  unfold bag
  rw [shards, busy]

theorem Ledger.same (x : Ledger w) (bag : w'.bag = w.bag) (live : w'.heap.live = w.heap.live)
    (next : w'.heap.nextBuffer = w.heap.nextBuffer) : Ledger w' :=
  ⟨by rw [live, bag, x.live], live ▸ x.distinct, by rw [live, next]; exact x.fresh⟩

theorem bag_same_cell (i : Fin kNumShards) (others : ∀ j, j ≠ i → w'.shards j = w.shards j ∧ w'.busy j = w.busy j)
    (same : cell (w'.shards i) (w'.busy i) = cell (w.shards i) (w.busy i)) : w'.bag = w.bag := by
  have change := bag_change i others
  rw [same] at change
  exact add_right_cancel change

variable {held : List (AllocatedBuffer H)}

theorem eraseP_object {b : AllocatedBuffer H} (member : b ∈ held)
    (distinct : (ids (held : Multiset (AllocatedBuffer H))).Nodup) :
    (held : Multiset (AllocatedBuffer H)) =
      b ::ₘ (held.eraseP (fun c => c.object = b.object) : List (AllocatedBuffer H)) := by
  obtain ⟨c, front, back, -, same, split, erased⟩ :=
    exists_of_eraseP (p := fun c => decide (c.object = b.object)) member (decide_eq_true rfl)
  have here : c ∈ held := split ▸ mem_append_right front mem_cons_self
  have injective := inj_on_of_nodup_map (coe_nodup.mp distinct)
  have equal : c = b := injective here member (of_decide_eq_true same)
  subst equal
  rw [erased, split]
  exact coe_eq_coe.mpr perm_middle

section Call
variable [BufferAllocatorBase A H]

theorem allocate_cases (h : Heap A) (id size : Nat) :
    ((h.allocate id size).2 = none ∧ (h.allocate id size).1.live = h.live ∧
      (h.allocate id size).1.nextBuffer = h.nextBuffer) ∨
    ∃ b : AllocatedBuffer H, (h.allocate id size).2 = some b ∧ b.object = h.nextBuffer ∧ b.allocator = id ∧
      b.size = size ∧ (h.allocate id size).1.live = h.nextBuffer :: h.live ∧
      (h.allocate id size).1.nextBuffer = h.nextBuffer + 1 := by
  unfold Heap.allocate
  split
  · exact Or.inl ⟨rfl, rfl, rfl⟩
  · simp only
    split
    · exact Or.inl ⟨rfl, rfl, rfl⟩
    · exact Or.inr ⟨_, rfl, rfl, rfl, rfl, rfl, rfl⟩

inductive Called (h h' : Heap A) (held held' : List (AllocatedBuffer H)) : Prop
  | none (same : held' = held) (live : h'.live = h.live) (next : h'.nextBuffer = h.nextBuffer)
  | made (b : AllocatedBuffer H) (more : held' = b :: held) (object : b.object = h.nextBuffer)
      (live : h'.live = h.nextBuffer :: h.live) (next : h'.nextBuffer = h.nextBuffer + 1)
  | gone (b : AllocatedBuffer H) (fewer : (held : Multiset (AllocatedBuffer H)) = b ::ₘ held')
      (live : h'.live = h.live.erase b.object) (next : h'.nextBuffer = h.nextBuffer)

/-- A call that the contract allows has the effect that the contract announces. -/
theorem perform_called {valid : Nat → Bool} {h h' : Heap A} {choice : List Nat} {op : AllocOp H} {answer : op.Answer}
    {scope : Nat → Prop}
    (done : h.perform valid choice op = some (h', answer))
    (owed : (ownership scope).requires (held : Multiset (AllocatedBuffer H)) op)
    (distinct : (ids (held : Multiset (AllocatedBuffer H))).Nodup) :
    (ownership scope).ensures held op answer (op.track held answer) ∧ Called h h' held (op.track held answer) := by
  cases op with
  | getSegmentName a =>
    cases done
    exact ⟨rfl, .none rfl rfl rfl⟩
  | getLargestFreeRegion a =>
    cases done
    exact ⟨rfl, .none rfl rfl rfl⟩
  | allocate a size =>
    have heap : (h.allocate a size).1 = h' := congrArg Prod.fst (some.inj done)
    have result : (h.allocate a size).2 = answer := congrArg Prod.snd (some.inj done)
    subst heap
    obtain ⟨failed, live, next⟩ | ⟨b, granted, object, allocator, size, live, next⟩ := allocate_cases (H := H) h a size
    · rw [failed] at result
      subst result
      exact ⟨rfl, .none rfl live next⟩
    · rw [granted] at result
      subst result
      exact ⟨⟨rfl, allocator, size⟩, .made b rfl object live next⟩
  | shuffle indices =>
    simp only [Heap.perform] at done
    split at done
    · rename_i order
      cases done
      exact ⟨⟨rfl, order⟩, .none rfl rfl rfl⟩
    · cases done
  | destroy b =>
    cases done
    have fewer := eraseP_object owed distinct
    exact ⟨fewer, .gone b fewer rfl rfl⟩

end Call

section Turns
variable [BufferAllocatorBase A H] {p : Params} {w w' : World A H} {e : Event}

theorem others_update {α : Type} {f f' : Fin kNumShards → α} {i : Fin kNumShards} {x : α}
    (changed : f' = update f i x) : ∀ j, j ≠ i → f' j = f j := by
  intro j different
  rw [changed, update_of_ne different]

omit [BufferAllocatorBase A H] in
theorem cell_swept {i : Fin kNumShards} (free : w.busy i = none) {t : Shard H} {gs : List (Garbage H)}
    (swept : Swept p w e (w.shards i) t gs) (shards : w'.shards = update w.shards i t)
    (idle : putBag (w'.busy i) = 0) :
    cell (w.shards i) (w.busy i) = garbageBag gs + cell (w'.shards i) (w'.busy i) := by
  rw [cell, cell, free, idle, shards, update_self, swept.split, add_zero, add_comm (garbageBag gs)]
  exact add_zero _

variable {gs : List (Garbage H)} {i : Fin kNumShards} {t : Shard H}

omit [BufferAllocatorBase A H] in
theorem cell_critical (free : w.busy i = none) (swept : Swept p w e (w.shards i) t gs)
    (shards : w'.shards = update w.shards i t) (locks : Locks p w e w' i) :
    (∀ j, j ≠ i → w'.busy j = w.busy j) ∧
      cell (w.shards i) (w.busy i) = garbageBag gs + cell (w'.shards i) (w'.busy i) := by
  rcases locks with same | ⟨key, sliceLengths, config, -, changed, -⟩
  · refine ⟨fun j _ => congrFun same j, cell_swept free swept shards ?_⟩
    rw [same, free]
    rfl
  · refine ⟨others_update changed, cell_swept free swept shards ?_⟩
    rw [changed, update_self]
    rfl

theorem ledger_critical (x : Ledger w) (free : w.busy i = none) (swept : Swept p w e (w.shards i) t gs)
    (shards : w'.shards = update w.shards i t) (heap : w'.heap = w.heap.collectAll w.isValid gs)
    (locks : Locks p w e w' i) : Ledger w' := by
  obtain ⟨busy, here⟩ := cell_critical free swept shards locks
  have change := bag_change i (fun j different => ⟨others_update shards j different, busy j different⟩)
  rw [here, ← add_assoc] at change
  refine x.shrink ((add_right_cancel change).symm.trans (add_comm _ _)) ?_ ?_
  · intro rest live
    rw [heap]
    exact collectAll_live gs live
  · rw [heap]
    exact collectAll_next gs w.heap

omit [BufferAllocatorBase A H] in
theorem bag_put {i : Fin kNumShards} {put : Option (PutTask H)} (shards : w'.shards = w.shards)
    (busy : w'.busy = update w.busy i put) : w'.bag + putBag (w.busy i) = w.bag + putBag put := by
  have change := bag_change i (fun j different => ⟨congrFun shards j, others_update busy j different⟩)
  rw [cell, cell, shards, busy, update_self, add_left_comm, add_left_comm w.bag] at change
  exact add_left_cancel change

omit [BufferAllocatorBase A H] in
theorem bag_abandon {i : Fin kNumShards} (shards : w'.shards = w.shards) (busy : w'.busy = update w.busy i none) :
    w.bag = putBag (w.busy i) + w'.bag := by
  rw [add_comm, bag_put shards busy]
  exact (add_zero w.bag).symm

omit [BufferAllocatorBase A H] in
theorem ledger_put (x : Ledger w) {i : Fin kNumShards} {put : Option (PutTask H)} (shards : w'.shards = w.shards)
    (busy : w'.busy = update w.busy i put) (same : putBag put = putBag (w.busy i))
    (live : w'.heap.live = w.heap.live) (next : w'.heap.nextBuffer = w.heap.nextBuffer) : Ledger w' := by
  have change := bag_put shards busy
  rw [same] at change
  exact x.same (add_right_cancel change) live next

variable {i : Fin kNumShards} {replicas : List (Replica H)} {task : PutTask H}

omit [BufferAllocatorBase A H] in
theorem ledger_call (x : Ledger w) {task' : PutTask H} {held held' : List (AllocatedBuffer H)}
    (shards : w'.shards = w.shards) (put : w.busy i = some task) (owned : task.phase.buffers = held)
    (busy : w'.busy = update w.busy i (some task')) (owns : task'.phase.buffers = held')
    (called : Called w.heap w'.heap held held') : Ledger w' := by
  have change := bag_put shards busy
  rw [put, putBag, putBag, elim_some, elim_some, owned, owns] at change
  cases called with
  | none same live next =>
    rw [same] at change
    exact x.same (add_right_cancel change) live next
  | made b more object live next =>
    rw [more, ← cons_coe, add_cons, ← cons_add] at change
    have bag := add_right_cancel change
    refine ⟨?_, ?_, ?_⟩
    · rw [live, bag, ids, Multiset.map_cons, object, ← cons_coe, x.live]
      rfl
    · rw [live]
      exact nodup_cons.mpr ⟨fun old => Nat.lt_irrefl _ (x.fresh _ old), x.distinct⟩
    · rw [live, next]
      intro c member
      rcases List.mem_cons.mp member with rfl | old
      · exact Nat.lt_succ_self _
      · exact Nat.lt_succ_of_lt (x.fresh c old)
  | gone b fewer live next =>
    rw [fewer, add_cons, ← cons_add] at change
    have bag : w.bag = {b} + w'.bag := (add_right_cancel change).symm.trans (Multiset.singleton_add b _).symm
    refine x.shrink bag ?_ next
    intro rest before
    rw [live, ← Multiset.coe_erase, before, ids, Multiset.map_singleton, Multiset.singleton_add,
      Multiset.erase_cons_head]

theorem putInsert_bag (put : w.busy i = some task) (phase : task.phase = .inserting replicas) :
    putBag (w.busy i) = (replicas.flatMap Replica.buffers : Multiset (AllocatedBuffer H)) ∧
      ((w.shards i).lookup task.key = none → (w.putInsert i task replicas).1.bag = w.bag) ∧
      ((w.shards i).lookup task.key ≠ none → w.bag = putBag (w.busy i) + (w.putInsert i task replicas).1.bag) := by
  have owned : putBag (w.busy i) = (replicas.flatMap Replica.buffers : Multiset (AllocatedBuffer H)) := by
    rw [put, putBag, elim_some, phase]
    rfl
  refine ⟨owned, ?_, ?_⟩
  · intro missing
    simp only [putInsert, setPut, missing]
    refine bag_same_cell i ?_ ?_
    · intro j different
      exact ⟨update_of_ne different _ _, update_of_ne different _ _⟩
    · simp only [cell, update_self, owned]
      rw [Table.total_insert_new _ missing, add_comm (Table.total _ _)]
      exact add_zero _
  · intro present
    obtain ⟨m, found⟩ := ne_none_iff_exists'.mp present
    simp only [putInsert, setPut, found]
    exact bag_abandon rfl rfl

theorem ledger_insert (x : Ledger w) (put : w.busy i = some task) (phase : task.phase = .inserting replicas) :
    Ledger (w.putInsert i task replicas).1 := by
  obtain ⟨owned, inserted, abandoned⟩ := putInsert_bag put phase
  cases found : (w.shards i).lookup task.key with
  | none =>
    refine x.same (inserted found) ?_ ?_
    · simp only [putInsert, setPut, found]
      rfl
    · simp only [putInsert, setPut, found]
      rfl
  | some m =>
    refine x.shrink (abandoned (by rw [found]; exact some_ne_none m)) ?_ ?_
    · intro rest live
      rw [owned] at live
      simp only [putInsert, setPut, found]
      exact collect_live (.object _) live
    · simp only [putInsert, setPut, found]
      exact collect_next _ _

end Turns

end Mooncake.Master
