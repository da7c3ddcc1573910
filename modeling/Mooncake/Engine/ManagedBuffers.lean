import Mathlib.Data.List.Range
import Mathlib.Algebra.Group.Nat.Defs
import Mooncake.Lib.Run
import Mooncake.Lib.Strides

/-! The managed buffers of the Python engine: sixteen stacks of free slabs, refilled by splitting a slab of the
next class, down from raw buffers that are allocated and registered whole. -/
namespace Mooncake.Engine.ManagedBuffers

open List Extent Strides Run Function Option
variable (classId : Nat)

/-- The table doubles from one class to the next. -/
def kSlabSizeKB : Nat := 8 * 2 ^ classId

def kMaxClassId : Nat := 15

def kDefaultBufferCapacity : Nat := 2 * 1024 * 1024 * 1024

def slabSize : Nat := 1024 * kSlabSizeKB classId

/-- The loop of `findClassId`, for `i` from one below the given class down to 0. -/
def findBelow (size : Nat) : Nat → Nat
  | 0 => 0
  | i + 1 => if slabSize i < size then i + 1 else findBelow size i

def findClassId (size : Nat) : Option Nat :=
  if slabSize kMaxClassId < size then none else some (findBelow size kMaxClassId)

/-- `raws` are the raw buffers now allocated and registered, `live` the buffers handed out and not yet freed. -/
structure Pool where
  freeList : Nat → List Nat
  raws : List (Nat × Nat)
  live : List (Nat × Nat)

namespace Pool

variable (s : Pool)

def push (classId buffer : Nat) : Pool :=
  { s with freeList := Function.update s.freeList classId (buffer :: s.freeList classId) }

/-- The top of a stack, which is popped. The assertions of the source exclude the empty stack. -/
def take : Nat × Pool :=
  match s.freeList classId with
  | [] => (0, s)
  | buffer :: rest => (buffer, { s with freeList := Function.update s.freeList classId rest })

variable (raw : Option Nat)

/-- `raw` is the address that the memory and its registration give, if both do. -/
def allocateRawBuffer (capacity : Nat) : Nat × Pool :=
  match raw with
  | none => (0, s)
  | some buffer => (buffer, { s with raws := (buffer, capacity) :: s.raws })

def split : Pool :=
  let taken := s.take (classId + 1)
  (taken.2.push classId taken.1).push classId (taken.1 + kSlabSizeKB classId * 1024)

/-- The class is the given number of levels below the largest one. -/
def doBuddyAllocate (raw : Option Nat) : Nat → Pool → Pool
  | 0, s =>
    let raw := s.allocateRawBuffer raw kDefaultBufferCapacity
    (strides kDefaultBufferCapacity (slabSize kMaxClassId) 0).foldl
      (fun s offset => s.push kMaxClassId (raw.1 + offset)) raw.2
  | levels + 1, s =>
    let classId := kMaxClassId - (levels + 1)
    (if s.freeList (classId + 1) = [] then doBuddyAllocate raw levels s else s).split classId

def allocateManagedBuffer (length : Nat) : Nat × Pool :=
  match findClassId length with
  | none => s.allocateRawBuffer raw length
  | some classId =>
    (if s.freeList classId = [] then s.doBuddyAllocate raw (kMaxClassId - classId) else s).take classId

def freeManagedBuffer (address length : Nat) : Pool :=
  match findClassId length with
  | none => { s with raws := s.raws.erase (address, length) }
  | some classId => s.push classId address

def initializeExt : Pool := doBuddyAllocate raw 0 ⟨fun _ => [], [], []⟩

def hold (b : Nat × Nat) : Pool := { s with live := b :: s.live }

def NeedsRaw (length : Nat) : Prop :=
  match findClassId length with
  | none => True
  | some classId => ∀ i, i ≤ kMaxClassId → classId ≤ i → s.freeList i = []

instance (s : Pool) (length : Nat) : Decidable (s.NeedsRaw length) := by
  unfold NeedsRaw
  cases findClassId length <;> infer_instance

end Pool

inductive Event
  | allocateManagedBuffer (length : Nat) (raw : Option Nat)
  | freeManagedBuffer (address length : Nat)

/-- What the operating system gives is not null and apart from what it has given. -/
def Fresh (raws : List (Nat × Nat)) (raw : Option Nat) (capacity : Nat) : Prop :=
  ∀ base ∈ raw, base ≠ 0 ∧ ∀ r ∈ raws, Apart (base, capacity) r

instance (v w : Nat × Nat) : Decidable (Apart v w) := inferInstanceAs (Decidable (_ ∨ _))

instance (raws : List (Nat × Nat)) (raw : Option Nat) (capacity : Nat) : Decidable (Fresh raws raw capacity) :=
  inferInstanceAs (Decidable (∀ base ∈ raw, _))

def rawCapacity (length : Nat) : Nat := if findClassId length = none then length else kDefaultBufferCapacity

variable (s : Pool)

/-- One call; a free names a live buffer with its length. -/
def step : Event → Option Pool
  | .allocateManagedBuffer length raw =>
    if Fresh s.raws raw (rawCapacity length) then
      let returned := s.allocateManagedBuffer raw length
      some (if returned.1 = 0 then returned.2 else returned.2.hold (returned.1, length))
    else none
  | .freeManagedBuffer address length =>
    if s.live.contains (address, length) then
      some ({ s with live := s.live.erase (address, length) }.freeManagedBuffer address length)
    else none

/-- The live buffers are pairwise apart, and each lies in one raw buffer. -/
def Pool.Disjoint : Prop :=
  s.live.Pairwise Apart ∧ ∀ b ∈ s.live, b.1 ≠ 0 ∧ ∃ r ∈ s.raws, r.1 ≤ b.1 ∧ b.1 + b.2 ≤ r.1 + r.2

/-- After the call the live buffers are disjoint, and a call whose raw allocation failed has returned zero. -/
def Sound (e : Event) (s' : Pool) : Prop :=
  s'.Disjoint ∧ ∀ length, e = .allocateManagedBuffer length none → s.NeedsRaw length →
    (s.allocateManagedBuffer none length).1 = 0

def DefaultSucceeds : Event → Prop
  | .allocateManagedBuffer length raw => findClassId length ≠ none → s.NeedsRaw length → raw ≠ none
  | .freeManagedBuffer _ _ => True

instance (s : Pool) (e : Event) : Decidable (DefaultSucceeds s e) := by
  cases e <;> unfold DefaultSucceeds <;> infer_instance

instance (s : Pool) : Decidable s.Disjoint := inferInstanceAs (Decidable (_ ∧ _))

/-! ### The blocks of the pool -/

variable (freeList : Nat → List Nat)

def free : List (Nat × Nat) :=
  (range (kMaxClassId + 1)).flatMap (fun i => (freeList i).map (·, slabSize i))

/-- What a live buffer occupies: its slab, or the whole raw buffer. -/
def extent (b : Nat × Nat) : Nat × Nat := (b.1, (findClassId b.2).elim b.2 slabSize)

def Pool.blocks : List (Nat × Nat) := free s.freeList ++ s.live.map extent

structure Tiled (s : Pool) : Prop where
  packed : Packed s.raws s.blocks
  mapped : ∀ r ∈ s.raws, r.1 ≠ 0

variable {s s' : Pool} {raw : Option Nat} {length classId buffer levels : Nat} {rest : List Nat}

theorem slabSize_pos (classId : Nat) : 0 < slabSize classId :=
  Nat.mul_pos (by decide) (Nat.mul_pos (by decide) (Nat.pow_pos (by decide)))

theorem slabSize_succ (classId : Nat) : slabSize (classId + 1) = slabSize classId + slabSize classId := by
  simp only [slabSize, kSlabSizeKB, Nat.pow_succ]
  omega

theorem findBelow_spec {i : Nat} (fits : length ≤ slabSize i) :
    findBelow length i ≤ i ∧ length ≤ slabSize (findBelow length i) := by
  induction i with
  | zero => exact ⟨Nat.le_refl _, fits⟩
  | succ i ih =>
    unfold findBelow
    split
    · exact ⟨Nat.le_refl _, fits⟩
    · next small =>
      obtain ⟨below, found⟩ := ih (by omega)
      exact ⟨Nat.le_succ_of_le below, found⟩

theorem findClassId_some (found : findClassId length = some classId) :
    classId ≤ kMaxClassId ∧ length ≤ slabSize classId := by
  unfold findClassId at found
  split at found
  · cases found
  · next small =>
    cases found
    exact findBelow_spec (by omega)

theorem length_pos_of_large (large : findClassId length = none) : 0 < length := by
  unfold findClassId at large
  split at large
  · omega
  · cases large

/-- The first component of `extent` is the address; the buffer fits into it. -/
theorem length_le_extent (b : Nat × Nat) : b.2 ≤ (extent b).2 := by
  cases found : findClassId b.2 with
  | none => simp [extent, found]
  | some classId => simpa [extent, found] using (findClassId_some found).2

/-! ### The stacks -/

theorem free_perm (below : classId ≤ kMaxClassId) (stack : List Nat) :
    (free (update freeList classId stack)).Perm
      (stack.map (·, slabSize classId)
        ++ ((range (kMaxClassId + 1)).erase classId).flatMap (fun i => (freeList i).map (·, slabSize i))) := by
  have member : classId ∈ range (kMaxClassId + 1) := mem_range.mpr (Nat.lt_succ_of_le below)
  refine ((perm_cons_erase member).flatMap_right _).trans (.of_eq ?_)
  rw [flatMap_cons, update_self]
  congr 1
  refine flatMap_congr fun i inside => ?_
  rw [update_of_ne (nodup_range.mem_erase_iff.mp inside).1]

theorem free_push (below : classId ≤ kMaxClassId) (buffer : Nat) (stack : List Nat) :
    (free (update freeList classId (buffer :: stack))).Perm
      ((buffer, slabSize classId) :: free (update freeList classId stack)) :=
  (free_perm freeList below _).trans ((free_perm freeList below stack).symm.cons _)

theorem push_top (s : Pool) (classId buffer : Nat) :
    (s.push classId buffer).freeList classId = buffer :: s.freeList classId :=
  update_self ..

theorem blocks_push (below : classId ≤ kMaxClassId) :
    (s.push classId buffer).blocks.Perm ((buffer, slabSize classId) :: s.blocks) := by
  have pushed := free_push s.freeList below buffer (s.freeList classId)
  rw [update_eq_self] at pushed
  exact pushed.append_right _

theorem blocks_take (below : classId ≤ kMaxClassId) (top : s.freeList classId = buffer :: rest) :
    s.blocks.Perm ((buffer, slabSize classId) :: (s.take classId).2.blocks) ∧ (s.take classId).1 = buffer := by
  have popped := free_push s.freeList below buffer rest
  rw [← top, update_eq_self] at popped
  simp only [Pool.take, top]
  exact ⟨popped.append_right _, trivial⟩

theorem blocks_hold (s : Pool) (b : Nat × Nat) : (s.hold b).blocks.Perm (extent b :: s.blocks) := perm_middle

theorem foldl_push (s : Pool) (buffer : Nat) (offsets : List Nat) :
    let s' := offsets.foldl (fun s offset => s.push kMaxClassId (buffer + offset)) s
    s'.blocks.Perm (offsets.map (fun offset => (buffer + offset, slabSize kMaxClassId)) ++ s.blocks) ∧ s'.raws = s.raws
      ∧ s'.live = s.live := by
  induction offsets generalizing s with
  | nil => exact ⟨.refl _, rfl, rfl⟩
  | cons offset offsets ih =>
    obtain ⟨blocks, raws, live⟩ := ih (s.push kMaxClassId (buffer + offset))
    refine ⟨blocks.trans (((blocks_push (Nat.le_refl _)).append_left _).trans ?_), raws, live⟩
    exact perm_middle

theorem slabs_packed (base : Nat) :
    Packed [(base, kDefaultBufferCapacity)]
      ((strides kDefaultBufferCapacity (slabSize kMaxClassId) 0).map fun offset =>
        (base + offset, slabSize kMaxClassId)) := by
  have positive := slabSize_pos kMaxClassId
  constructor
  · refine pairwise_map.mpr ((pairwise_strides positive).imp fun {a b} apart => .inl ?_)
    show base + a + slabSize kMaxClassId ≤ base + b
    omega
  · intro b member
    obtain ⟨offset, inside, rfl⟩ := mem_map.mp member
    obtain ⟨below, k, rfl⟩ := (mem_strides positive).mp inside
    refine ⟨positive, _, mem_singleton_self _, Nat.le_add_right _ _, ?_⟩
    -- the capacity is a whole number of slabs
    simp only [kDefaultBufferCapacity, slabSize, kSlabSizeKB, kMaxClassId] at below ⊢
    omega

/-- The stack of the class is not empty afterwards, and its top is not null even where the raw buffer is. -/
theorem doBuddyAllocate_top (raw : Option Nat) (levels : Nat) (s : Pool) :
    ∃ top rest, (s.doBuddyAllocate raw levels).freeList (kMaxClassId - levels) = top :: rest ∧ 0 < top := by
  cases levels with
  | zero =>
    have last : strides kDefaultBufferCapacity (slabSize kMaxClassId) 0
        = (range 7).map (· * slabSize kMaxClassId) ++ [7 * slabSize kMaxClassId] := by decide +kernel
    simp only [Pool.doBuddyAllocate, last, foldl_append, foldl_cons, foldl_nil, Nat.sub_zero]
    refine ⟨_, _, push_top .., Nat.add_pos_right _ ?_⟩
    exact Nat.mul_pos (by decide) (slabSize_pos _)
  | succ levels =>
    refine ⟨_, _, push_top .., Nat.add_pos_right _ ?_⟩
    exact Nat.mul_comm 1024 _ ▸ slabSize_pos _

theorem refill_tiled (tiled : Tiled s) (fresh : Fresh s.raws raw kDefaultBufferCapacity) (given : raw ≠ none) :
    Tiled (s.doBuddyAllocate raw 0) ∧ (s.doBuddyAllocate raw 0).live = s.live := by
  obtain ⟨base, rfl⟩ := ne_none_iff_exists'.mp given
  obtain ⟨mapped, apart⟩ := fresh base rfl
  obtain ⟨blocks, raws, live⟩ := foldl_push { s with raws := (base, kDefaultBufferCapacity) :: s.raws } base
    (strides kDefaultBufferCapacity (slabSize kMaxClassId) 0)
  refine ⟨⟨?_, ?_⟩, live⟩
  · refine Packed.perm ?_ blocks.symm
    exact raws ▸ tiled.packed.append apart (slabs_packed base)
  · intro r member
    rcases mem_cons.mp (raws ▸ member) with rfl | old
    · exact mapped
    · exact tiled.mapped r old

theorem split_tiled (tiled : Tiled s) (below : classId + 1 ≤ kMaxClassId) (some : s.freeList (classId + 1) ≠ []) :
    Tiled (s.split classId) ∧ (s.split classId).live = s.live := by
  obtain ⟨buffer, rest, top⟩ := exists_cons_of_ne_nil some
  obtain ⟨popped, address⟩ := blocks_take below top
  have kept : (s.take (classId + 1)).2.raws = s.raws ∧ (s.take (classId + 1)).2.live = s.live := by
    simp only [Pool.take, top, and_self]
  have halves := (slabSize_succ classId ▸ tiled.packed.perm popped).split
  have small : classId ≤ kMaxClassId := Nat.le_of_succ_le below
  refine ⟨⟨kept.1 ▸ halves.perm ?_, kept.1 ▸ tiled.mapped⟩, kept.2⟩
  rw [Pool.split, address, Nat.mul_comm]
  exact (Perm.swap ..).trans (((blocks_push small).symm.cons _).trans (blocks_push small).symm)

theorem doBuddyAllocate_tiled (tiled : Tiled s) (fresh : Fresh s.raws raw kDefaultBufferCapacity)
    (below : levels ≤ kMaxClassId)
    (given : (∀ i ≤ kMaxClassId, kMaxClassId - levels < i → s.freeList i = []) → raw ≠ none) :
    Tiled (s.doBuddyAllocate raw levels) ∧ (s.doBuddyAllocate raw levels).live = s.live := by
  induction levels with
  | zero => exact refill_tiled tiled fresh (given fun i low high => absurd high (Nat.not_lt.mpr low))
  | succ levels ih =>
    have next : kMaxClassId - (levels + 1) + 1 = kMaxClassId - levels := by omega
    rw [Pool.doBuddyAllocate]
    split
    · next empty =>
      have exhausted (above : ∀ i ≤ kMaxClassId, kMaxClassId - levels < i → s.freeList i = []) : raw ≠ none := by
        refine given fun i low high => ?_
        by_cases here : i = kMaxClassId - (levels + 1) + 1
        · exact here ▸ empty
        · exact above i low (by omega)
      obtain ⟨tiled₁, live⟩ := ih (by omega) exhausted
      obtain ⟨top, rest, stack, -⟩ := doBuddyAllocate_top raw levels s
      have some : (s.doBuddyAllocate raw levels).freeList (kMaxClassId - (levels + 1) + 1) ≠ [] := by
        rw [next, stack]
        exact cons_ne_nil _ _
      obtain ⟨tiled₂, same⟩ := split_tiled tiled₁ (by omega) some
      exact ⟨tiled₂, same.trans live⟩
    · next some => exact split_tiled tiled (by omega) some

/-! ### The calls -/

theorem tiled_initializeExt {base : Nat} (mapped : base ≠ 0) : Tiled (Pool.initializeExt (some base)) := by
  have bare : Tiled ⟨fun _ => [], [], []⟩ := by
    refine ⟨⟨?_, ?_⟩, fun _ none => nomatch none⟩
    · decide
    · decide
  refine (refill_tiled bare ?_ (some_ne_none _)).1
  rintro _ ⟨⟩
  exact ⟨mapped, fun _ none => nomatch none⟩

section
variable (tiled : Tiled s)
include tiled

/-- The live buffers lie in their extents. -/
theorem Tiled.disjoint : s.Disjoint := by
  have packed := tiled.packed
  constructor
  · refine (pairwise_map.mp (pairwise_append.mp packed.apart).2.1).imp fun {b c} apart => ?_
    have first := length_le_extent b
    have second := length_le_extent c
    simp only [Apart, extent] at apart first second ⊢
    omega
  · intro b member
    obtain ⟨-, r, raw, low, high⟩ := packed.inside (extent b) (mem_append_right _ (mem_map_of_mem member))
    have fits := length_le_extent b
    have mapped := tiled.mapped r raw
    simp only [extent] at low high fits
    exact ⟨by omega, r, raw, low, by omega⟩

/-- The stack from which a call of a class is served. -/
theorem served (fresh : Fresh s.raws raw kDefaultBufferCapacity) (below : classId ≤ kMaxClassId)
    (given : (∀ i ≤ kMaxClassId, classId ≤ i → s.freeList i = []) → raw ≠ none) :
    let s₁ := if s.freeList classId = [] then s.doBuddyAllocate raw (kMaxClassId - classId) else s
    Tiled s₁ ∧ s₁.freeList classId ≠ [] := by
  intro s₁
  unfold s₁
  split
  · next empty =>
    have same : kMaxClassId - (kMaxClassId - classId) = classId := Nat.sub_sub_self below
    obtain ⟨top, rest, stack, -⟩ := doBuddyAllocate_top raw (kMaxClassId - classId) s
    refine ⟨(doBuddyAllocate_tiled tiled fresh (Nat.sub_le _ _) fun above => given fun i low high => ?_).1, ?_⟩
    · rcases Nat.eq_or_lt_of_le high with rfl | more
      · exact empty
      · exact above i low (same.symm ▸ more)
    · rw [same] at stack
      exact stack ▸ cons_ne_nil _ _
  · next some => exact ⟨tiled, some⟩

theorem tiled_take (found : findClassId length = some classId) (some : s.freeList classId ≠ []) :
    let taken := s.take classId
    taken.1 ≠ 0 ∧ Tiled (taken.2.hold (taken.1, length)) := by
  obtain ⟨buffer, rest, top⟩ := exists_cons_of_ne_nil some
  obtain ⟨popped, address⟩ := blocks_take (findClassId_some found).1 top
  have raws : (s.take classId).2.raws = s.raws := by simp only [Pool.take, top]
  have packed := tiled.packed.perm popped
  obtain ⟨-, r, member, low, -⟩ := packed.inside _ mem_cons_self
  have mapped := tiled.mapped r member
  have whole : extent (buffer, length) = (buffer, slabSize classId) := by simp [extent, found]
  refine ⟨by omega, ?_, raws ▸ tiled.mapped⟩
  rw [address]
  exact raws ▸ packed.perm (whole ▸ (blocks_hold _ _).symm)

theorem large_tiled {base : Nat} (large : findClassId length = none) (fresh : Fresh s.raws (some base) length) :
    Tiled (Pool.hold { s with raws := (base, length) :: s.raws } (base, length)) := by
  obtain ⟨mapped, apart⟩ := fresh base rfl
  have whole : extent (base, length) = (base, length) := by simp [extent, large]
  have alone : Packed [(base, length)] [(base, length)] :=
    ⟨pairwise_singleton .., fun b member =>
      ⟨mem_singleton.mp member ▸ length_pos_of_large large, b, member, le_rfl, le_rfl⟩⟩
  have held := blocks_hold { s with raws := (base, length) :: s.raws } (base, length)
  rw [whole] at held
  constructor
  · exact (tiled.packed.append apart alone).perm held.symm
  · intro r member
    rcases mem_cons.mp member with rfl | old
    · exact mapped
    · exact tiled.mapped r old

theorem tiled_allocate (given : DefaultSucceeds s (.allocateManagedBuffer length raw))
    (fresh : Fresh s.raws raw (rawCapacity length)) :
    let returned := s.allocateManagedBuffer raw length
    Tiled (if returned.1 = 0 then returned.2 else returned.2.hold (returned.1, length)) := by
  cases found : findClassId length with
  | none =>
    cases raw with
    | none => simpa [Pool.allocateManagedBuffer, found, Pool.allocateRawBuffer] using tiled
    | some base =>
      rw [rawCapacity, if_pos found] at fresh
      have mapped := (fresh base rfl).1
      simpa [Pool.allocateManagedBuffer, found, Pool.allocateRawBuffer, mapped] using large_tiled tiled found fresh
  | some classId =>
    rw [rawCapacity, if_neg (by simp [found])] at fresh
    have needed (empty : ∀ i ≤ kMaxClassId, classId ≤ i → s.freeList i = []) : raw ≠ none :=
      given (by simp [found]) (by simpa only [Pool.NeedsRaw, found] using empty)
    obtain ⟨tiled₁, stack⟩ := served tiled fresh (findClassId_some found).1 needed
    obtain ⟨mapped, held⟩ := tiled_take tiled₁ found stack
    simp only [Pool.allocateManagedBuffer, found]
    rw [if_neg mapped]
    exact held

theorem tiled_free {address : Nat} (live : (address, length) ∈ s.live) :
    Tiled ({ s with live := s.live.erase (address, length) }.freeManagedBuffer address length) := by
  have left : s.blocks.Perm
      (extent (address, length) :: Pool.blocks { s with live := s.live.erase (address, length) }) :=
    (((perm_cons_erase live).map extent).append_left _).trans perm_middle
  have packed := tiled.packed.perm left
  cases found : findClassId length with
  | none =>
    have whole : extent (address, length) = (address, length) := by simp [extent, found]
    rw [whole] at packed
    simp only [Pool.freeManagedBuffer, found]
    exact ⟨packed.erase, fun r member => tiled.mapped r (mem_of_mem_erase member)⟩
  | some classId =>
    have whole : extent (address, length) = (address, slabSize classId) := by simp [extent, found]
    rw [whole] at packed
    simp only [Pool.freeManagedBuffer, found]
    exact ⟨packed.perm (blocks_push (findClassId_some found).1).symm, tiled.mapped⟩

end

theorem tiled_step (s : Pool) (e : Event) (s' : Pool) (tiled : Tiled s) (given : DefaultSucceeds s e)
    (called : step s e = some s') : Tiled s' := by
  cases e with
  | allocateManagedBuffer length raw =>
    obtain ⟨fresh, same⟩ := ite_none_right_eq_some.mp called
    cases same
    exact tiled_allocate tiled given fresh
  | freeManagedBuffer address length =>
    obtain ⟨live, same⟩ := ite_none_right_eq_some.mp called
    cases same
    exact tiled_free tiled (contains_iff_mem.mp live)

/-- A call that needs a raw buffer to split and gets none returns an address all the same. -/
theorem address_of_failed (small : findClassId length ≠ none) (needed : s.NeedsRaw length) :
    (s.allocateManagedBuffer none length).1 ≠ 0 := by
  obtain ⟨classId, found⟩ := ne_none_iff_exists'.mp small
  have below := (findClassId_some found).1
  simp only [Pool.NeedsRaw, found] at needed
  obtain ⟨top, rest, stack, positive⟩ := doBuddyAllocate_top none (kMaxClassId - classId) s
  rw [Nat.sub_sub_self below] at stack
  simp only [Pool.allocateManagedBuffer, found, needed classId below le_rfl, if_true, Pool.take, stack]
  omega

theorem sound_iff (s : Pool) (e : Event) (s' : Pool) (tiled : Tiled s) (called : step s e = some s') :
    Sound s e s' ↔ DefaultSucceeds s e := by
  constructor
  · rintro ⟨-, zero⟩
    cases e with
    | freeManagedBuffer address length => trivial
    | allocateManagedBuffer length raw =>
      rintro small needed rfl
      exact address_of_failed small needed (zero length rfl needed)
  · intro given
    refine ⟨(tiled_step s e s' tiled given called).disjoint, ?_⟩
    rintro length rfl needed
    by_cases found : findClassId length = none
    · simp only [Pool.allocateManagedBuffer, found, Pool.allocateRawBuffer]
    · exact absurd rfl (given found needed)

/-- From the pool that `initializeExt` fills, all calls of a run are sound exactly if none of them needs a raw
buffer to split and gets none. -/
theorem managed_buffers_sound_iff {base : Nat} (mapped : base ≠ 0) {events : List Event}
    (called : run step (Pool.initializeExt (some base)) events = some s') :
    Every step Sound (Pool.initializeExt (some base)) events
      ↔ Guarded step DefaultSucceeds (Pool.initializeExt (some base)) events :=
  every_iff_guarded_of_kept tiled_step sound_iff (tiled_initializeExt mapped) called

theorem managed_buffers_sound_three_calls :
    Every step Sound (Pool.initializeExt (some 4096))
      [.allocateManagedBuffer 5000 none, .allocateManagedBuffer (2 ^ 30) none,
        .allocateManagedBuffer (2 ^ 30) (some (2 ^ 40))] :=
  (managed_buffers_sound_iff (by decide) (eq_some_of_isSome (by decide +kernel))).mpr (by decide +kernel)

/-- The ninth buffer of the largest class, when the second raw buffer is refused, lies in no raw buffer. -/
theorem slab_of_refused_buffer :
    ∃ s, run step (Pool.initializeExt (some (2 ^ 40)))
      (replicate 9 (.allocateManagedBuffer (slabSize kMaxClassId) none)) = some s
      ∧ ¬ s.Disjoint := by
  have found : ((run step (Pool.initializeExt (some (2 ^ 40)))
      (replicate 9 (.allocateManagedBuffer (slabSize kMaxClassId) none))).any fun s => ¬ s.Disjoint) = true := by
    decide +kernel
  obtain ⟨ends, wrong⟩ := (any_eq_true_iff_get _ _).mp found
  exact ⟨_, (some_get ends).symm, of_decide_eq_true wrong⟩

end Mooncake.Engine.ManagedBuffers
