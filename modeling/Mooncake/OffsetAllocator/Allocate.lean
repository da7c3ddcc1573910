import Mathlib.Algebra.Order.BigOperators.Group.Finset
import Mooncake.OffsetAllocator.Tiling

/-! The representation invariant of the allocator core, its construction and its
preservation by `allocate`. -/
namespace Mooncake.Offset
open Function SmallFloat Finset List Allocator

def freeTiles (a : Allocator) (tiles : List Nat) : Finset Nat :=
  (tiles.filter (fun i => !(a.nodes i).used)).toFinset

variable {a : Allocator}

theorem mem_freeTiles {tiles : List Nat} {i : Nat} :
    i ∈ freeTiles a tiles ↔ i ∈ tiles ∧ (a.nodes i).used = false := by
  simp [freeTiles]

structure Represents (a : Allocator) (tiles : List Nat) (bins : Nat → List Nat) : Prop where
  tiling : Tiles a tiles
  nonempty : tiles ≠ []
  bins : Bins a bins (freeTiles a tiles)
  freeNodes : FreeNodes a tiles.toFinset
  grown : a.currentCapacity ≤ a.maxCapacity
  indices : a.maxCapacity < 2 ^ 32
  bytes : a.size ≤ maxBinSize

def Node.listing (n : Node) : Nat × Nat × Nat := (n.binListPrev, n.binListNext, n.dataSize)

theorem Bins.relink {bins : Nat → List Nat} {free : Finset Nat} (h : Bins a bins free) (nodes : Nat → Node)
    (same : ∀ j, (nodes j).listing = (a.nodes j).listing) : Bins { a with nodes := nodes } bins free := by
  have prev : (fun i => (nodes i).binListPrev) = fun i => (a.nodes i).binListPrev :=
    funext fun i => congrArg Prod.fst (same i)
  have next : (fun i => (nodes i).binListNext) = fun i => (a.nodes i).binListNext :=
    funext fun i => congrArg (fun l => l.2.1) (same i)
  have size : ∀ i, (nodes i).dataSize = (a.nodes i).dataSize := fun i => congrArg (fun l => l.2.2) (same i)
  constructor
  case linked =>
    intro b
    simp only [prev, next]
    exact h.linked b
  case head => exact h.head
  case nodup => exact h.nodup
  case mem =>
    intro b i
    simp only [size]
    exact h.mem b i
  case real => exact h.real
  case small =>
    intro i hi
    simp only [size]
    exact h.small i hi
  case masks => exact h.masks
  case storage => simp only [size, h.storage]
  case word => exact h.word

section Represents
variable {a : Allocator} {tiles : List Nat} {bins : Nat → List Nat}

section
variable (h : Represents a tiles bins)
include h

theorem Represents.index_real {i : Nat} (below : i < a.currentCapacity) : i ≠ unused := by
  have grown := h.grown
  have indices := h.indices
  unfold unused
  omega

theorem Represents.tile_real {i : Nat} (member : i ∈ tiles) : i ≠ unused :=
  h.index_real (h.freeNodes.below i (mem_toFinset.mpr member))

theorem Represents.tile_inside {i : Nat} (member : i ∈ tiles) :
    (a.nodes i).dataOffset + (a.nodes i).dataSize ≤ maxBinSize :=
  Nat.le_trans (Cover.covers_mem h.tiling.cover member).2 h.bytes

theorem Represents.tile_word {i : Nat} (member : i ∈ tiles) : (a.nodes i).dataSize < 2 ^ 32 := by
  have inside := h.tile_inside member
  unfold maxBinSize at inside
  omega

theorem Represents.bin_word {b : Nat} (occupied : bins b ≠ []) : b < 256 := by
  obtain ⟨i, member⟩ := exists_mem_of_ne_nil _ occupied
  obtain ⟨free, rfl⟩ := (h.bins.mem b i).mp member
  have small := roundDown_le (h.tile_word (mem_freeTiles.mp free).1)
  omega

theorem Represents.spare_index (room : a.freeOffset < a.currentCapacity) :
    a.freeNodes a.freeOffset ∉ tiles ∧ a.freeNodes a.freeOffset ≠ unused := by
  have spare := h.freeNodes.spare a.freeOffset (Nat.le_refl _) room
  exact ⟨fun member => spare.2 (mem_toFinset.mpr member), h.index_real spare.1⟩

end

theorem Tiles.place {pre post : List Nat} {x : Nat} (h : Tiles a (pre ++ x :: post)) :
    (a.nodes x).neighborPrev = pre.getLastD unused ∧ (a.nodes x).neighborNext = post.headD unused ∧
    x ∉ pre ++ post ∧ (pre ++ post).Nodup := by
  obtain ⟨prev, next⟩ := Linked.chain_member h.linked
  have perm : (pre ++ x :: post).Perm (x :: (pre ++ post)) := perm_middle
  have nodup := List.nodup_cons.mp (perm.nodup_iff.mp h.nodup)
  exact ⟨prev, next, nodup.1, nodup.2⟩

end Represents

/-- The blocks handed out, as the abstract content of the allocator: node, offset
and length of every used tile. -/
def Held (a : Allocator) (tiles : List Nat) (i offset length : Nat) : Prop :=
  i ∈ tiles ∧ (a.nodes i).extent = (offset, length, true)

theorem held_cons {x : Nat} {tiles : List Nat} {i o l : Nat} :
    Held a (x :: tiles) i o l ↔ (i = x ∧ (a.nodes x).extent = (o, l, true)) ∨ Held a tiles i o l := by
  unfold Held
  rw [List.mem_cons, or_and_right]
  exact or_congr_left (and_congr_right fun same => by rw [same])

theorem not_held_nil {i o l : Nat} : ¬ Held a [] i o l := fun held => not_mem_nil held.1

section Splice
variable {a s : Allocator} (pre new post : List Nat)

theorem mem_splice {j : Nat} : j ∈ pre ++ (new ++ post) ↔ j ∈ new ∨ j ∈ pre ++ post := by
  simp only [mem_append, or_left_comm]

variable (extents : ∀ j ∈ pre ++ post, (s.nodes j).extent = (a.nodes j).extent)
include extents

theorem freeTiles_splice :
    freeTiles s (pre ++ (new ++ post)) = freeTiles s new ∪ freeTiles a (pre ++ post) := by
  have used : ∀ j ∈ pre ++ post, (s.nodes j).used = (a.nodes j).used :=
    fun j stays => congrArg (fun e => e.2.2) (extents j stays)
  ext j
  rw [mem_union, mem_freeTiles, mem_freeTiles, mem_freeTiles, mem_splice, or_and_right]
  exact or_congr_right (and_congr_right fun stays => by rw [used j stays])

theorem held_splice (i o l : Nat) :
    Held s (pre ++ (new ++ post)) i o l ↔ Held s new i o l ∨ Held a (pre ++ post) i o l := by
  unfold Held
  rw [mem_splice, or_and_right]
  exact or_congr_right (and_congr_right fun stays => by rw [extents i stays])

end Splice

/-- Everything else follows from the bounds, which no operation changes. -/
theorem Represents.edit {a s : Allocator} {tiles tiles' : List Nat} {bins bins' : Nat → List Nat}
    (h : Represents a tiles bins) (bounds : s.bounds = a.bounds) (tiling : Tiles s tiles')
    (nonempty : tiles' ≠ []) (listed : Bins s bins' (freeTiles s tiles'))
    (nodes : FreeNodes s tiles'.toFinset) : Represents s tiles' bins' := by
  simp only [Allocator.bounds, Prod.mk.injEq] at bounds
  exact ⟨tiling, nonempty, listed, nodes, bounds.2.1 ▸ bounds.2.2 ▸ h.grown, bounds.2.2 ▸ h.indices, bounds.1 ▸ h.bytes⟩

theorem blank_bins (size init limit : Nat) : Bins (blank size init limit) (fun _ => []) ∅ := by
  constructor
  case linked => exact fun _ => trivial
  case head => exact fun _ => rfl
  case nodup => exact fun _ => nodup_nil
  case mem => simp
  case real => simp
  case small => simp
  case masks => exact ⟨by simp [blank], by simp [blank]⟩
  case storage => rfl
  case word => exact Nat.two_pow_pos 32

theorem blank_freeNodes (size init limit : Nat) : FreeNodes (blank size init limit) ∅ := by
  constructor
  · rfl
  · simp
  · intro j _ high
    have high : j < init := high
    simp [blank, high]
  · rintro j ⟨_, jhigh⟩ k ⟨_, khigh⟩ eq
    have jhigh : j < init := jhigh
    have khigh : k < init := khigh
    simpa [blank, jhigh, khigh] using eq

theorem create_represents {size init limit : Nat} (bytes : size ≤ maxBinSize) (some_node : 1 ≤ init)
    (init_word : init < 2 ^ 32) (limit_word : limit < 2 ^ 32) :
    (create size init limit).size = size ∧ (∀ i o l, ¬ Held (create size init limit) [0] i o l) ∧
    ∃ bins, Represents (create size init limit) [0] bins := by
  have taken : (blank size init limit).freeNodes (blank size init limit).freeOffset = 0 := by
    simp [blank]
  have apart : unused ≠ 0 := by decide
  have room : (blank size init limit).freeStorage + size < 2 ^ 32 := by
    simp only [maxBinSize, blank] at bytes ⊢
    omega
  have frame := insertNodeIntoBin_frame (blank size init limit) size 0
  have bounds := frame.2.2.2.2
  simp only [Allocator.bounds, Prod.mk.injEq] at bounds
  have node : ((Allocator.create size init limit).nodes 0) = { dataSize := size } := by
    refine (insertNodeIntoBin_node 0 taken apart 0).trans ?_
    simp [Allocator.blank]
  have bins : Bins (Allocator.create size init limit)
      (update (fun _ => []) (uintToFloatRoundDown size) [0]) {0} :=
    insertNodeIntoBin_bins 0 (blank_bins size init limit) taken (by simp) apart.symm bytes room
  have nodes := (blank_freeNodes size init limit).take some_node frame.2.2.1 frame.2.2.2.1 frame.2.2.2.2
  rw [taken] at nodes
  refine ⟨bounds.1, ?_, update (fun _ => []) (uintToFloatRoundDown size) [0], ?_⟩
  · rintro i o l ⟨inside, extent⟩
    cases List.mem_singleton.mp inside
    have used : ((Allocator.create size init limit).nodes 0).used = true := congrArg (fun e => e.2.2) extent
    rw [node] at used
    cases used
  constructor
  case tiling =>
    constructor
    · exact ⟨congrArg Node.neighborPrev node, congrArg Node.neighborNext node, trivial⟩
    · exact nodup_singleton 0
    · refine ⟨congrArg Node.dataOffset node, ?_⟩
      simp only [node, Nat.zero_add]
      exact bounds.1.symm
    · exact isChain_singleton 0
  case nonempty => simp
  case bins =>
    have free : freeTiles (Allocator.create size init limit) [0] = {0} := by simp [freeTiles, node]
    rw [free]
    exact bins
  case freeNodes => exact nodes
  case grown =>
    refine (Nat.le_of_eq bounds.2.1).trans (Nat.le_trans ?_ (Nat.le_of_eq bounds.2.2.symm))
    exact Nat.le_max_left init limit
  case indices =>
    refine Nat.lt_of_le_of_lt (Nat.le_of_eq bounds.2.2) ?_
    exact Nat.max_lt.mpr ⟨init_word, limit_word⟩
  case bytes => exact (Nat.le_of_eq bounds.1).trans bytes

section Split
variable {a : Allocator} {bins : Nat → List Nat} {free : Finset Nat} {x y : Nat}

theorem splitReminder_block (reminder : Nat) (h : Bins a bins free) (taken : a.freeNodes a.freeOffset = y)
    (fresh : y ∉ free) (real : y ≠ unused) (apart : y ≠ x) (behind : (a.nodes x).neighborNext ≠ y)
    (forward : (a.nodes x).neighborNext ≠ x) (j : Nat) :
    ((a.splitReminder x reminder).nodes j).block =
      if j = x then { a.nodes x with neighborNext := y }.block
      else if j = y then
        (add32 (a.nodes x).dataOffset (a.nodes x).dataSize, reminder, x, (a.nodes x).neighborNext, false)
      else if (a.nodes x).neighborNext ≠ unused ∧ j = (a.nodes x).neighborNext then
        { a.nodes j with neighborPrev := y }.block
      else (a.nodes j).block := by
  have index := insertNodeIntoBin_index a reminder (add32 (a.nodes x).dataOffset (a.nodes x).dataSize)
  rw [taken] at index
  have block := insertNodeIntoBin_block (add32 (a.nodes x).dataOffset (a.nodes x).dataSize) taken
    (h.head_ne_fresh fresh real (SmallFloat.uintToFloatRoundDown reminder))
  have blockX := block x
  rw [if_neg apart.symm] at blockX
  simp only [Node.block, Prod.mk.injEq] at blockX
  simp only [splitReminder, index, blockX.2.2.2.1, modifyNode_node, ite_modifyNode_node]
  have blockJ := block j
  by_cases atX : j = x
  · subst atX
    simp only [if_true, apart.symm, if_false, forward.symm, and_false]
    rw [if_neg apart.symm] at blockJ
    simp only [Node.block, Prod.mk.injEq] at blockJ ⊢
    exact ⟨blockJ.1, blockJ.2.1, blockJ.2.2.1, trivial, blockJ.2.2.2.2⟩
  by_cases atY : j = y
  · subst atY
    simp only [atX, if_false, if_true, behind.symm, and_false]
    rw [if_pos rfl] at blockJ
    simp only [Node.block, Prod.mk.injEq] at blockJ ⊢
    exact ⟨blockJ.1, blockJ.2.1, trivial, trivial, blockJ.2.2.2.2⟩
  rw [if_neg atY] at blockJ
  simp only [atX, atY, if_false]
  by_cases seam : (a.nodes x).neighborNext ≠ unused ∧ j = (a.nodes x).neighborNext
  · rw [if_pos seam, if_pos seam, ← seam.2]
    simp only [Node.block, Prod.mk.injEq] at blockJ ⊢
    exact ⟨blockJ.1, blockJ.2.1, trivial, blockJ.2.2.2.1, blockJ.2.2.2.2⟩
  · rw [if_neg seam, if_neg seam]
    exact blockJ

theorem splitReminder_bins (x reminder : Nat) (h : Bins a bins free) (taken : a.freeNodes a.freeOffset = y)
    (fresh : y ∉ free) (real : y ≠ unused) (small : reminder ≤ maxBinSize)
    (room : a.freeStorage + reminder < 2 ^ 32) :
    ∃ bins', Bins (a.splitReminder x reminder) bins' (insert y free) := by
  have inserted := insertNodeIntoBin_bins (add32 (a.nodes x).dataOffset (a.nodes x).dataSize) h taken fresh real
    small room
  refine ⟨update bins (uintToFloatRoundDown reminder) (y :: bins (uintToFloatRoundDown reminder)), ?_⟩
  have nodes : a.splitReminder x reminder =
      { (a.insertNodeIntoBin reminder (add32 (a.nodes x).dataOffset (a.nodes x).dataSize)).1 with
        nodes := (a.splitReminder x reminder).nodes } := by
    simp only [splitReminder]
    split <;> rfl
  rw [nodes]
  refine inserted.relink _ ?_
  intro j
  simp only [splitReminder]
  refine (modifyNode_keep Node.listing ?_ _ _ _).trans ((modifyNode_keep Node.listing ?_ _ _ _).trans ?_)
  · exact fun _ => rfl
  · exact fun _ => rfl
  · split
    · refine modifyNode_keep Node.listing ?_ _ _ _
      exact fun _ => rfl
    · rfl

theorem splitReminder_frame (a : Allocator) (x reminder : Nat) :
    (a.splitReminder x reminder).freeNodes = a.freeNodes ∧
    (a.splitReminder x reminder).freeOffset = a.freeOffset + 1 ∧
    (a.splitReminder x reminder).bounds = a.bounds := by
  have frame := insertNodeIntoBin_frame a reminder (add32 (a.nodes x).dataOffset (a.nodes x).dataSize)
  simp only [splitReminder]
  split <;> exact frame.2.2

end Split

section AllocateFrom
variable {a : Allocator} {tiles : List Nat} {bins : Nat → List Nat} {b x R : Nat} {rest : List Nat}

theorem extent_of_block {m n : Node} (same : m.block = n.block) : m.extent = n.extent := by
  obtain ⟨offset, size, -, -, used⟩ := block_eq.mp same
  simp only [Node.extent, Prod.mk.injEq]
  exact ⟨offset, size, used⟩

theorem bin_head_tile (h : Represents a tiles bins) (list : bins b = x :: rest) :
    a.binIndices b = x ∧ x ∈ tiles ∧ (a.nodes x).used = false := by
  have member : x ∈ freeTiles a tiles := ((h.bins.mem b x).mp (by rw [list]; simp)).1
  exact ⟨by rw [h.bins.head, list]; rfl, mem_freeTiles.mp member⟩

/-- The node fits exactly: the tiling stays and the tile becomes used. -/
theorem takeNode_represents (h : Represents a tiles bins) (list : bins b = x :: rest)
    (exact_fit : (a.nodes x).dataSize = R) :
    Represents (a.takeNode b R) tiles (update bins b rest) ∧
    ∀ i o l, Held (a.takeNode b R) tiles i o l ↔
      (i = x ∧ o = (a.nodes x).dataOffset ∧ l = R) ∨ Held a tiles i o l := by
  obtain ⟨head, tile, spare⟩ := bin_head_tile h list
  have frame := takeNode_frame a b R
  have kept : ∀ j, ((a.takeNode b R).nodes j).block =
      { a.nodes j with used := decide (j = x) || (a.nodes j).used }.block := by
    intro j
    rw [takeNode_block R head j]
    split
    next same => simp [Node.block, same, exact_fit]
    next other => simp [other]
  have used := fun j => (block_eq.mp (kept j)).2.2.2.2
  constructor
  · apply h.edit frame.2.2.1 _ h.nonempty _ (h.freeNodes.congr frame.1 frame.2.1 frame.2.2.1)
    · exact h.tiling.mono (congrArg Prod.fst frame.2.2.1) kept (fun j busy => by simp [busy])
    · have free : freeTiles (a.takeNode b R) tiles = (freeTiles a tiles).erase x := by
        ext j
        simp only [mem_freeTiles, mem_erase, used, Bool.or_eq_false_iff, decide_eq_false_iff_not]
        tauto
      rw [free]
      exact takeNode_bins R h.bins list
  · intro i o l
    rw [Held, extent_of_block (kept i)]
    by_cases eq : i = x
    · subst eq
      simp [Held, Node.extent, tile, spare, exact_fit, eq_comm]
    · simp [Held, Node.extent, eq]

section Place
variable {s : Allocator} {pre post : List Nat} {y reminder : Nat} (h : Represents a (pre ++ x :: post) bins)
  (room : a.freeOffset < a.currentCapacity) (list : bins b = x :: rest) (cut : R + reminder = (a.nodes x).dataSize)
  (taken : a.freeNodes a.freeOffset = y) (split : s = (a.takeNode b R).splitReminder x reminder)
include h room list cut taken split

omit list cut split in
theorem split_fresh : y ∉ pre ++ x :: post ∧ y ≠ unused ∧ (a.takeNode b R).freeNodes (a.takeNode b R).freeOffset = y ∧
    y ∉ (freeTiles a (pre ++ x :: post)).erase x := by
  obtain ⟨fresh, real⟩ := h.spare_index room
  have frame := takeNode_frame a b R
  rw [frame.1, frame.2.1, ← taken]
  exact ⟨fresh, real, rfl, fun member => fresh (mem_freeTiles.mp (Finset.mem_of_mem_erase member)).1⟩

theorem split_nodes :
    (s.nodes x).block = ((a.nodes x).dataOffset, R, pre.getLastD unused, y, true) ∧
    (s.nodes y).block = ((a.nodes x).dataOffset + R, reminder, x, post.headD unused, false) ∧
    ∀ j ∈ pre ++ post, (s.nodes j).block =
      if post.head? = some j then { a.nodes j with neighborPrev := y }.block else (a.nodes j).block := by
  obtain ⟨head, tile, -⟩ := bin_head_tile h list
  obtain ⟨fresh, real, takenT, freshT⟩ := split_fresh (b := b) (R := R) h room taken
  obtain ⟨prev, next, alone, -⟩ := h.tiling.place
  have inside := h.tile_inside tile
  have tile_of : ∀ j ∈ pre ++ post, j ∈ pre ++ x :: post ∧ j ≠ x := by
    intro j hj
    refine ⟨?_, fun eq => alone (eq ▸ hj)⟩
    rcases mem_append.mp hj with hj | hj <;> simp [hj]
  have real_post : ∀ j ∈ post, j ≠ unused := fun j hj => h.tile_real (tile_of j (by simp [hj])).1
  have atX := takeNode_block R head x
  rw [if_pos rfl, block_eq] at atX
  have nextT : ((a.takeNode b R).nodes x).neighborNext = post.headD unused := atX.2.2.2.1.trans next
  have behind : post.headD unused ≠ y := by
    cases post with
    | nil => exact real.symm
    | cons z zs => exact fun eq => fresh (eq ▸ (tile_of z (by simp)).1)
  have forward : post.headD unused ≠ x := by
    cases post with
    | nil => exact (h.tile_real tile).symm
    | cons z zs => exact (tile_of z (by simp)).2
  have apart : y ≠ x := fun eq => fresh (eq ▸ tile)
  have block := splitReminder_block reminder (takeNode_bins R h.bins list) takenT freshT real apart
    (nextT ▸ behind) (nextT ▸ forward)
  rw [← split] at block
  refine ⟨?_, ?_, ?_⟩
  · rw [block x, if_pos rfl]
    simp only [Node.block, Prod.mk.injEq]
    exact ⟨atX.1, atX.2.1, atX.2.2.1.trans prev, trivial, atX.2.2.2.2⟩
  · rw [block y, if_neg apart, if_pos rfl, nextT, atX.1, atX.2.1]
    have word : add32 (a.nodes x).dataOffset R = (a.nodes x).dataOffset + R := by
      unfold add32 maxBinSize at *
      omega
    rw [word]
  · intro j hj
    obtain ⟨tileJ, neX⟩ := tile_of j hj
    have neY : j ≠ y := fun eq => fresh (eq ▸ tileJ)
    have kept := takeNode_block R head j
    rw [if_neg neX] at kept
    rw [block j, if_neg neX, if_neg neY, nextT]
    simp only [head_pointer real_post]
    split
    · rw [block_eq] at kept ⊢
      exact ⟨kept.1, kept.2.1, rfl, kept.2.2.2.1, kept.2.2.2.2⟩
    · exact kept

omit h list cut taken room in
theorem split_bounds : s.bounds = a.bounds := by
  rw [split]
  exact (splitReminder_frame (a.takeNode b R) x reminder).2.2.trans (takeNode_frame a b R).2.2.1

theorem split_tiles : Tiles s (pre ++ ([x, y] ++ post)) := by
  obtain ⟨fresh, -⟩ := split_fresh (b := b) (R := R) h room taken
  obtain ⟨-, -, alone, nodup⟩ := h.tiling.place
  obtain ⟨atX, atY, off⟩ := split_nodes h room list cut taken split
  simp only [Node.block, Prod.mk.injEq] at atX atY
  have disjoint := disjoint_of_nodup_append nodup
  apply Tiles.replace pre [x] [x, y] post h.tiling (congrArg Prod.fst (split_bounds split))
  case nodup =>
    have perm : (pre ++ ([x, y] ++ post)).Perm (x :: y :: (pre ++ post)) :=
      perm_middle.trans (perm_middle.cons x)
    rw [perm.nodup_iff]
    simp only [List.mem_append, List.mem_cons, not_or] at fresh alone
    simp only [List.nodup_cons, List.mem_cons, List.mem_append, not_or]
    exact ⟨⟨Ne.symm fresh.2.1, alone⟩, ⟨fresh.1, fresh.2.2⟩, nodup⟩
  case mid => exact ⟨atX.2.2.1, atX.2.2.2.1, atY.2.2.1, atY.2.2.2.1, trivial⟩
  case bytes =>
    rintro lo hi ⟨start, stop⟩
    simp only [Cover.Covers] at start stop ⊢
    rw [atX.1, atX.2.1, atY.1, atY.2.1]
    omega
  case before =>
    intro j hj
    have notfirst : ¬ post.head? = some j := fun first => disjoint hj (mem_of_mem_head? first)
    rw [off j (by simp [hj]), if_neg notfirst]
    split
    · rename_i last
      rw [block_eq]
      exact ⟨rfl, rfl, rfl, Linked.chain_seam h.tiling.linked last, rfl⟩
    · rfl
  case after => exact fun j hj => off j (by simp [hj])
  case gaps => exact isChain_pair.mpr (Or.inl atX.2.2.2.2)
  case left =>
    intro i _ j hj
    cases hj
    exact Or.inr atX.2.2.2.2
  case right =>
    -- The reminder lies before the old successor of `x`, which is used because `x` was free.
    obtain ⟨-, -, spare⟩ := bin_head_tile h list
    have chain := (isChain_append.mp h.tiling.merged).2.1
    intro i _ j hj
    cases post with
    | nil => cases hj
    | cons z zs =>
      cases hj
      have busy := (isChain_cons_cons.mp chain).1.resolve_left (by simp [spare])
      have same := off j (by simp)
      rw [head?_cons, if_pos rfl, block_eq] at same
      exact Or.inr (same.2.2.2.2.trans busy)

/-- The node is too large: it is cut, and the reminder goes back into a bin. -/
theorem split_represents :
    (∃ bins', Represents s (pre ++ ([x, y] ++ post)) bins') ∧
    ∀ i o l, Held s (pre ++ ([x, y] ++ post)) i o l ↔
      (i = x ∧ o = (a.nodes x).dataOffset ∧ l = R) ∨ Held a (pre ++ x :: post) i o l := by
  obtain ⟨head, tile, spare⟩ := bin_head_tile h list
  obtain ⟨fresh, real, takenT, freshT⟩ := split_fresh (b := b) (R := R) h room taken
  obtain ⟨-, -, alone, -⟩ := h.tiling.place
  have inside := h.tile_inside tile
  obtain ⟨atX, atY, off⟩ := split_nodes h room list cut taken split
  have frameT := takeNode_frame a b R
  have frame := splitReminder_frame (a.takeNode b R) x reminder
  have binsT := takeNode_bins R h.bins list
  have storage : (a.takeNode b R).freeStorage + (a.nodes x).dataSize = a.freeStorage := by
    have total := add_sum_erase (freeTiles a (pre ++ x :: post)) (fun j => (a.nodes j).dataSize)
      (mem_freeTiles.mpr ⟨tile, spare⟩)
    have word := h.bins.word
    rw [frameT.2.2.2, head, sub32]
    rw [← h.bins.storage] at total
    omega
  obtain ⟨bins', split_bins⟩ := splitReminder_bins x reminder binsT takenT freshT real
    (by omega) (by have word := h.bins.word; omega)
  have nodesT : FreeNodes (a.takeNode b R) (pre ++ x :: post).toFinset :=
    h.freeNodes.congr frameT.1 frameT.2.1 frameT.2.2.1
  have roomT : (a.takeNode b R).freeOffset < (a.takeNode b R).currentCapacity := by
    have boundsT := frameT.2.2.1
    simp only [bounds, Prod.mk.injEq] at boundsT
    rw [frameT.2.1, boundsT.2.1]
    exact room
  have split_free := nodesT.take roomT frame.1 frame.2.1 frame.2.2
  rw [takenT] at split_free
  rw [← split] at split_bins split_free
  simp only [Node.block, Prod.mk.injEq] at atX atY
  have extents : ∀ j ∈ pre ++ post, (s.nodes j).extent = (a.nodes j).extent := by
    intro j hj
    have same := off j hj
    split at same <;> exact (extent_of_block same).trans rfl
  constructor
  · refine ⟨bins', h.edit (split_bounds split) (split_tiles h room list cut taken split) (by simp) ?_ ?_⟩
    · have new : freeTiles s [x, y] = {y} := by simp [freeTiles, atX, atY]
      have whole : freeTiles a (pre ++ x :: post) = insert x (freeTiles a (pre ++ post)) := by
        rw [Finset.insert_eq]
        exact (freeTiles_splice pre [x] post (fun _ _ => rfl)).trans (by simp [freeTiles, spare])
      rw [whole, erase_insert (fun member => alone (mem_freeTiles.mp member).1)] at split_bins
      rw [freeTiles_splice pre [x, y] post extents, new, ← Finset.insert_eq]
      exact split_bins
    · have inUse : (pre ++ ([x, y] ++ post)).toFinset = insert y (pre ++ x :: post).toFinset := by
        ext j
        simp only [List.mem_toFinset, mem_insert, List.mem_append, List.mem_cons, List.not_mem_nil, or_false]
        tauto
      rw [inUse]
      exact split_free
  · intro i o l
    have before : Held a (pre ++ x :: post) i o l ↔ Held a (pre ++ post) i o l := by
      refine (held_splice pre [x] post (fun _ _ => rfl) i o l).trans ?_
      simp [held_cons, not_held_nil, Node.extent, spare]
    rw [held_splice pre [x, y] post extents, before]
    simp [held_cons, not_held_nil, Node.extent, atX, atY, eq_comm]

end Place

theorem allocateFrom_represents (h : Represents a tiles bins) (room : a.freeOffset < a.currentCapacity)
    (list : bins b = x :: rest) (fits : R ≤ (a.nodes x).dataSize) :
    (a.allocateFrom b R).2 = ⟨(a.nodes x).dataOffset, x⟩ ∧
    ∃ tiles' bins', Represents (a.allocateFrom b R).1 tiles' bins' ∧
      ∀ i o l, Held (a.allocateFrom b R).1 tiles' i o l ↔
        (i = x ∧ o = (a.nodes x).dataOffset ∧ l = R) ∨ Held a tiles i o l := by
  obtain ⟨head, tile, -⟩ := bin_head_tile h list
  have inside := h.tile_inside tile
  have reminder : sub32 (a.nodes x).dataSize R = (a.nodes x).dataSize - R := by
    unfold sub32 maxBinSize at *
    omega
  have atX := takeNode_block R head x
  rw [if_pos rfl, block_eq] at atX
  by_cases cut : 0 < (a.nodes x).dataSize - R
  · obtain ⟨pre, post, rfl⟩ := append_of_mem tile
    have result : a.allocateFrom b R = ((a.takeNode b R).splitReminder x ((a.nodes x).dataSize - R),
        ⟨(((a.takeNode b R).splitReminder x ((a.nodes x).dataSize - R)).nodes x).dataOffset, x⟩) := by
      simp only [allocateFrom, head, reminder, if_pos cut]
    have parts : R + ((a.nodes x).dataSize - R) = (a.nodes x).dataSize := by omega
    obtain ⟨nodeX, -, -⟩ := split_nodes h room list parts rfl rfl
    obtain ⟨⟨bins', represents⟩, held⟩ := split_represents h room list parts rfl rfl
    rw [result]
    exact ⟨congrArg (fun block => OffsetAllocation.mk block.1 x) nodeX, _, bins', represents, held⟩
  · have result : a.allocateFrom b R = (a.takeNode b R, ⟨((a.takeNode b R).nodes x).dataOffset, x⟩) := by
      simp only [allocateFrom, head, reminder, if_neg cut]
    obtain ⟨represents, held⟩ := takeNode_represents h list (show (a.nodes x).dataSize = R by omega)
    rw [result]
    exact ⟨by rw [atX.1], tiles, _, represents, held⟩

end AllocateFrom

section Allocate
variable {a : Allocator} {tiles : List Nat} {bins : Nat → List Nat} {size : Nat}

theorem growFreeNodes_nodes (a : Allocator) : a.growFreeNodes.nodes = a.nodes := by
  unfold growFreeNodes
  split <;> rfl

theorem growFreeNodes_represents (h : Represents a tiles bins) (room : a.freeOffset ≠ a.maxCapacity) :
    Represents a.growFreeNodes tiles bins ∧ a.growFreeNodes.freeOffset < a.growFreeNodes.currentCapacity := by
  have offset := h.freeNodes.card_le
  have below : a.freeOffset < a.maxCapacity := by
    have grown := h.grown
    omega
  obtain ⟨nodes, limits⟩ := h.freeNodes.grow
  obtain ⟨spare, grown⟩ := limits below h.grown
  refine ⟨?_, spare⟩
  have same : a.growFreeNodes = { a with
      freeNodes := a.growFreeNodes.freeNodes, currentCapacity := a.growFreeNodes.currentCapacity } := by
    unfold growFreeNodes
    split <;> rfl
  rw [same] at nodes grown ⊢
  exact ⟨⟨h.tiling.linked, h.tiling.nodup, h.tiling.cover, h.tiling.merged⟩, h.nonempty,
    ⟨h.bins.linked, h.bins.head, h.bins.nodup, h.bins.mem, h.bins.real, h.bins.small, h.bins.masks,
      h.bins.storage, h.bins.word⟩, nodes, grown, h.indices, h.bytes⟩

theorem allocateFrom_bounds (a : Allocator) (b R : Nat) : (a.allocateFrom b R).1.bounds = a.bounds := by
  simp only [allocateFrom]
  split
  · exact (splitReminder_frame _ _ _).2.2.trans (takeNode_frame a b R).2.2.1
  · exact (takeNode_frame a b R).2.2.1

theorem allocate_size (a : Allocator) (size : Nat) : (a.allocate size).1.size = a.size := by
  have grown : a.growFreeNodes.size = a.size := by
    unfold growFreeNodes
    split <;> rfl
  unfold allocate
  split
  · rfl
  · simp only
    split
    · exact grown
    · exact (congrArg Prod.fst (allocateFrom_bounds _ _ _)).trans grown

/-- `allocate` has a node to spare and a bin of the rounded size or above. -/
def Fits (a : Allocator) (bins : Nat → List Nat) (size : Nat) : Prop :=
  a.freeOffset ≠ a.maxCapacity ∧ ∃ b, uintToFloatRoundUp size ≤ b ∧ bins b ≠ []

variable (h : Represents a tiles bins)
include h

/-- Both outcomes of `allocate`. A success takes a free tile and hands out a block
of the size of a bin; a failure changes nothing that is held. -/
theorem allocate_represents (word : size < 2 ^ 32) :
    ∃ tiles' bins', Represents (a.allocate size).1 tiles' bins' ∧
      (((a.allocate size).2 = .none ∧ ¬ Fits a bins size ∧
        ∀ i o l, Held (a.allocate size).1 tiles' i o l ↔ Held a tiles i o l) ∨
       ∃ x o R, (a.allocate size).2 = ⟨o, x⟩ ∧ Fits a bins size ∧ R = floatToUint (uintToFloatRoundUp size) ∧
        (∀ o l, ¬ Held a tiles x o l) ∧
        ∀ i o' l, Held (a.allocate size).1 tiles' i o' l ↔ (i = x ∧ o' = o ∧ l = R) ∨ Held a tiles i o' l) := by
  unfold allocate
  split
  · rename_i full
    exact ⟨tiles, bins, h, Or.inl ⟨rfl, fun fits => fits.1 full, fun _ _ _ => Iff.rfl⟩⟩
  · rename_i room
    obtain ⟨grown, spare⟩ := growFreeNodes_represents h room
    have nodes := growFreeNodes_nodes a
    have held : ∀ i o l, Held a.growFreeNodes tiles i o l ↔ Held a tiles i o l := by
      intro i o l
      simp only [Held, nodes]
    have minBin := roundUp_le word
    simp only
    split
    · rename_i missing
      refine ⟨tiles, bins, grown, Or.inl ⟨rfl, ?_, held⟩⟩
      rintro ⟨-, b, low, occupied⟩
      exact findBin_none grown.bins.masks (by omega) missing (grown.bin_word occupied) low occupied
    · rename_i b found
      obtain ⟨low, -, occupied⟩ := findBin_some grown.bins.masks (by omega) found
      cases list : bins b with
      | nil => exact absurd list occupied
      | cons x rest =>
        obtain ⟨-, tile, free⟩ := bin_head_tile grown list
        have bin : uintToFloatRoundDown (a.growFreeNodes.nodes x).dataSize = b :=
          ((grown.bins.mem b x).mp (by rw [list]; simp)).2
        have fits : floatToUint (uintToFloatRoundUp size) ≤ (a.growFreeNodes.nodes x).dataSize := by
          rw [← le_roundDown_iff (grown.tile_word tile), bin]
          exact low
        obtain ⟨result, tiles', bins', represents, after⟩ := allocateFrom_represents grown spare list fits
        refine ⟨tiles', bins', represents, Or.inr ⟨x, _, _, result, ⟨room, b, low, occupied⟩, rfl, ?_, ?_⟩⟩
        · rintro o l ⟨-, extent⟩
          have used : (a.nodes x).used = true := congrArg (fun e => e.2.2) extent
          rw [nodes, used] at free
          cases free
        · intro i o' l
          rw [after, held]

theorem held_not_noSpace {i o l : Nat} (held : Held a tiles i o l) :
    (⟨o, i⟩ : OffsetAllocation).isNoSpace = false := by
  have inside := h.tile_inside held.1
  have offset : (a.nodes i).dataOffset = o := congrArg Prod.fst held.2
  unfold maxBinSize at inside
  simp only [OffsetAllocation.isNoSpace, noSpace, beq_eq_false_iff_ne, ne_eq]
  omega

theorem granted_iff_fits (word : size < 2 ^ 32) : (a.allocate size).2.isNoSpace = false ↔ Fits a bins size := by
  obtain ⟨tiles', bins', represents', outcome⟩ := allocate_represents h word
  rcases outcome with ⟨failed, misfit, -⟩ | ⟨x, o, R, granted, fits, -, -, held⟩
  · rw [failed]
    exact iff_of_false (by decide) misfit
  · rw [granted]
    exact iff_of_true (held_not_noSpace represents' ((held x o R).mpr (Or.inl ⟨rfl, rfl, rfl⟩))) fits

end Allocate

end Mooncake.Offset
