import Mooncake.OffsetAllocator.Bins

/-! The three operations on the bins: taking the first node, inserting a node and
removing a node. Each is described by the bins it leaves and by what it keeps. -/
namespace Mooncake.Offset
open SmallFloat Function Allocator

def Node.block (n : Node) : Nat × Nat × Nat × Nat × Bool :=
  (n.dataOffset, n.dataSize, n.neighborPrev, n.neighborNext, n.used)

theorem block_eq {m n : Node} : m.block = n.block ↔ m.dataOffset = n.dataOffset ∧ m.dataSize = n.dataSize ∧
    m.neighborPrev = n.neighborPrev ∧ m.neighborNext = n.neighborNext ∧ m.used = n.used := by
  simp only [Node.block, Prod.mk.injEq]

variable (a : Allocator)

def Allocator.bounds : Nat × Nat × Nat := (a.size, a.currentCapacity, a.maxCapacity)

theorem modifyNode_node (i : Nat) (f : Node → Node) (j : Nat) :
    (a.modifyNode i f).nodes j = if j = i then f (a.nodes i) else a.nodes j :=
  update_apply a.nodes i _ j

theorem modifyNode_keep {β : Type} (p : Node → β) {f : Node → Node} (keep : ∀ n, p (f n) = p n)
    (a : Allocator) (i j : Nat) : p ((a.modifyNode i f).nodes j) = p (a.nodes j) := by
  rw [modifyNode_node]
  split
  · rename_i eq; rw [eq, keep]
  · rfl

theorem ite_modifyNode_node (c : Prop) [Decidable c] (i : Nat) (f : Node → Node) (j : Nat) :
    (if c then a.modifyNode i f else a).nodes j = if c ∧ j = i then f (a.nodes i) else a.nodes j := by
  by_cases hc : c
  · simp only [hc, if_true, true_and, modifyNode_node]
  · simp only [hc, if_false, false_and]

theorem unmarkBin_frame (t l : Nat) :
    (a.unmarkBin t l).nodes = a.nodes ∧ (a.unmarkBin t l).binIndices = a.binIndices ∧
    (a.unmarkBin t l).freeStorage = a.freeStorage ∧ (a.unmarkBin t l).freeNodes = a.freeNodes ∧
    (a.unmarkBin t l).freeOffset = a.freeOffset ∧ (a.unmarkBin t l).bounds = a.bounds := by
  simp only [unmarkBin]
  split <;> exact ⟨rfl, rfl, rfl, rfl, rfl, rfl⟩

theorem popBin_node (b next j : Nat) : (a.popBin b next).nodes j =
      if next ≠ unused ∧ j = next then { a.nodes next with binListPrev := unused } else a.nodes j := by
  by_cases last : next = unused
  · simp [popBin, last, unmarkBin_frame]
  · simp [popBin, last, modifyNode_node]

theorem popBin_block (b next j : Nat) : ((a.popBin b next).nodes j).block = (a.nodes j).block := by
  rw [popBin_node]
  split
  · rename_i eq; rw [eq.2]; rfl
  · rfl

theorem popBin_frame (b next : Nat) : (a.popBin b next).binIndices = update a.binIndices b next ∧
    (a.popBin b next).freeStorage = a.freeStorage ∧ (a.popBin b next).freeNodes = a.freeNodes ∧
    (a.popBin b next).freeOffset = a.freeOffset ∧ (a.popBin b next).bounds = a.bounds := by
  by_cases last : next = unused
  · simp [popBin, last, unmarkBin_frame, bounds]
    simp [unmarkBin]
    split <;> exact ⟨rfl, rfl, rfl⟩
  · simp [popBin, last, modifyNode, bounds]

variable {occupied occupied' : Nat → Prop}

theorem popBin_masks {a : Allocator} {b next : Nat} (h : Masks a.usedBinsTop a.usedBins occupied) (was : occupied b)
    (popped : ∀ c, occupied' c ↔ if c = b then next ≠ unused else occupied c) :
    Masks (a.popBin b next).usedBinsTop (a.popBin b next).usedBins occupied' := by
  by_cases last : next = unused
  · have shrunk : ∀ c, occupied' c ↔ c ≠ b ∧ occupied c := by
      intro c
      rw [popped]
      by_cases eq : c = b <;> simp [eq, last]
    have cleared := h.unmark shrunk
    simp only [popBin, last, ne_eq, not_true_eq_false, if_false, if_true, shiftRight_top, and_leaf,
      unmarkBin]
    split <;> simp_all
  · have same : ∀ c, occupied' c ↔ occupied c := by
      intro c
      rw [popped]
      by_cases eq : c = b
      · simp [eq, last, was]
      · simp [eq]
    simp only [popBin, last, ne_eq, not_false_eq_true, if_false, if_true, modifyNode]
    exact h.congr same

theorem insertNodeIntoBin_index (size off : Nat) : (a.insertNodeIntoBin size off).2 = a.freeNodes a.freeOffset := by
  by_cases empty : a.binIndices (uintToFloatRoundDown size) = unused
  · simp [insertNodeIntoBin, empty, markBin]
  · simp [insertNodeIntoBin, empty]

theorem insertNodeIntoBin_node {a : Allocator} {size x : Nat} (off : Nat) (taken : a.freeNodes a.freeOffset = x)
    (apart : a.binIndices (uintToFloatRoundDown size) ≠ x) (j : Nat) :
    (a.insertNodeIntoBin size off).1.nodes j =
      if j = x then
        { dataOffset := off, dataSize := size, binListNext := a.binIndices (uintToFloatRoundDown size) }
      else if a.binIndices (uintToFloatRoundDown size) ≠ unused ∧ j = a.binIndices (uintToFloatRoundDown size) then
        { a.nodes j with binListPrev := x }
      else a.nodes j := by
  by_cases empty : a.binIndices (uintToFloatRoundDown size) = unused
  · simp [insertNodeIntoBin, empty, markBin, modifyNode_node, taken]
  · simp only [insertNodeIntoBin, empty, if_false, ne_eq, not_false_eq_true, if_true,
      taken, modifyNode, update_apply, true_and]
    by_cases first : j = a.binIndices (uintToFloatRoundDown size)
    · have ne : ¬ j = x := fun eq => apart (first.symm.trans eq)
      simp [← first, ne]
    · simp [first]

theorem insertNodeIntoBin_frame (size off : Nat) : (a.insertNodeIntoBin size off).1.binIndices =
      update a.binIndices (uintToFloatRoundDown size) (a.freeNodes a.freeOffset) ∧
    (a.insertNodeIntoBin size off).1.freeStorage = add32 a.freeStorage size ∧
    (a.insertNodeIntoBin size off).1.freeNodes = a.freeNodes ∧
    (a.insertNodeIntoBin size off).1.freeOffset = a.freeOffset + 1 ∧
    (a.insertNodeIntoBin size off).1.bounds = a.bounds := by
  by_cases empty : a.binIndices (uintToFloatRoundDown size) = unused
  · simp [insertNodeIntoBin, empty, markBin, modifyNode, bounds]
  · simp [insertNodeIntoBin, empty, modifyNode, bounds]

theorem insertNodeIntoBin_masks {a : Allocator} {size : Nat} (off : Nat)
    (h : Masks a.usedBinsTop a.usedBins occupied) (small : size ≤ maxBinSize)
    (empty : a.binIndices (uintToFloatRoundDown size) = unused ↔ ¬ occupied (uintToFloatRoundDown size))
    (grown : ∀ c, occupied' c ↔ c = uintToFloatRoundDown size ∨ occupied c) :
    Masks (a.insertNodeIntoBin size off).1.usedBinsTop (a.insertNodeIntoBin size off).1.usedBins occupied' := by
  have word : size < 2 ^ 32 := by unfold maxBinSize at small; omega
  have bin := roundDown_le word
  by_cases was : a.binIndices (uintToFloatRoundDown size) = unused
  · have marked := h.mark (by omega) grown
    simpa [insertNodeIntoBin, was, markBin, modifyNode, shiftRight_top,
      and_leaf] using marked
  · have full : occupied (uintToFloatRoundDown size) := by
      by_contra none
      exact was (empty.mpr none)
    have same : ∀ c, occupied' c ↔ occupied c := by
      intro c
      rw [grown]
      constructor
      · rintro (rfl | hc)
        · exact full
        · exact hc
      · exact Or.inr
    simpa [insertNodeIntoBin, was, modifyNode] using h.congr same

theorem insertNodeIntoBin_block {a : Allocator} {size x : Nat} (off : Nat) (taken : a.freeNodes a.freeOffset = x)
    (apart : a.binIndices (uintToFloatRoundDown size) ≠ x) (j : Nat) :
    ((a.insertNodeIntoBin size off).1.nodes j).block =
      if j = x then (off, size, unused, unused, false) else (a.nodes j).block := by
  rw [insertNodeIntoBin_node off taken apart]
  split
  · rfl
  · split <;> rfl

section Insert
variable {a : Allocator} {bins : Nat → List Nat} {free : Finset Nat} {size off x : Nat}

theorem Bins.head_ne_fresh (h : Bins a bins free) (fresh : x ∉ free) (real : x ≠ unused) (b : Nat) :
    a.binIndices b ≠ x := by
  rw [h.head b]
  cases list : bins b with
  | nil => exact real.symm
  | cons y ys =>
    intro eq
    have member : y ∈ bins b := by rw [list]; simp
    exact fresh (eq ▸ ((h.mem b y).mp member).1)

theorem insertNodeIntoBin_bins (off : Nat) (h : Bins a bins free) (taken : a.freeNodes a.freeOffset = x)
    (fresh : x ∉ free) (real : x ≠ unused) (small : size ≤ maxBinSize) (room : a.freeStorage + size < 2 ^ 32) :
    Bins (a.insertNodeIntoBin size off).1
      (update bins (uintToFloatRoundDown size) (x :: bins (uintToFloatRoundDown size)))
      (insert x free) := by
  have apart := h.head_ne_fresh fresh real (uintToFloatRoundDown size)
  have node := insertNodeIntoBin_node off taken apart
  have frame := insertNodeIntoBin_frame a size off
  have fresh_size : ((a.insertNodeIntoBin size off).1.nodes x).dataSize = size := by simp [node x]
  have old : ∀ j ∈ free, j ≠ x := fun j hj eq => fresh (eq ▸ hj)
  have sum : ∑ j ∈ insert x free, ((a.insertNodeIntoBin size off).1.nodes j).dataSize = a.freeStorage + size := by
    rw [Finset.sum_insert fresh, fresh_size, h.storage, Nat.add_comm]
    refine congrArg (· + size) (Finset.sum_congr rfl fun j hj => ?_)
    rw [node j, if_neg (old j hj)]
    split <;> rfl
  have heads := head_pointer (fun i hi => h.real_of_mem (b := uintToFloatRoundDown size) (i := i) hi)
  refine h.edit [] [] [x] (bins (uintToFloatRoundDown size)) rfl ?_ ?_ ?_ (List.nodup_singleton x) ?_ (by simp) ?_ ?_ ?_
  · rw [frame.1, taken]
    rfl
  · intro j hj _
    rw [node j, if_neg (old j hj), h.head]
    simp only [heads j]
    split <;> simp_all
  · exact ⟨by simp [node x], by simp [node x, h.head], trivial⟩
  · intro j hj
    cases List.mem_singleton.mp hj
    exact ⟨fresh, real, by rwa [fresh_size], by rw [fresh_size]⟩
  · apply insertNodeIntoBin_masks off h.masks small
    · rw [h.head, headD_eq_unused (fun i hi => h.real_of_mem hi), not_not]
    · intro c
      by_cases same : c = uintToFloatRoundDown size
      · subst same; simp
      · simp [same]
  · rw [sum, frame.2.1, add32, Nat.mod_eq_of_lt room]
  · rw [frame.2.1]
    exact Nat.mod_lt _ (by decide)

end Insert

section Remove
variable {a : Allocator} {bins : Nat → List Nat} {free : Finset Nat}

/-- Popping the first node `x` of a bin. `before` may already differ from `a` at
`x` itself, and `after` in the fields that the bins do not read. -/
theorem popBin_bins {after : Allocator} (before : Allocator) {b x : Nat} {post : List Nat} (h : Bins a bins free)
    (list : bins b = x :: post) (others : ∀ j, j ≠ x → before.nodes j = a.nodes j)
    (heads : before.binIndices = a.binIndices)
    (masks : before.usedBinsTop = a.usedBinsTop ∧ before.usedBins = a.usedBins)
    (nodes' : after.nodes = (before.popBin b (post.headD unused)).nodes)
    (heads' : after.binIndices = (before.popBin b (post.headD unused)).binIndices)
    (masks' : after.usedBinsTop = (before.popBin b (post.headD unused)).usedBinsTop ∧
      after.usedBins = (before.popBin b (post.headD unused)).usedBins)
    (storage : after.freeStorage = sub32 a.freeStorage (a.nodes x).dataSize) :
    Bins after (update bins b post) (free.erase x) := by
  have real_post : ∀ i ∈ post, i ≠ unused := fun i hi => h.real_of_mem (b := b) (by rw [list]; simp [hi])
  have first_iff := head_pointer real_post
  have node : ∀ j, j ≠ x → after.nodes j =
      if post.head? = some j then { a.nodes j with binListPrev := unused } else a.nodes j := by
    intro j ne
    rw [nodes', popBin_node]
    simp only [first_iff j]
    split
    · rename_i first
      have eq := ((first_iff j).mpr first).2
      rw [← eq, others j ne]
    · exact others j ne
  have split : bins b = [] ++ x :: post := list
  apply h.unlink split
  · rw [heads', (popBin_frame before b _).1, heads]
    rfl
  · intro j _ ne
    rw [node j ne]
    split <;> simp
  · rw [masks'.1, masks'.2]
    have agree : Masks before.usedBinsTop before.usedBins (fun c => bins c ≠ []) := by
      rw [masks.1, masks.2]
      exact h.masks
    apply popBin_masks agree
    · simp [list]
    · intro c
      by_cases same : c = b
      · subst same
        rw [update_self, if_pos rfl, List.nil_append, ne_eq, ne_eq, headD_eq_unused real_post]
      · simp [same]
  · exact storage

theorem takeNode_block {b x : Nat} (R : Nat) (head : a.binIndices b = x) (j : Nat) :
    ((a.takeNode b R).nodes j).block =
      if j = x then { a.nodes x with dataSize := R, used := true }.block else (a.nodes j).block := by
  refine (popBin_block _ _ _ j).trans ?_
  rw [modifyNode_node, head]
  split <;> rfl

theorem takeNode_frame (a : Allocator) (b R : Nat) :
    (a.takeNode b R).freeNodes = a.freeNodes ∧ (a.takeNode b R).freeOffset = a.freeOffset ∧
    (a.takeNode b R).bounds = a.bounds ∧
    (a.takeNode b R).freeStorage = sub32 a.freeStorage (a.nodes (a.binIndices b)).dataSize := by
  have frame := popBin_frame (a.modifyNode (a.binIndices b) (fun n => { n with dataSize := R, used := true })) b
    ((a.modifyNode (a.binIndices b) (fun n => { n with dataSize := R, used := true })).nodes
      (a.binIndices b)).binListNext
  exact ⟨frame.2.2.1, frame.2.2.2.1, frame.2.2.2.2, congrArg (sub32 · _) frame.2.1⟩

theorem takeNode_bins {b x : Nat} {post : List Nat} (R : Nat) (h : Bins a bins free) (list : bins b = x :: post) :
    Bins (a.takeNode b R) (update bins b post) (free.erase x) := by
  have head : a.binIndices b = x := by rw [h.head, list]; rfl
  have chain := h.linked b
  rw [list] at chain
  have next : (a.nodes x).binListNext = post.headD unused := chain.2.1
  have step : a.takeNode b R =
      { (a.modifyNode x (fun n => { n with dataSize := R, used := true })).popBin b (post.headD unused) with
        freeStorage := sub32 ((a.modifyNode x (fun n => { n with dataSize := R, used := true })).popBin b
          (post.headD unused)).freeStorage (a.nodes x).dataSize } := by
    simp only [takeNode, head, modifyNode_node, if_true, next]
  have storage := (takeNode_frame a b R).2.2.2
  rw [head] at storage
  rw [step] at storage ⊢
  refine popBin_bins (a.modifyNode x (fun n => { n with dataSize := R, used := true })) h list ?_ rfl ⟨rfl, rfl⟩
    rfl rfl ⟨rfl, rfl⟩ storage
  intro j ne
  rw [modifyNode_node, if_neg ne]

theorem removeNodeFromBin_block (a : Allocator) (i j : Nat) :
    ((a.removeNodeFromBin i).nodes j).block = (a.nodes j).block := by
  simp only [removeNodeFromBin, pushFreeNode]
  split
  · split
    · refine (modifyNode_keep Node.block ?_ _ _ _).trans (modifyNode_keep Node.block ?_ _ _ _) <;>
        exact fun _ => rfl
    · refine modifyNode_keep Node.block ?_ _ _ _
      exact fun _ => rfl
  · exact popBin_block a _ _ j

theorem removeNodeFromBin_frame (a : Allocator) (i : Nat) :
    (a.removeNodeFromBin i).freeNodes = update a.freeNodes (a.freeOffset - 1) i ∧
    (a.removeNodeFromBin i).freeOffset = a.freeOffset - 1 ∧
    (a.removeNodeFromBin i).bounds = a.bounds ∧
    (a.removeNodeFromBin i).freeStorage = sub32 a.freeStorage (a.nodes i).dataSize := by
  simp only [removeNodeFromBin, pushFreeNode]
  split
  · split <;> exact ⟨rfl, rfl, rfl, rfl⟩
  · have frame := popBin_frame a (uintToFloatRoundDown (a.nodes i).dataSize) (a.nodes i).binListNext
    have bounds := frame.2.2.2.2
    simp only [Allocator.bounds] at bounds ⊢
    exact ⟨by rw [frame.2.2.1, frame.2.2.2.1], by rw [frame.2.2.2.1], bounds, by rw [frame.2.1]⟩

/-- The easy case: a node with a predecessor leaves the middle of its list. -/
theorem removeNodeFromBin_middle {b i : Nat} {pre post : List Nat} (h : Bins a bins free)
    (list : bins b = pre ++ i :: post) (inner : pre ≠ []) :
    Bins (a.removeNodeFromBin i) (update bins b (pre ++ post)) (free.erase i) := by
  have chain := h.linked b
  rw [list] at chain
  obtain ⟨prev, next⟩ := Linked.chain_member chain
  have nodup := h.nodup b
  rw [list] at nodup
  obtain ⟨pre', last, rfl⟩ : ∃ pre' last, pre = pre' ++ [last] := by
    obtain ⟨pre', last, eq⟩ := List.eq_nil_or_concat pre |>.resolve_left inner
    exact ⟨pre', last, by simpa using eq⟩
  have real_last : last ≠ unused := h.real_of_mem (b := b) (by rw [list]; simp)
  have real_post : ∀ j ∈ post, j ≠ unused := fun j hj => h.real_of_mem (b := b) (by rw [list]; simp [hj])
  have prev_eq : (a.nodes i).binListPrev = last := by simpa using prev
  have last_out : last ∉ post := by
    intro member
    exact List.disjoint_of_nodup_append nodup (by simp) (List.mem_cons_of_mem i member)
  have node : ∀ j, (a.removeNodeFromBin i).nodes j = { a.nodes j with
      binListNext := if (pre' ++ [last]).getLast? = some j then post.headD unused else (a.nodes j).binListNext
      binListPrev := if post.head? = some j then (pre' ++ [last]).getLastD unused else (a.nodes j).binListPrev } := by
    intro j
    simp only [removeNodeFromBin, pushFreeNode, prev_eq, next, real_last, ne_eq, not_false_eq_true,
      if_true, ite_modifyNode_node, modifyNode_node, head_pointer real_post]
    by_cases first : post.head? = some j
    · have ne : j ≠ last := fun eq => last_out (eq ▸ List.mem_of_mem_head? first)
      simp [first, ne, Ne.symm ne]
    · by_cases eq : j = last
      · subst eq; simp [first]
      · simp [first, eq, Ne.symm eq]
  apply h.unlink list
  · have heads : (a.removeNodeFromBin i).binIndices = a.binIndices := by
      simp only [removeNodeFromBin, pushFreeNode, prev_eq, ne_eq, real_last,
        not_false_eq_true, if_true]
      split <;> rfl
    rw [heads]
    have same : a.binIndices b = (pre' ++ [last] ++ post).headD unused := by
      rw [h.head, list]
      cases pre' <;> simp
    rw [← same, update_eq_self]
  · exact fun j _ _ => node j
  · have kept : Masks a.usedBinsTop a.usedBins (fun c => update bins b (pre' ++ [last] ++ post) c ≠ []) := by
      apply h.masks.congr
      intro c
      by_cases same : c = b
      · simp [same, list]
      · simp [same]
    simp only [removeNodeFromBin, pushFreeNode, prev_eq, ne_eq, real_last,
      not_false_eq_true, if_true]
    split <;> exact kept
  · exact (removeNodeFromBin_frame a i).2.2.2

/-- A node of the free set leaves its bin, whichever position it has there. -/
theorem removeNodeFromBin_bins {i : Nat} (h : Bins a bins free) (member : i ∈ free) :
    ∃ bins', Bins (a.removeNodeFromBin i) bins' (free.erase i) := by
  have listed : i ∈ bins (uintToFloatRoundDown (a.nodes i).dataSize) := (h.mem _ i).mpr ⟨member, rfl⟩
  obtain ⟨pre, post, list⟩ := List.append_of_mem listed
  cases pre with
  | cons y ys => exact ⟨_, removeNodeFromBin_middle h list (by simp)⟩
  | nil =>
    have chain := h.linked (uintToFloatRoundDown (a.nodes i).dataSize)
    rw [list] at chain
    obtain ⟨prev, next⟩ := Linked.chain_member chain
    have prev_eq : (a.nodes i).binListPrev = unused := prev
    have hard : a.removeNodeFromBin i =
        { (a.popBin (uintToFloatRoundDown (a.nodes i).dataSize) (post.headD unused)).pushFreeNode i with
          freeStorage := sub32 (a.popBin (uintToFloatRoundDown (a.nodes i).dataSize) (post.headD unused)).freeStorage
            (a.nodes i).dataSize } := by
      simp only [removeNodeFromBin, prev_eq, ne_eq, not_true_eq_false, if_false, next]
      rfl
    refine ⟨_, popBin_bins a h list (fun _ _ => rfl) rfl ⟨rfl, rfl⟩ ?_ ?_ ⟨?_, ?_⟩ ?_⟩
    · rw [hard]; rfl
    · rw [hard]; rfl
    · rw [hard]; rfl
    · rw [hard]; rfl
    · exact (removeNodeFromBin_frame a i).2.2.2

end Remove

end Mooncake.Offset
