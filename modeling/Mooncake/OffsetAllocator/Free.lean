import Mooncake.OffsetAllocator.Allocate

/-! Preservation of the representation by `free`. Merging looks at one neighbour on
each side: because no two adjacent tiles are free, the tile behind an absorbed
neighbour is used, and one look is enough. -/
namespace Mooncake.Offset
open SmallFloat Finset List Allocator Cover

/-- A merge on one side: the tiles `gone` are absorbed, and what stays next to the
merged block is used. -/
structure Merged (a a' : Allocator) (free inUse : Finset Nat) (x : Nat) (gone : List Nat) : Prop where
  spare : ∀ n ∈ gone, n ∈ free
  bins : ∃ bins, Bins a' bins (free \ gone.toFinset)
  freeNodes : FreeNodes a' (inUse \ gone.toFinset)
  bounds : a'.bounds = a.bounds
  blocks : ∀ j, j ≠ x → (a'.nodes j).block = (a.nodes j).block

variable {bins : Nat → List Nat}

theorem Merged.none {a : Allocator} {free inUse : Finset Nat} (x : Nat)
    (h : Bins a bins free) (nodes : FreeNodes a inUse) : Merged a a free inUse x [] := by
  refine ⟨by simp, ⟨bins, ?_⟩, ?_, rfl, fun _ _ => rfl⟩
  · simpa using h
  · simpa using nodes

theorem Merged.one {a : Allocator} {free inUse : Finset Nat} {n : Nat} (x : Nat)
    (f : Node → Node) (listing : ∀ m, (f m).listing = m.listing) (h : Bins a bins free)
    (nodes : FreeNodes a inUse) (listed : n ∈ free) (owned : n ∈ inUse) :
    Merged a ((a.removeNodeFromBin n).modifyNode x f) free inUse x [n] := by
  obtain ⟨bins', removed⟩ := removeNodeFromBin_bins h listed
  have frame := removeNodeFromBin_frame a n
  have pushed := nodes.push owned frame.1 frame.2.1 frame.2.2.1
  have single : ([n] : List Nat).toFinset = {n} := rfl
  refine ⟨by simpa using listed, ⟨bins', ?_⟩, ?_, frame.2.2.1, ?_⟩
  · rw [single, sdiff_singleton_eq_erase]
    exact removed.relink _ (modifyNode_keep Node.listing listing _ x)
  · rw [single, sdiff_singleton_eq_erase]
    exact pushed.congr rfl rfl rfl
  · intro j ne
    rw [modifyNode_node, if_neg ne]
    exact removeNodeFromBin_block a n j

section Merge
variable {a : Allocator} {bins : Nat → List Nat} {free inUse : Finset Nat} {x : Nat}

/-- The outcome of looking at the previous neighbour: offset and size of the block
that results, from the state before. -/
def MergedLeft (a : Allocator) (free inUse : Finset Nat) (x : Nat) (pre : List Nat)
    (result : Allocator × Nat × Nat) : Prop :=
  ∃ pre' gone, pre = pre' ++ gone ∧ (∀ i ∈ pre'.getLast?, (a.nodes i).used = true) ∧
    Merged a result.1 free inUse x gone ∧
    (result.1.nodes x).block = { a.nodes x with neighborPrev := pre'.getLastD unused }.block ∧
    Cover.Covers (fun i => (a.nodes i).dataOffset) (fun i => (a.nodes i).dataSize) result.2.1
      (gone ++ [x]) (result.2.1 + result.2.2)

theorem mergePrev_spec {pre post : List Nat} (h : Represents a (pre ++ x :: post) bins) :
    MergedLeft a (freeTiles a (pre ++ x :: post)) (pre ++ x :: post).toFinset x pre (a.mergePrev x) := by
  obtain ⟨prev, -⟩ := h.tiling.place
  by_cases busy : ∀ i ∈ pre.getLast?, (a.nodes i).used = true
  · have result : a.mergePrev x = (a, (a.nodes x).dataOffset, (a.nodes x).dataSize) := by
      rcases eq_nil_or_concat pre with rfl | ⟨front, p, rfl⟩
      · simp [mergePrev, show (a.nodes x).neighborPrev = unused from prev]
      · have last : (a.nodes x).neighborPrev = p := by simpa using prev
        simp [mergePrev, last, busy p (by simp)]
    rw [result]
    exact ⟨pre, [], (append_nil pre).symm, busy, Merged.none x h.bins h.freeNodes, by rw [← prev], rfl, rfl⟩
  · obtain ⟨p, last, spare⟩ : ∃ p, pre.getLast? = some p ∧ (a.nodes p).used = false := by simpa using busy
    obtain ⟨front, rfl⟩ := getLast?_eq_some_iff.mp last
    have realP : p ≠ unused := h.tile_real (by simp)
    have atP : (a.nodes x).neighborPrev = p := by simpa using prev
    have result : a.mergePrev x = ((a.removeNodeFromBin p).modifyNode x
        (fun n => { n with neighborPrev := (a.nodes p).neighborPrev }), (a.nodes p).dataOffset,
        add32 (a.nodes x).dataSize (a.nodes p).dataSize) := by
      simp [mergePrev, atP, spare, realP]
    rw [result]
    refine ⟨front, [p], rfl, ?_, ?_, ?_, ?_⟩
    · intro i hi
      have seam := (isChain_append.mp (isChain_append.mp h.tiling.merged).1).2.2 i hi p rfl
      exact seam.resolve_right (by simp [spare])
    · exact Merged.one x (fun n => { n with neighborPrev := (a.nodes p).neighborPrev }) (fun _ => rfl) h.bins
        h.freeNodes (mem_freeTiles.mpr ⟨by simp, spare⟩) (by simp)
    · have linked := h.tiling.linked
      rw [append_assoc] at linked
      rw [modifyNode_node, if_pos rfl, block_eq, (Linked.chain_member linked).1]
      obtain ⟨offset, size, -, next, used⟩ := block_eq.mp (removeNodeFromBin_block a p x)
      exact ⟨offset, size, rfl, next, used⟩
    · have inside := h.tile_inside (show x ∈ front ++ [p] ++ x :: post by simp)
      obtain ⟨mid, covers, start, -⟩ := covers_append.mp h.tiling.cover
      obtain ⟨_, -, first, stop⟩ := covers_append.mp covers
      simp only [Covers, cons_append, nil_append] at start first stop ⊢
      unfold maxBinSize at inside
      unfold add32
      refine ⟨trivial, by omega, by omega⟩

def MergedRight (a : Allocator) (free inUse : Finset Nat) (x size : Nat) (post : List Nat)
    (result : Allocator × Nat) : Prop :=
  ∃ gone post', post = gone ++ post' ∧ (∀ j ∈ post'.head?, (a.nodes j).used = true) ∧
    Merged a result.1 free inUse x gone ∧
    (result.1.nodes x).block = { a.nodes x with neighborNext := post'.headD unused }.block ∧
    result.2 = size + (gone.map (fun i => (a.nodes i).dataSize)).sum

theorem Merged.block_after {b : Allocator} {pre gone post : List Nat}
    (h : Represents a (pre ++ x :: post) bins) (merged : Merged a b free inUse x gone) {n : Nat} (member : n ∈ post) :
    (b.nodes n).block = (a.nodes n).block :=
  merged.blocks n fun same => h.tiling.place.2.2.1 (by simp [← same, member])

/-- The look at the next neighbour, after the tiles `left` are absorbed. -/
theorem mergeNext_spec {b : Allocator} {size : Nat} {pre left post : List Nat}
    (h : Represents a ((pre ++ left) ++ x :: post) bins)
    (merged : Merged a b (freeTiles a ((pre ++ left) ++ x :: post)) ((pre ++ left) ++ x :: post).toFinset x left)
    (next : (b.nodes x).neighborNext = post.headD unused)
    (room : size + (post.map (fun i => (a.nodes i).dataSize)).sum ≤ maxBinSize) :
    MergedRight b (freeTiles a ((pre ++ left) ++ x :: post) \ left.toFinset)
      (((pre ++ left) ++ x :: post).toFinset \ left.toFinset) x size post (b.mergeNext x size) := by
  obtain ⟨binsB, listed⟩ := merged.bins
  by_cases busy : ∀ j ∈ post.head?, (b.nodes j).used = true
  · have result : b.mergeNext x size = (b, size) := by
      cases post with
      | nil => simp [mergeNext, show (b.nodes x).neighborNext = unused from next]
      | cons n rest => simp [mergeNext, show (b.nodes x).neighborNext = n from next, busy n rfl]
    rw [result]
    exact ⟨[], post, rfl, busy, Merged.none x listed merged.freeNodes, by rw [← next], rfl⟩
  · obtain ⟨n, first, spare⟩ : ∃ n, post.head? = some n ∧ (b.nodes n).used = false := by simpa using busy
    obtain ⟨rest, rfl⟩ := head?_eq_some_iff.mp first
    have realN : n ≠ unused := h.tile_real (by simp)
    have atN : (b.nodes x).neighborNext = n := next
    obtain ⟨-, bytes, -, step, used⟩ := block_eq.mp (merged.block_after h (n := n) (by simp))
    have away : n ∉ left := fun inside =>
      disjoint_of_nodup_append h.tiling.place.2.2.2 (mem_append_right pre inside) (by simp)
    obtain ⟨-, -, -, follows, -⟩ := ((Linked.chain_append ..).mp h.tiling.linked).2
    have result : b.mergeNext x size = ((b.removeNodeFromBin n).modifyNode x
        (fun m => { m with neighborNext := (b.nodes n).neighborNext }),
        add32 size (b.nodes n).dataSize) := by
      simp [mergeNext, atN, spare, realN]
    rw [result]
    refine ⟨[n], rest, rfl, ?_, ?_, ?_, ?_⟩
    · intro j hj
      obtain ⟨-, -, -, -, same⟩ := block_eq.mp (merged.block_after h (n := j)
        (mem_cons_of_mem n (mem_of_mem_head? hj)))
      obtain ⟨-, seams, -⟩ := isChain_append.mp h.tiling.merged
      have seam := (isChain_cons.mp (isChain_cons.mp seams).2).1 j hj
      rw [← used, ← same] at seam
      exact seam.resolve_left (by simp [spare])
    · exact Merged.one x (fun m => { m with neighborNext := (b.nodes n).neighborNext }) (fun _ => rfl) listed
        merged.freeNodes (mem_sdiff.mpr ⟨mem_freeTiles.mpr ⟨by simp, used ▸ spare⟩, by simpa using away⟩)
        (mem_sdiff.mpr ⟨by simp, by simpa using away⟩)
    · rw [modifyNode_node, if_pos rfl, block_eq, step.trans follows]
      obtain ⟨offset, size, prev, -, used⟩ := block_eq.mp (removeNodeFromBin_block b n x)
      exact ⟨offset, size, prev, rfl, used⟩
    · simp only [List.map_cons, List.sum_cons, List.map_nil, List.sum_nil] at room ⊢
      unfold maxBinSize at room
      unfold add32
      omega

end Merge

theorem connect_block {c : Allocator} {x p n : Nat}
    (blank : (c.nodes x).neighborPrev = unused ∧ (c.nodes x).neighborNext = unused) (px : p ≠ x) (nx : n ≠ x)
    (pn : n ≠ unused → p ≠ n) (j : Nat) :
    ((c.connect x p n).nodes j).block =
      if j = x then { c.nodes x with neighborPrev := p, neighborNext := n }.block
      else if n ≠ unused ∧ j = n then { c.nodes j with neighborPrev := x }.block
      else if p ≠ unused ∧ j = p then { c.nodes j with neighborNext := x }.block
      else (c.nodes j).block := by
  have link (d : Allocator) (f g : Node → Node) {k : Nat} (ne : k ≠ x) (j : Nat) :
      (if k ≠ unused then (d.modifyNode x f).modifyNode k g else d).nodes j =
        if k ≠ unused ∧ j = k then g (d.nodes k) else if k ≠ unused ∧ j = x then f (d.nodes x) else d.nodes j := by
    by_cases null : k = unused
    · simp only [null, ne_eq, not_true_eq_false, if_false, false_and]
    · simp only [null, ne_eq, not_false_eq_true, if_true, true_and, modifyNode_node, if_neg ne]
  simp only [connect, link _ _ _ px, link _ _ _ nx]
  by_cases atX : j = x
  · subst atX
    simp only [px.symm, nx.symm, and_false, and_true, if_false, if_true]
    by_cases hn : n = unused <;> by_cases hp : p = unused <;> simp [hn, hp, Node.block, blank]
  · simp only [atX, and_false, if_false]
    by_cases atN : n ≠ unused ∧ j = n
    · have notP : ¬ (p ≠ unused ∧ j = p) := fun atP => pn atN.1 (atP.2.symm.trans atN.2)
      rw [if_neg notP, if_pos atN, if_pos atN, atN.2]
    · by_cases atP : p ≠ unused ∧ j = p
      · rw [if_pos atP, if_neg atN, if_pos atP, ← atP.2, if_neg atN]
        simp only [atX, and_false, if_false]
      · rw [if_neg atP, if_neg atN, if_neg atN, if_neg atP]

theorem connect_frame (c : Allocator) (x p n : Nat) :
    ∃ nodes, c.connect x p n = { c with nodes := nodes } ∧ ∀ j, (nodes j).listing = (c.nodes j).listing := by
  refine ⟨(c.connect x p n).nodes, ?_, ?_⟩
  · simp only [connect]
    split <;> split <;> rfl
  · intro j
    have right : ∀ d : Allocator, ((if n ≠ unused then
        (d.modifyNode x (fun m => { m with neighborNext := n })).modifyNode n (fun m => { m with neighborPrev := x })
        else d).nodes j).listing = (d.nodes j).listing := by
      intro d
      split
      · refine (modifyNode_keep Node.listing ?_ _ _ _).trans (modifyNode_keep Node.listing ?_ _ _ _) <;>
          exact fun _ => rfl
      · rfl
    simp only [connect]
    split
    · refine (modifyNode_keep Node.listing ?_ _ _ _).trans
        ((modifyNode_keep Node.listing ?_ _ _ _).trans (right c)) <;> exact fun _ => rfl
    · exact right c

theorem Bins.pushFreeNode {a : Allocator} {free : Finset Nat} (h : Bins a bins free)
    (x : Nat) : Bins (a.pushFreeNode x) bins free :=
  ⟨h.linked, h.head, h.nodup, h.mem, h.real, h.small, h.masks, h.storage, h.word⟩

section Free
variable {a : Allocator} {bins : Nat → List Nat} {x : Nat}

/-- The state of `free` before the combined node is inserted: both neighbours are
absorbed and the node of the allocation is given back. -/
structure Detached (a d : Allocator) (x offset size : Nat) (pre' left right post' : List Nat) : Prop where
  spare : ∀ n ∈ left ++ right, (a.nodes n).used = false
  bins : ∃ bins, Bins d bins (freeTiles a (pre' ++ left ++ x :: (right ++ post')) \ (left ++ right).toFinset)
  freeNodes : FreeNodes d (pre' ++ post').toFinset
  next : d.freeNodes d.freeOffset = x
  bounds : d.bounds = a.bounds
  blocks : ∀ j, j ≠ x → (d.nodes j).block = (a.nodes j).block
  cover : Cover.Covers (fun i => (a.nodes i).dataOffset) (fun i => (a.nodes i).dataSize) offset
    (left ++ x :: right) (offset + size)
  before : ∀ i ∈ pre'.getLast?, (a.nodes i).used = true
  after : ∀ j ∈ post'.head?, (a.nodes j).used = true

section
variable {pre' left right post' : List Nat} (h : Represents a ((pre' ++ left) ++ x :: (right ++ post')) bins)
include h

theorem tile_partition :
    ((pre' ++ post') ++ (left ++ x :: right)).Nodup ∧
    ∀ j, j ∈ (pre' ++ left) ++ x :: (right ++ post') ↔ j ∈ pre' ++ post' ∨ j ∈ left ++ x :: right := by
  have perm : ((pre' ++ left) ++ x :: (right ++ post')).Perm ((pre' ++ post') ++ (left ++ x :: right)) := by
    rw [perm_iff_count]
    intro j
    simp only [count_append, count_cons]
    omega
  refine ⟨perm.nodup_iff.mp h.tiling.nodup, fun j => ?_⟩
  rw [perm.mem_iff, mem_append]

theorem mem_outside (j : Nat) :
    j ∈ pre' ++ post' ↔ (j ∈ (pre' ++ left) ++ x :: (right ++ post') ∧ j ∉ left ++ right) ∧ j ≠ x := by
  obtain ⟨nodup, member⟩ := tile_partition h
  rw [member]
  constructor
  · intro stays
    have out := disjoint_of_nodup_append nodup stays
    simp only [List.mem_append, List.mem_cons] at out ⊢ stays
    tauto
  · simp only [List.mem_append, List.mem_cons]
    tauto

theorem tile_alone : x ≠ unused ∧ x ∉ pre' ++ post' :=
  ⟨h.tile_real (by simp), fun inside => ((mem_outside h x).mp inside).2 rfl⟩

end

theorem detach (h : Represents a (pre ++ x :: post) bins) (busy : (a.nodes x).used = true) :
    ∃ d offset size pre' left right post', pre = pre' ++ left ∧ post = right ++ post' ∧
      Detached a d x offset size pre' left right post' ∧
      ∀ allocation : OffsetAllocation, allocation.metadata = x →
        a.free allocation = (d.insertNodeIntoBin size offset).1.connect x (pre'.getLastD unused)
          (post'.headD unused) := by
  obtain ⟨pre', left, rfl, before, leftMerged, leftBlock, leftCover⟩ := mergePrev_spec h
  generalize step : a.mergePrev x = result at leftMerged leftBlock leftCover
  obtain ⟨b, offset, size⟩ := result
  simp only at leftMerged leftBlock leftCover
  rw [block_eq] at leftBlock
  have tail : Covers (fun i => (a.nodes i).dataOffset) (fun i => (a.nodes i).dataSize) (offset + size) post
      a.size := by
    have whole := h.tiling.cover
    rw [show (pre' ++ left) ++ x :: post = pre' ++ ((left ++ [x]) ++ post) by simp] at whole
    obtain ⟨lo, -, rest⟩ := covers_append.mp whole
    obtain ⟨hi, absorbed, tail⟩ := covers_append.mp rest
    obtain ⟨-, rfl⟩ := covers_unique absorbed leftCover (by simp)
    exact tail
  have room : size + (post.map (fun i => (a.nodes i).dataSize)).sum ≤ maxBinSize := by
    have sum := covers_sum tail
    have bytes := h.bytes
    omega
  obtain ⟨right, post', rfl, after, rightMerged, rightBlock, rightSize⟩ := mergeNext_spec h leftMerged
    (leftBlock.2.2.2.1.trans h.tiling.place.2.1) room
  generalize step' : b.mergeNext x size = result at rightMerged rightBlock rightSize
  obtain ⟨c, size'⟩ := result
  simp only at rightMerged rightBlock rightSize
  rw [block_eq] at rightBlock
  refine ⟨c.pushFreeNode x, offset, size', pre', left, right, post', rfl, rfl, ?_, ?_⟩
  · have x_out : x ∉ left ++ right := by
      obtain ⟨-, -, alone, -⟩ := h.tiling.place
      simp only [mem_append, not_or] at alone ⊢
      exact ⟨alone.1.2, alone.2.1⟩
    constructor
    case spare =>
      intro n hn
      rcases mem_append.mp hn with hn | hn
      · exact (mem_freeTiles.mp (leftMerged.spare n hn)).2
      · exact (mem_freeTiles.mp (mem_sdiff.mp (rightMerged.spare n hn)).1).2
    case bins =>
      obtain ⟨bins', rightBins⟩ := rightMerged.bins
      rw [toFinset_append, ← sup_eq_union, ← sdiff_sdiff_left]
      exact ⟨bins', rightBins.pushFreeNode x⟩
    case freeNodes =>
      have nodes := rightMerged.freeNodes
      rw [sdiff_sdiff_left, sup_eq_union, ← toFinset_append] at nodes
      have owned : x ∈ ((pre' ++ left) ++ x :: (right ++ post')).toFinset \ (left ++ right).toFinset :=
        mem_sdiff.mpr ⟨by simp, by simpa only [mem_toFinset] using x_out⟩
      have rest : (((pre' ++ left) ++ x :: (right ++ post')).toFinset \ (left ++ right).toFinset).erase x =
          (pre' ++ post').toFinset := by
        ext j
        rw [mem_erase, mem_sdiff, mem_toFinset, mem_toFinset, mem_toFinset, mem_outside h, and_comm]
      rw [← rest]
      exact nodes.push owned rfl rfl rfl
    case next => exact Function.update_self _ _ _
    case bounds => exact rightMerged.bounds.trans leftMerged.bounds
    case blocks => exact fun j ne => (rightMerged.blocks j ne).trans (leftMerged.blocks j ne)
    case cover =>
      obtain ⟨stop, absorbed, -⟩ := covers_append.mp tail
      have sizes : right.map (fun i => (b.nodes i).dataSize) = right.map (fun i => (a.nodes i).dataSize) :=
        map_congr_left fun n hn => (block_eq.mp (leftMerged.block_after h (by simp [hn]))).2.1
      have sum := covers_sum absorbed
      rw [← sizes, Nat.add_assoc, ← rightSize] at sum
      rw [append_cons, sum]
      exact covers_append.mpr ⟨offset + size, leftCover, absorbed⟩
    case before => exact before
    case after =>
      intro j hj
      have same := block_eq.mp (leftMerged.block_after h (n := j) (by simp [mem_of_mem_head? hj]))
      exact same.2.2.2.2.symm.trans (after j hj)
  · rintro allocation rfl
    have index := insertNodeIntoBin_index (c.pushFreeNode allocation.metadata) size' offset
    have top : (c.pushFreeNode allocation.metadata).freeNodes (c.pushFreeNode allocation.metadata).freeOffset =
        allocation.metadata := Function.update_self _ _ _
    simp only [free, step, step', rightBlock.2.2.2.1, rightBlock.2.2.1, leftBlock.2.2.1, index, top]

section Detached
variable {d f : Allocator} {offset size : Nat} {pre' left right post' : List Nat}

theorem Detached.bounds_eq (det : Detached a d x offset size pre' left right post')
    (freed : f = (d.insertNodeIntoBin size offset).1.connect x (pre'.getLastD unused) (post'.headD unused)) :
    f.bounds = a.bounds := by
  obtain ⟨nodes, same, -⟩ := connect_frame (d.insertNodeIntoBin size offset).1 x (pre'.getLastD unused)
    (post'.headD unused)
  rw [freed, same]
  exact (insertNodeIntoBin_frame d size offset).2.2.2.2.trans det.bounds

variable (h : Represents a ((pre' ++ left) ++ x :: (right ++ post')) bins)
  (det : Detached a d x offset size pre' left right post') (busy : (a.nodes x).used = true)
include h det busy

/-- The free tiles that remain are away from the combined block. -/
theorem Detached.bins_rest : ∃ bins, Bins d bins (freeTiles a (pre' ++ post')) := by
  have rest : freeTiles a (pre' ++ left ++ x :: (right ++ post')) \ (left ++ right).toFinset =
    freeTiles a (pre' ++ post') := by
    ext j
    have ne : (a.nodes j).used = false → j ≠ x := by
      rintro spare rfl
      rw [busy] at spare
      cases spare
    rw [mem_sdiff, mem_freeTiles, mem_freeTiles, mem_outside h, mem_toFinset]
    tauto
  rw [← rest]
  exact det.bins

/-- The bytes of the combined block and of the remaining free tiles fit together. -/
theorem Detached.room : d.freeStorage + size ≤ maxBinSize := by
  obtain ⟨nodup, -⟩ := tile_partition h
  obtain ⟨bins', binsD⟩ := det.bins_rest h busy
  have kept : ∀ j ∈ freeTiles a (pre' ++ post'), (d.nodes j).dataSize = (a.nodes j).dataSize := by
    intro j hj
    have ne := ((mem_outside h j).mp (mem_freeTiles.mp hj).1).2
    exact (block_eq.mp (det.blocks j ne)).2.1
  have free_sum : d.freeStorage ≤ ((pre' ++ post').map (fun i => (a.nodes i).dataSize)).sum := by
    rw [← sum_toFinset _ (Nodup.of_append_left nodup), binsD.storage, sum_congr rfl kept]
    exact sum_le_sum_of_subset fun j hj => mem_toFinset.mpr (mem_freeTiles.mp hj).1
  have block_sum := covers_sum det.cover
  have whole := covers_sum h.tiling.cover
  have bytes := h.bytes
  simp only [List.map_append, List.sum_append, List.map_cons, List.sum_cons] at free_sum block_sum whole
  omega

variable (freed : f = (d.insertNodeIntoBin size offset).1.connect x (pre'.getLastD unused) (post'.headD unused))
include freed

theorem Detached.nodes :
    (f.nodes x).block = (offset, size, pre'.getLastD unused, post'.headD unused, false) ∧
    ∀ j ∈ pre' ++ post', (f.nodes j).block =
      if post'.head? = some j then { a.nodes j with neighborPrev := x }.block
      else if pre'.getLast? = some j then { a.nodes j with neighborNext := x }.block
      else (a.nodes j).block := by
  obtain ⟨nodup, member⟩ := tile_partition h
  obtain ⟨bins', binsD⟩ := det.bins_rest h busy
  obtain ⟨realX, alone⟩ := tile_alone h
  have kept : ∀ j ∈ pre' ++ post', j ≠ unused ∧ j ≠ x :=
    fun j hj => ⟨h.tile_real ((member j).mpr (Or.inl hj)), fun eq => alone (eq ▸ hj)⟩
  have real_pre : ∀ j ∈ pre', j ≠ unused := fun j hj => (kept j (by simp [hj])).1
  have real_post : ∀ j ∈ post', j ≠ unused := fun j hj => (kept j (by simp [hj])).1
  have prevX : pre'.getLastD unused ≠ x := by
    intro eq
    have last := (last_pointer real_pre x).mp ⟨eq ▸ realX, eq.symm⟩
    exact alone (by simp [mem_of_getLast? last])
  have nextX : post'.headD unused ≠ x := by
    intro eq
    have first := (head_pointer real_post x).mp ⟨eq ▸ realX, eq.symm⟩
    exact alone (by simp [mem_of_mem_head? first])
  have ends : post'.headD unused ≠ unused → pre'.getLastD unused ≠ post'.headD unused := by
    intro nonnull eq
    have first := (head_pointer real_post _).mp ⟨nonnull, rfl⟩
    have last := (last_pointer real_pre _).mp ⟨eq ▸ nonnull, eq.symm⟩
    exact disjoint_of_nodup_append (Nodup.of_append_left nodup) (mem_of_getLast? last)
      (mem_of_mem_head? first)
  have apart := binsD.head_ne_fresh (fun inside => alone (mem_freeTiles.mp inside).1) realX (uintToFloatRoundDown size)
  have block := insertNodeIntoBin_block offset det.next apart
  have blockX := block x
  rw [if_pos rfl] at blockX
  simp only [Node.block, Prod.mk.injEq] at blockX
  have connected := connect_block ⟨blockX.2.2.1, blockX.2.2.2.1⟩ prevX nextX ends
  rw [← freed] at connected
  constructor
  · rw [connected x, if_pos rfl]
    simp only [Node.block, Prod.mk.injEq]
    exact ⟨blockX.1, blockX.2.1, trivial, trivial, blockX.2.2.2.2⟩
  · intro j hj
    have ne := (kept j hj).2
    have same := block j
    rw [if_neg ne, det.blocks j ne, block_eq] at same
    rw [connected j, if_neg ne]
    simp only [head_pointer real_post, last_pointer real_pre]
    split
    · rw [block_eq]
      exact ⟨same.1, same.2.1, rfl, same.2.2.2.1, same.2.2.2.2⟩
    · split
      · rw [block_eq]
        exact ⟨same.1, same.2.1, same.2.2.1, rfl, same.2.2.2.2⟩
      · rw [block_eq]
        exact same

theorem Detached.extents : ∀ j ∈ pre' ++ post', (f.nodes j).extent = (a.nodes j).extent := by
  intro j hj
  have same := (det.nodes h busy freed).2 j hj
  split at same
  · exact (extent_of_block same).trans rfl
  · split at same <;> exact (extent_of_block same).trans rfl

theorem Detached.tiles : Tiles f (pre' ++ ([x] ++ post')) := by
  obtain ⟨nodup, member⟩ := tile_partition h
  obtain ⟨atX, off⟩ := det.nodes h busy freed
  simp only [Node.block, Prod.mk.injEq] at atX
  have old : Tiles a (pre' ++ ((left ++ x :: right) ++ post')) := by
    have tiling := h.tiling
    simpa only [append_assoc, cons_append] using tiling
  have disjoint := disjoint_of_nodup_append (Nodup.of_append_left nodup)
  have usedOff : ∀ j ∈ pre' ++ post', (f.nodes j).used = (a.nodes j).used :=
    fun j hj => congrArg (fun e => e.2.2) (det.extents h busy freed j hj)
  apply Tiles.replace pre' (left ++ x :: right) [x] post' old (congrArg Prod.fst (det.bounds_eq freed))
  case nodup =>
    have perm : (pre' ++ ([x] ++ post')).Perm (x :: (pre' ++ post')) := perm_middle
    rw [perm.nodup_iff]
    exact nodup_cons.mpr ⟨(tile_alone h).2, Nodup.of_append_left nodup⟩
  case mid => exact ⟨atX.2.2.1, atX.2.2.2.1, trivial⟩
  case bytes =>
    intro lo hi covers
    obtain ⟨rfl, rfl⟩ := covers_unique covers det.cover (by simp)
    exact ⟨atX.1, Nat.add_left_cancel_iff.mpr atX.2.1⟩
  case before =>
    intro j hj
    have notfirst : ¬ post'.head? = some j := fun first => disjoint hj (mem_of_mem_head? first)
    rw [off j (by simp [hj]), if_neg notfirst]
    rfl
  case after =>
    intro j hj
    have notlast : ¬ pre'.getLast? = some j := fun last => disjoint (mem_of_getLast? last) hj
    rw [off j (by simp [hj]), if_neg notlast]
    rfl
  case gaps => exact isChain_singleton x
  case left =>
    intro i hi j _
    exact Or.inl ((usedOff i (by simp [mem_of_getLast? hi])).trans (det.before i hi))
  case right =>
    intro i _ j hj
    exact Or.inr ((usedOff j (by simp [mem_of_mem_head? hj])).trans (det.after j hj))

theorem Detached.represents : ∃ bins', Represents f (pre' ++ ([x] ++ post')) bins' := by
  obtain ⟨-, member⟩ := tile_partition h
  obtain ⟨binsD', binsD⟩ := det.bins_rest h busy
  obtain ⟨atX, -⟩ := det.nodes h busy freed
  obtain ⟨realX, alone⟩ := tile_alone h
  have room := det.room h busy
  have inserted := insertNodeIntoBin_bins offset binsD det.next (fun inside => alone (mem_freeTiles.mp inside).1) realX
    (by omega) (show d.freeStorage + size < 2 ^ 32 by unfold maxBinSize at room; omega)
  have frame := insertNodeIntoBin_frame d size offset
  have boundsD := det.bounds
  simp only [Allocator.bounds, Prod.mk.injEq] at boundsD
  have spare : d.freeOffset < d.currentCapacity := by
    have subset : insert x (pre' ++ post').toFinset ⊆ range d.currentCapacity := by
      intro j hj
      rw [Finset.mem_range, boundsD.2.1]
      apply h.freeNodes.below
      rw [List.mem_toFinset, member]
      rcases mem_insert.mp hj with rfl | hj
      · simp
      · exact Or.inl (mem_toFinset.mp hj)
    have card := card_le_card subset
    rw [card_insert_of_notMem (fun inside => alone (mem_toFinset.mp inside)), card_range] at card
    rw [det.freeNodes.offset]
    omega
  have taken := det.freeNodes.take spare frame.2.2.1 frame.2.2.2.1 frame.2.2.2.2
  rw [det.next] at taken
  obtain ⟨nodes, same, listing⟩ := connect_frame (d.insertNodeIntoBin size offset).1 x (pre'.getLastD unused)
    (post'.headD unused)
  rw [← freed] at same
  refine ⟨Function.update binsD' (uintToFloatRoundDown size) (x :: binsD' (uintToFloatRoundDown size)),
    h.edit (det.bounds_eq freed) (det.tiles h busy freed) (by simp) ?_ ?_⟩
  · have one : freeTiles f [x] = {x} := by
      have used : (f.nodes x).used = false := congrArg (fun e => e.2.2.2.2) atX
      simp [freeTiles, used]
    rw [freeTiles_splice pre' [x] post' (det.extents h busy freed), one, ← Finset.insert_eq, same]
    exact inserted.relink nodes listing
  · have inUse : (pre' ++ ([x] ++ post')).toFinset = insert x (pre' ++ post').toFinset := by
      ext j
      rw [List.mem_toFinset, mem_splice, mem_insert, List.mem_toFinset, List.mem_singleton]
    rw [inUse, same]
    exact taken.congr rfl rfl rfl

theorem Detached.held (i o l : Nat) :
    Held f (pre' ++ ([x] ++ post')) i o l ↔ i ≠ x ∧ Held a ((pre' ++ left) ++ x :: (right ++ post')) i o l := by
  obtain ⟨-, alone⟩ := tile_alone h
  have none : ¬ Held f [x] i o l := by
    rintro ⟨inside, extent⟩
    rw [List.mem_singleton.mp inside] at extent
    have used : (f.nodes x).used = true := congrArg (fun e => e.2.2) extent
    have spare : (f.nodes x).used = false := congrArg (fun e => e.2.2.2.2) (det.nodes h busy freed).1
    rw [spare] at used
    cases used
  have absorbed : Held a (left ++ x :: right) i o l → i = x := by
    rintro ⟨inside, extent⟩
    by_contra ne
    have used : (a.nodes i).used = true := congrArg (fun e => e.2.2) extent
    have gone : i ∈ left ++ right := by
      simp only [List.mem_append, List.mem_cons] at inside ⊢
      tauto
    rw [det.spare i gone] at used
    cases used
  have before := held_splice (a := a) (s := a) pre' (left ++ x :: right) post' (fun _ _ => rfl) i o l
  rw [append_assoc left, cons_append, ← append_assoc pre'] at before
  rw [held_splice pre' [x] post' (det.extents h busy freed), before]
  constructor
  · rintro (new | stays)
    · exact absurd new none
    · exact ⟨fun eq => alone (eq ▸ stays.1), Or.inr stays⟩
  · rintro ⟨ne, gone | stays⟩
    · exact absurd (absorbed gone) ne
    · exact Or.inr stays

end Detached

/-- `free` of a used node keeps the representation and gives up exactly its block,
which then lies in one free tile. -/
theorem free_represents {tiles : List Nat} {allocation : OffsetAllocation} (h : Represents a tiles bins)
    (member : allocation.metadata ∈ tiles) (busy : (a.nodes allocation.metadata).used = true) :
    (a.free allocation).size = a.size ∧ ∃ tiles' bins', Represents (a.free allocation) tiles' bins' ∧
      (∀ i o l, Held (a.free allocation) tiles' i o l ↔ i ≠ allocation.metadata ∧ Held a tiles i o l) ∧
      ∃ i ∈ freeTiles (a.free allocation) tiles',
        (a.nodes allocation.metadata).dataSize ≤ ((a.free allocation).nodes i).dataSize := by
  obtain ⟨pre, post, rfl⟩ := append_of_mem member
  obtain ⟨d, offset, size, pre', left, right, post', rfl, rfl, det, result⟩ := detach h busy
  have freed := result allocation rfl
  obtain ⟨bins', represents⟩ := det.represents h busy freed
  obtain ⟨node, -⟩ := det.nodes h busy freed
  have inside := covers_mem det.cover (x := allocation.metadata) (by simp)
  simp only [Node.block, Prod.mk.injEq] at node
  refine ⟨congrArg Prod.fst (det.bounds_eq freed), _, bins', represents, det.held h busy freed, allocation.metadata, ?_, ?_⟩
  · exact mem_freeTiles.mpr ⟨by simp, node.2.2.2.2⟩
  · rw [node.2.1]
    omega

end Free

end Mooncake.Offset
