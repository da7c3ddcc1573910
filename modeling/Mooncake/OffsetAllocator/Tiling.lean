import Mathlib.Order.Interval.Finset.Nat
import Mooncake.Lib.Cover
import Mooncake.OffsetAllocator.BinOps

/-! The neighbour list tiles the storage, and the freelist holds the node indices
that the tiling does not use. Both are stated for the node table alone, so that
the bin operations leave them as they are. -/
namespace Mooncake.Offset

open Function Finset

structure Tiles (a : Allocator) (tiles : List Nat) : Prop where
  linked : Linked.Chain (fun i => (a.nodes i).neighborNext) (fun i => (a.nodes i).neighborPrev)
    unused tiles unused
  nodup : tiles.Nodup
  cover : Cover.Covers (fun i => (a.nodes i).dataOffset) (fun i => (a.nodes i).dataSize) 0 tiles a.size
  merged : tiles.IsChain (fun i j => (a.nodes i).used = true ∨ (a.nodes j).used = true)

def Node.extent (n : Node) : Nat × Nat × Bool := (n.dataOffset, n.dataSize, n.used)

theorem block_next (n : Node) (next : Nat) (seam : Prop) [Decidable seam] :
    (if seam then { n with neighborNext := next }.block else n.block) =
      { n with neighborNext := if seam then next else n.neighborNext }.block := by
  split <;> rfl

theorem block_prev (n : Node) (prev : Nat) (seam : Prop) [Decidable seam] :
    (if seam then { n with neighborPrev := prev }.block else n.block) =
      { n with neighborPrev := if seam then prev else n.neighborPrev }.block := by
  split <;> rfl

/-- An edit of the neighbour list: `old` is replaced by `new`, which covers the
same bytes, and nothing but the pointers at the two seams changes elsewhere. -/
theorem Tiles.replace {a a' : Allocator} (pre old new post : List Nat) (h : Tiles a (pre ++ (old ++ post)))
    (size : a'.size = a.size) (nodup : (pre ++ (new ++ post)).Nodup)
    (mid : Linked.Chain (fun i => (a'.nodes i).neighborNext) (fun i => (a'.nodes i).neighborPrev)
      (pre.getLastD unused) new (post.headD unused)) (bytes : ∀ lo hi,
      Cover.Covers (fun i => (a.nodes i).dataOffset) (fun i => (a.nodes i).dataSize) lo old hi →
      Cover.Covers (fun i => (a'.nodes i).dataOffset) (fun i => (a'.nodes i).dataSize) lo new hi)
    (before : ∀ j ∈ pre, (a'.nodes j).block =
      if pre.getLast? = some j then { a.nodes j with neighborNext := new.headD (post.headD unused) }.block
      else (a.nodes j).block) (after : ∀ j ∈ post, (a'.nodes j).block =
      if post.head? = some j then { a.nodes j with neighborPrev := new.getLastD (pre.getLastD unused) }.block
      else (a.nodes j).block)
    (gaps : new.IsChain (fun i j => (a'.nodes i).used = true ∨ (a'.nodes j).used = true))
    (left : ∀ i ∈ pre.getLast?, ∀ j ∈ (new ++ post).head?, (a'.nodes i).used = true ∨ (a'.nodes j).used = true)
    (right : ∀ i ∈ new.getLast?, ∀ j ∈ post.head?, (a'.nodes i).used = true ∨ (a'.nodes j).used = true) :
    Tiles a' (pre ++ (new ++ post)) := by
  have nodup_pre : pre.Nodup := List.Nodup.of_append_left nodup
  have nodup_post : post.Nodup := List.Nodup.of_append_right (List.Nodup.of_append_right nodup)
  have pre_fields := fun j hj => block_eq.mp ((before j hj).trans (block_next ..))
  have post_fields := fun j hj => block_eq.mp ((after j hj).trans (block_prev ..))
  constructor
  case linked =>
    exact Linked.chain_splice pre old new post h.linked nodup_pre nodup_post mid
      (fun j hj => (pre_fields j hj).2.2.2.1) (fun j hj => (pre_fields j hj).2.2.1)
      (fun j hj => (post_fields j hj).2.2.2.1) (fun j hj => (post_fields j hj).2.2.1)
  case nodup => exact nodup
  case cover =>
    obtain ⟨lo, first, rest⟩ := Cover.covers_append.mp h.cover
    obtain ⟨hi, middle, last⟩ := Cover.covers_append.mp rest
    rw [size]
    refine Cover.covers_append.mpr ⟨lo, ?_, Cover.covers_append.mpr ⟨hi, bytes lo hi middle, ?_⟩⟩
    · exact Cover.covers_congr (fun j hj => ⟨(pre_fields j hj).1, (pre_fields j hj).2.1⟩) first
    · exact Cover.covers_congr (fun j hj => ⟨(post_fields j hj).1, (post_fields j hj).2.1⟩) last
  case merged =>
    obtain ⟨first, rest, -⟩ := List.isChain_append.mp h.merged
    obtain ⟨-, last, -⟩ := List.isChain_append.mp rest
    refine List.isChain_append.mpr ⟨?_, List.isChain_append.mpr ⟨gaps, ?_, right⟩, left⟩
    · apply first.imp_of_mem_imp
      intro i j hi hj either
      rwa [(pre_fields i hi).2.2.2.2, (pre_fields j hj).2.2.2.2]
    · apply last.imp_of_mem_imp
      intro i j hi hj either
      rwa [(post_fields i hi).2.2.2.2, (post_fields j hj).2.2.2.2]

theorem Tiles.mono {a a' : Allocator} {tiles : List Nat} {used : Nat → Bool} (h : Tiles a tiles)
    (size : a'.size = a.size) (kept : ∀ j, (a'.nodes j).block = { a.nodes j with used := used j }.block)
    (more : ∀ j, (a.nodes j).used = true → used j = true) : Tiles a' tiles := by
  have fields := fun j => block_eq.mp (kept j)
  constructor
  case linked => exact Linked.chain_congr (fun j _ => (fields j).2.2.2.1) (fun j _ => (fields j).2.2.1) h.linked
  case nodup => exact h.nodup
  case cover =>
    rw [size]
    exact Cover.covers_congr (fun j _ => ⟨(fields j).1, (fields j).2.1⟩) h.cover
  case merged =>
    refine h.merged.imp fun i j either => ?_
    rw [(fields i).2.2.2.2, (fields j).2.2.2.2]
    exact either.imp (more i) (more j)

/-- The entries of the freelist from the offset on are spare node indices, and the
offset counts the indices in use. -/
structure FreeNodes (a : Allocator) (inUse : Finset Nat) : Prop where
  offset : a.freeOffset = inUse.card
  below : ∀ i ∈ inUse, i < a.currentCapacity
  spare : ∀ j, a.freeOffset ≤ j → j < a.currentCapacity →
    a.freeNodes j < a.currentCapacity ∧ a.freeNodes j ∉ inUse
  distinct : Set.InjOn a.freeNodes (Set.Ico a.freeOffset a.currentCapacity)

section FreeNodes
variable {a a' : Allocator} {inUse : Finset Nat}
variable (h : FreeNodes a inUse)
include h

theorem FreeNodes.card_le : a.freeOffset ≤ a.currentCapacity := by
  have subset : inUse ⊆ range a.currentCapacity := fun i hi => mem_range.mpr (h.below i hi)
  have card := card_le_card subset
  rw [card_range] at card
  exact h.offset ▸ card

/-- By counting, every index that is not in use is on the freelist. -/
theorem FreeNodes.exact : (Finset.Ico a.freeOffset a.currentCapacity).image a.freeNodes =
      Finset.range a.currentCapacity \ inUse := by
  have used : inUse ⊆ range a.currentCapacity := fun i hi => mem_range.mpr (h.below i hi)
  apply eq_of_subset_of_card_le
  · intro i hi
    obtain ⟨j, hj, rfl⟩ := mem_image.mp hi
    have range := mem_Ico.mp hj
    have spare := h.spare j range.1 range.2
    exact mem_sdiff.mpr ⟨mem_range.mpr spare.1, spare.2⟩
  · have injective : Set.InjOn a.freeNodes (Finset.Ico a.freeOffset a.currentCapacity : Set Nat) := by
      rw [coe_Ico]
      exact h.distinct
    rw [card_sdiff_of_subset used, card_range, card_image_of_injOn injective, Nat.card_Ico,
      h.offset]

theorem FreeNodes.congr (nodes : a'.freeNodes = a.freeNodes)
    (offset : a'.freeOffset = a.freeOffset) (bounds : a'.bounds = a.bounds) : FreeNodes a' inUse := by
  simp only [Allocator.bounds, Prod.mk.injEq] at bounds
  constructor
  · rw [offset]; exact h.offset
  · rw [bounds.2.1]; exact h.below
  · rw [offset, bounds.2.1, nodes]; exact h.spare
  · rw [offset, bounds.2.1, nodes]; exact h.distinct

theorem FreeNodes.take (room : a.freeOffset < a.currentCapacity)
    (nodes : a'.freeNodes = a.freeNodes) (offset : a'.freeOffset = a.freeOffset + 1) (bounds : a'.bounds = a.bounds) :
    FreeNodes a' (insert (a.freeNodes a.freeOffset) inUse) := by
  have first := h.spare a.freeOffset (Nat.le_refl _) room
  simp only [Allocator.bounds, Prod.mk.injEq] at bounds
  constructor
  · rw [offset, card_insert_of_notMem first.2, h.offset]
  · intro i hi
    rw [bounds.2.1]
    rcases mem_insert.mp hi with rfl | hi
    · exact first.1
    · exact h.below i hi
  · intro j low high
    rw [bounds.2.1] at high ⊢
    rw [offset] at low
    rw [nodes]
    have spare := h.spare j (by omega) high
    refine ⟨spare.1, ?_⟩
    intro member
    rcases mem_insert.mp member with eq | member
    · have same := h.distinct ⟨by omega, high⟩ ⟨Nat.le_refl _, room⟩ eq
      omega
    · exact spare.2 member
  · rw [nodes, offset, bounds.2.1]
    apply h.distinct.mono
    rintro j ⟨low, high⟩
    exact ⟨by omega, high⟩

theorem FreeNodes.push {i : Nat} (member : i ∈ inUse)
    (nodes : a'.freeNodes = Function.update a.freeNodes (a.freeOffset - 1) i)
    (offset : a'.freeOffset = a.freeOffset - 1) (bounds : a'.bounds = a.bounds) :
    FreeNodes a' (inUse.erase i) := by
  have positive : 0 < a.freeOffset := h.offset ▸ card_pos.mpr ⟨i, member⟩
  simp only [Allocator.bounds, Prod.mk.injEq] at bounds
  constructor
  · rw [offset, card_erase_of_mem member, h.offset]
  · intro j hj
    rw [bounds.2.1]
    exact h.below j (mem_of_mem_erase hj)
  · intro j low high
    rw [bounds.2.1] at high ⊢
    rw [offset] at low
    rw [nodes]
    rcases Nat.eq_or_lt_of_le low with rfl | above
    · rw [update_self]
      exact ⟨h.below i member, notMem_erase i inUse⟩
    · rw [update_of_ne (by omega)]
      have spare := h.spare j (by omega) high
      exact ⟨spare.1, fun inside => spare.2 (mem_of_mem_erase inside)⟩
  · -- The new entry is in use before, so no other entry can hold it.
    have other : ∀ j, a.freeOffset ≤ j → j < a.currentCapacity → a.freeNodes j ≠ i :=
      fun j low high eq => (h.spare j low high).2 (eq ▸ member)
    rw [offset, bounds.2.1, nodes]
    rintro j ⟨jlow, jhigh⟩ k ⟨klow, khigh⟩ eq
    rcases Nat.eq_or_lt_of_le jlow with rfl | jabove
    · rcases Nat.eq_or_lt_of_le klow with rfl | kabove
      · rfl
      · rw [update_self, update_of_ne (by omega)] at eq
        exact absurd eq.symm (other k (by omega) khigh)
    · rcases Nat.eq_or_lt_of_le klow with rfl | kabove
      · rw [update_self, update_of_ne (by omega)] at eq
        exact absurd eq (other j (by omega) jhigh)
      · rw [update_of_ne (by omega), update_of_ne (by omega)] at eq
        exact h.distinct ⟨by omega, jhigh⟩ ⟨by omega, khigh⟩ eq

theorem FreeNodes.grow :
    FreeNodes a.growFreeNodes inUse ∧ (a.freeOffset < a.maxCapacity → a.currentCapacity ≤ a.maxCapacity →
      a.growFreeNodes.freeOffset < a.growFreeNodes.currentCapacity ∧
      a.growFreeNodes.currentCapacity ≤ a.growFreeNodes.maxCapacity) := by
  have le := h.card_le
  unfold Allocator.growFreeNodes
  split
  · rename_i full
    constructor
    · constructor
      · exact h.offset
      · exact fun i hi => Nat.lt_succ_of_lt (h.below i hi)
      · intro j low high
        have last : j = a.currentCapacity := by
          simp only at low high
          omega
        simp only [last, update_self]
        exact ⟨Nat.lt_succ_self _, fun inside => absurd (h.below _ inside) (Nat.lt_irrefl _)⟩
      · rintro j ⟨jlow, jhigh⟩ k ⟨klow, khigh⟩ _
        simp only at jlow jhigh klow khigh
        omega
    · intro below limit
      simp only
      omega
  · rename_i spare
    refine ⟨h, fun below limit => ⟨by omega, limit⟩⟩

end FreeNodes

end Mooncake.Offset
