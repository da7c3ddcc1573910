import Mathlib.Algebra.BigOperators.Group.List.Basic
import Mathlib.Algebra.GroupWithZero.Nat

/-! Lists of blocks that cover an interval of the naturals from left to right,
without a gap and without an overlap. A block is any index with a start and a
length; the empty interval is covered by no block or by empty ones. -/
namespace Cover

def Covers (start length : α → Nat) : Nat → List α → Nat → Prop
  | lo, [], hi => lo = hi
  | lo, x :: xs, hi => start x = lo ∧ Covers start length (lo + length x) xs hi

section Covers
variable {start length : α → Nat}

variable {xs : List α} {lo hi : Nat}

theorem covers_append {ys : List α} :
    Covers start length lo (xs ++ ys) hi ↔
      ∃ mid, Covers start length lo xs mid ∧ Covers start length mid ys hi := by
  induction xs generalizing lo with
  | nil => simp [Covers]
  | cons x xs ih =>
    simp only [List.cons_append, Covers, ih, and_assoc, exists_and_left]

theorem covers_sum (h : Covers start length lo xs hi) : lo + (xs.map length).sum = hi := by
  induction xs generalizing lo with
  | nil => exact h
  | cons x xs ih =>
    have rest := ih h.2
    simp only [List.map_cons, List.sum_cons]
    omega

theorem covers_unique {lo lo' hi hi' : Nat} (h : Covers start length lo xs hi) (h' : Covers start length lo' xs hi')
    (some_block : xs ≠ []) : lo = lo' ∧ hi = hi' := by
  have same : lo = lo' := by
    cases xs with
    | nil => exact absurd rfl some_block
    | cons x xs => exact h.1.symm.trans h'.1
  exact ⟨same, (covers_sum h).symm.trans (same ▸ covers_sum h')⟩

theorem covers_congr {start' length' : α → Nat} (same : ∀ x ∈ xs, start' x = start x ∧ length' x = length x)
    (h : Covers start length lo xs hi) : Covers start' length' lo xs hi := by
  induction xs generalizing lo with
  | nil => exact h
  | cons x xs ih =>
    have hx := same x (by simp)
    refine ⟨hx.1.trans h.1, ?_⟩
    rw [hx.2]
    exact ih (fun y hy => same y (by simp [hy])) h.2

theorem covers_mem {x : α} (h : Covers start length lo xs hi) (member : x ∈ xs) :
    lo ≤ start x ∧ start x + length x ≤ hi := by
  obtain ⟨pre, post, rfl⟩ := List.append_of_mem member
  obtain ⟨mid, left, first, right⟩ := covers_append.mp h
  have before := covers_sum left
  have after := covers_sum right
  omega

theorem covers_disjoint {x y : α} (h : Covers start length lo xs hi) (hx : x ∈ xs) (hy : y ∈ xs) (ne : x ≠ y) :
    start x + length x ≤ start y ∨ start y + length y ≤ start x := by
  induction xs generalizing lo with
  | nil => cases hx
  | cons z zs ih =>
    have first := h.1
    rcases List.mem_cons.mp hx with rfl | inX
    · rcases List.mem_cons.mp hy with rfl | inY
      · exact absurd rfl ne
      · have inside := covers_mem h.2 inY
        exact Or.inl (by omega)
    · rcases List.mem_cons.mp hy with rfl | inY
      · have inside := covers_mem h.2 inX
        exact Or.inr (by omega)
      · exact ih h.2 inX inY

end Covers

end Cover
