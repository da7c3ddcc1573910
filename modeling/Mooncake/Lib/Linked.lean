import Mathlib.Data.List.Nodup

/-! Doubly linked lists threaded through two pointer tables. A chain names its
members in order, the pointer before its first member and the pointer after its
last one, so that a list can be cut anywhere and joined again. -/
namespace Linked
open List

def Chain (next prev : α → α) : α → List α → α → Prop
  | _, [], _ => True
  | p, x :: xs, q => prev x = p ∧ next x = xs.headD q ∧ Chain next prev x xs q

theorem headD_append (xs ys : List α) (q : α) : (xs ++ ys).headD q = xs.headD (ys.headD q) := by
  cases xs <;> rfl

theorem chain_append (next prev : α → α) (p : α) (xs ys : List α) (q : α) :
    Chain next prev p (xs ++ ys) q ↔
      Chain next prev p xs (ys.headD q) ∧ Chain next prev (xs.getLastD p) ys q := by
  induction xs generalizing p with
  | nil => simp [Chain]
  | cons x xs ih =>
    simp only [cons_append, Chain, headD_append, getLastD_cons, ih]
    tauto

theorem chain_member {next prev : α → α} {p q x : α} {xs ys : List α}
    (h : Chain next prev p (xs ++ x :: ys) q) : prev x = xs.getLastD p ∧ next x = ys.headD q := by
  have tail := ((chain_append next prev p xs (x :: ys) q).mp h).2
  exact ⟨tail.1, tail.2.1⟩

theorem chain_seam {next prev : α → α} {p q x y : α} {xs ys : List α}
    (h : Chain next prev p (xs ++ y :: ys) q) (last : xs.getLast? = some x) : next x = y := by
  obtain ⟨zs, rfl⟩ := getLast?_eq_some_iff.mp last
  rw [append_assoc] at h
  exact (chain_member h).2

theorem chain_congr {next prev next' prev' : α → α} {p q : α} {xs : List α}
    (same_next : ∀ x ∈ xs, next' x = next x) (same_prev : ∀ x ∈ xs, prev' x = prev x)
    (h : Chain next prev p xs q) : Chain next' prev' p xs q := by
  induction xs generalizing p with
  | nil => trivial
  | cons x xs ih =>
    refine ⟨(same_prev x (by simp)).trans h.1, (same_next x (by simp)).trans h.2.1, ?_⟩
    exact ih (fun y hy => same_next y (by simp [hy])) (fun y hy => same_prev y (by simp [hy])) h.2.2

section Ends
variable [DecidableEq α] {next prev next' prev' : α → α}

theorem chain_end {p q q' : α} {xs : List α} (h : Chain next prev p xs q) (nodup : xs.Nodup)
    (same_prev : ∀ x ∈ xs, prev' x = prev x)
    (last_next : ∀ x ∈ xs, next' x = if xs.getLast? = some x then q' else next x) :
    Chain next' prev' p xs q' := by
  induction xs generalizing p with
  | nil => trivial
  | cons x xs ih =>
    refine ⟨(same_prev x (by simp)).trans h.1, ?_, ?_⟩
    · have hx := last_next x (by simp)
      cases xs with
      | nil => simpa using hx
      | cons y ys =>
        have notlast : ¬ (x :: y :: ys).getLast? = some x := by
          rw [getLast?_cons_cons]
          intro last
          exact (nodup_cons.mp nodup).1 (mem_of_getLast? last)
        rw [hx, if_neg notlast]
        exact h.2.1
    · apply ih h.2.2 (nodup_cons.mp nodup).2 (fun y hy => same_prev y (by simp [hy]))
      intro y hy
      cases xs with
      | nil => cases hy
      | cons z zs =>
        have hlast := last_next y (mem_cons_of_mem x hy)
        rwa [getLast?_cons_cons] at hlast

theorem chain_start {p p' q : α} {xs : List α} (h : Chain next prev p xs q) (nodup : xs.Nodup)
    (same_next : ∀ x ∈ xs, next' x = next x)
    (first_prev : ∀ x ∈ xs, prev' x = if xs.head? = some x then p' else prev x) :
    Chain next' prev' p' xs q := by
  cases xs with
  | nil => trivial
  | cons x xs =>
    refine ⟨by simpa using first_prev x (by simp), (same_next x (by simp)).trans h.2.1, ?_⟩
    apply chain_congr (fun y hy => same_next y (by simp [hy])) _ h.2.2
    intro y hy
    have other : ¬ (x :: xs).head? = some y := by
      intro first
      exact (nodup_cons.mp nodup).1 ((Option.some.inj first) ▸ hy)
    rw [first_prev y (by simp [hy]), if_neg other]

/-- Cutting a middle part out of a chain and joining another one in its place.
Insertion, removal and merging of neighbours are all instances. -/
theorem chain_splice {p q : α} (pre old new post : List α) (h : Chain next prev p (pre ++ (old ++ post)) q)
    (nodup_pre : pre.Nodup) (nodup_post : post.Nodup)
    (mid : Chain next' prev' (pre.getLastD p) new (post.headD q))
    (pre_next : ∀ x ∈ pre, next' x = if pre.getLast? = some x then new.headD (post.headD q) else next x)
    (pre_prev : ∀ x ∈ pre, prev' x = prev x) (post_next : ∀ x ∈ post, next' x = next x)
    (post_prev : ∀ x ∈ post, prev' x = if post.head? = some x then new.getLastD (pre.getLastD p) else prev x) :
    Chain next' prev' p (pre ++ (new ++ post)) q := by
  rw [chain_append, chain_append] at h
  rw [chain_append, chain_append, headD_append]
  exact ⟨chain_end h.1 nodup_pre pre_prev pre_next, mid,
    chain_start h.2.2 nodup_post post_next post_prev⟩

end Ends

end Linked
