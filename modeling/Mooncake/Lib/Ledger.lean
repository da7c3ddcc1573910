import Mathlib.Algebra.Order.Group.Multiset

/-! Items that are accepted once, are pending in one place at a time, and are settled once. One counter has the
items that became pending, another those among them that have been settled. -/
namespace Ledger

open Multiset

theorem coe_flatMap_set {α β : Type} {f : α → List β} {l : List α} {i : Nat} {a : α} (found : l[i]? = some a)
    (b : α) :
    (((l.set i b).flatMap f : List β) : Multiset β) + f a = ((l.flatMap f : List β) : Multiset β) + f b := by
  induction l generalizing i with
  | nil => cases found
  | cons head rest ih =>
    cases i with
    | zero =>
      cases found
      rw [List.set_cons_zero, List.flatMap_cons, List.flatMap_cons, ← coe_add, ← coe_add, add_right_comm,
        add_comm (ofList (f b)), add_right_comm]
    | succ i =>
      rw [List.set_cons_succ, List.flatMap_cons, List.flatMap_cons, ← coe_add, ← coe_add, add_assoc, add_assoc,
        ih found]

variable {α : Type} [DecidableEq α]

structure Balanced (accepted : α → Bool) (settled : α → Nat) (pending : Multiset α)
    (submitted processed : Nat) : Prop where
  once : ∀ x, pending.count x + settled x = if accepted x then 1 else 0
  tally : processed + pending.card = submitted

namespace Balanced
variable {accepted accepted' : α → Bool} {settled settled' : α → Nat} {pending : Multiset α}
  {submitted processed : Nat} {x : α}

section
variable (h : Balanced accepted settled pending submitted processed)
include h

theorem nodup : pending.Nodup := by
  apply nodup_iff_count_le_one.mpr
  intro y
  have once := h.once y
  split at once
  · omega
  · omega

theorem of_mem (member : x ∈ pending) : accepted x = true := by
  have once := h.once x
  have present := count_pos.mpr member
  cases known : accepted x with
  | true => rfl
  | false =>
    rw [known, if_neg Bool.false_ne_true] at once
    omega

theorem accept (new : accepted x = false) (now : accepted' x = true)
    (others : ∀ y, y ≠ x → accepted' y = accepted y) (same : ∀ y, settled' y = settled y) :
    Balanced accepted' settled' (pending + {x}) (submitted + 1) processed := by
  refine ⟨fun y => ?_, ?_⟩
  · have once := h.once y
    rw [count_add, count_singleton, same y]
    by_cases here : y = x
    · subst here
      rw [new, if_neg Bool.false_ne_true] at once
      rw [now, if_pos rfl, if_pos rfl]
      omega
    · rw [if_neg here, others y here]
      exact once
  · have tally := h.tally
    rw [card_add, card_singleton]
    omega

theorem refuse (new : accepted x = false) (now : accepted' x = true)
    (marked : settled' x = settled x + 1) (others : ∀ y, y ≠ x → accepted' y = accepted y ∧ settled' y = settled y) :
    Balanced accepted' settled' pending submitted processed := by
  refine ⟨fun y => ?_, h.tally⟩
  have once := h.once y
  by_cases here : y = x
  · subst here
    rw [new, if_neg Bool.false_ne_true] at once
    rw [now, if_pos rfl, marked]
    omega
  · rw [(others y here).1, (others y here).2]
    exact once

end

theorem settle (h : Balanced accepted settled (pending + {x}) submitted processed)
    (same : ∀ y, accepted' y = accepted y) (marked : settled' x = settled x + 1)
    (others : ∀ y, y ≠ x → settled' y = settled y) :
    Balanced accepted' settled' pending submitted (processed + 1) := by
  refine ⟨fun y => ?_, ?_⟩
  · have once := h.once y
    rw [count_add, count_singleton] at once
    rw [same y, ← once]
    by_cases here : y = x
    · subst here
      rw [marked, if_pos rfl]
      omega
    · rw [others y here, if_neg here, Nat.add_zero]
  · have tally := h.tally
    rw [card_add, card_singleton] at tally
    omega

theorem processed_eq_iff (h : Balanced accepted settled pending submitted processed) :
    processed = submitted ↔ pending = 0 := by
  have tally := h.tally
  rw [← card_eq_zero]
  omega

end Balanced

end Ledger
