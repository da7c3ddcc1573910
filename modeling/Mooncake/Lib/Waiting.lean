import Mathlib.Data.List.Nodup

/-! Threads that wait for each other: locks that one thread at a time has, and boxes of requests of which every
thread has at most one. -/
namespace Waiting

open Function List

theorem update_eq_iff {α β : Type} [DecidableEq α] {f : α → β} {a x : α} {b y : β} :
    update f a b x = y ↔ x = a ∧ b = y ∨ x ≠ a ∧ f x = y := by
  rw [update_apply, ite_eq_iff]

section Locks
variable {κ ℓ : Type} {lock : ℓ → Option κ} {holding : κ → Option ℓ} {e : ℓ} {t : κ}

def Held (lock : ℓ → Option κ) (holding : κ → Option ℓ) : Prop := ∀ e t, lock e = some t ↔ holding t = some e

variable [DecidableEq κ] [DecidableEq ℓ]

theorem Held.acquire (held : Held lock holding) (free : lock e = none) (idle : holding t = none) :
    Held (update lock e (some t)) (update holding t (some e)) := by
  intro e' t'
  have others (has : holding t' = some e') : e' ≠ e ∧ t' ≠ t := by
    refine ⟨?_, ?_⟩
    · rintro rfl
      cases free.symm.trans ((held e' t').mpr has)
    · rintro rfl
      cases idle.symm.trans has
  rw [update_eq_iff, update_eq_iff, held e' t', and_iff_right_of_imp fun has => (others has).1,
    and_iff_right_of_imp fun has => (others has).2]
  simp [and_comm, eq_comm]

theorem Held.release (held : Held lock holding) (mine : lock e = some t) :
    Held (update lock e none) (update holding t none) := by
  intro e' t'
  have others (has : holding t' = some e') : e' = e ↔ t' = t := by
    refine ⟨?_, ?_⟩
    · rintro rfl
      exact Option.some.inj (((held e' t').mpr has).symm.trans mine)
    · rintro rfl
      exact Option.some.inj (has.symm.trans ((held e t').mp mine))
  rw [update_eq_iff, update_eq_iff, held e' t', and_congr_left fun has => not_congr (others has)]
  simp

end Locks

section Boxes
variable {κ π ρ : Type} {client : ρ → κ} {pending : κ → Option (π × ρ)} {box : π → List ρ} {p : π} {r : ρ} {rest : List ρ}

/-- A request is in a box exactly if its thread waits for it there. -/
structure Mail (client : ρ → κ) (pending : κ → Option (π × ρ)) (box : π → List ρ) : Prop where
  posted : ∀ p r, r ∈ box p ↔ pending (client r) = some (p, r)
  once : ∀ p, (box p).Nodup

variable [DecidableEq κ] [DecidableEq π]

theorem Mail.send (mail : Mail client pending box) (p : π) (r : ρ) (idle : pending (client r) = none) :
    Mail client (update pending (client r) (some (p, r))) (update box p (box p ++ [r])) := by
  have absent : ∀ q, r ∉ box q := fun q member => by
    cases idle.symm.trans ((mail.posted q r).mp member)
  have others : ∀ q r', client r' = client r → r' ∉ box q := fun q r' same member => by
    cases idle.symm.trans (same ▸ (mail.posted q r').mp member)
  refine ⟨fun q r' => ?_, (forall_update_iff box fun _ l => l.Nodup).mpr ⟨?_, fun q _ => mail.once q⟩⟩
  · by_cases mine : client r' = client r
    · rw [mine, update_self]
      by_cases here : q = p
      · subst here
        rw [update_self, mem_append, mem_singleton]
        simp [others q r' mine, eq_comm]
      · rw [update_of_ne here]
        simp [others q r' mine, Ne.symm here]
    · rw [update_of_ne mine, ← mail.posted]
      by_cases here : q = p
      · subst here
        rw [update_self, mem_append, mem_singleton]
        exact or_iff_left (fun same => mine (congrArg client same))
      · rw [update_of_ne here]
  · exact nodup_append.mpr ⟨mail.once p, nodup_singleton r, fun a member b last same =>
      absent p (mem_singleton.mp last ▸ same ▸ member)⟩

theorem Mail.answer (mail : Mail client pending box) (first : box p = r :: rest) :
    Mail client (update pending (client r) none) (update box p rest) := by
  have unique : ∀ q r', client r' = client r → r' ∈ box q → q = p ∧ r' = r := fun q r' same member => by
    have waiting := (mail.posted p r).mp (first ▸ mem_cons_self)
    cases waiting.symm.trans (same ▸ (mail.posted q r').mp member)
    exact ⟨rfl, rfl⟩
  have distinct : (r :: rest).Nodup := first ▸ mail.once p
  refine ⟨fun q r' => ?_, (forall_update_iff box fun _ l => l.Nodup).mpr ⟨?_, fun q _ => mail.once q⟩⟩
  · by_cases mine : client r' = client r
    · rw [mine, update_self]
      refine ⟨fun member => ?_, fun none => nomatch none⟩
      by_cases here : q = p
      · subst here
        rw [update_self] at member
        cases (unique q r' mine (first ▸ mem_cons_of_mem r member)).2
        exact absurd member (nodup_cons.mp distinct).1
      · rw [update_of_ne here] at member
        exact absurd (unique q r' mine member).1 here
    · rw [update_of_ne mine, ← mail.posted]
      by_cases here : q = p
      · subst here
        rw [update_self, first, mem_cons]
        exact (or_iff_right (fun same => mine (congrArg client same))).symm
      · rw [update_of_ne here]
  · exact (nodup_cons.mp distinct).2

end Boxes

end Waiting
