import Mathlib.Data.List.Basic

/-! Maps in which the first value of a key stays. -/
namespace FirstWins
variable {κ ν : Type} [DecidableEq κ] (s : κ → Option ν)

def add (e : κ × ν) : κ → Option ν := fun k => if k = e.1 then (s k).or (some e.2) else s k

theorem add_apply (e : κ × ν) (k : κ) : add s e k = (s k).or ([e].lookup k) := by
  unfold add
  by_cases same : k = e.1
  · rw [if_pos same, List.lookup_cons, same, beq_self_eq_true]
  · rw [if_neg same, List.lookup_cons, beq_eq_false_iff_ne.mpr same]
    exact (Option.or_none).symm

theorem isSome_add (e : κ × ν) :
    (fun k => (add s e k).isSome) = Function.update (fun k => (s k).isSome) e.1 true := by
  funext k
  by_cases same : k = e.1
  · subst same
    cases found : s e.1 <;> simp [add, found]
  · simp [add, same]

/-- A key keeps what it had, or gets the first value that comes for it. -/
theorem foldl_add (es : List (κ × ν)) (s : κ → Option ν) (k : κ) : es.foldl add s k = (s k).or (es.lookup k) := by
  induction es generalizing s with
  | nil => exact (Option.or_none).symm
  | cons e es ih =>
    rw [List.foldl_cons, ih, add_apply, Option.or_assoc]
    congr 1
    rw [List.lookup_cons, List.lookup_cons]
    cases k == e.1
    · rfl
    · rfl

theorem foldl_add_eq_self (es : List (κ × ν)) (s : κ → Option ν) :
    es.foldl add s = s ↔ ∀ e ∈ es, s e.1 ≠ none := by
  constructor
  · intro same e member missing
    have kept := congrFun same e.1
    rw [foldl_add, missing, Option.none_or, List.lookup_eq_none_iff] at kept
    exact absurd (kept e member) (by simp)
  · intro present
    funext k
    rw [foldl_add]
    cases found : s k with
    | some v => rfl
    | none =>
      rw [Option.none_or, List.lookup_eq_none_iff]
      intro e member
      have other : k ≠ e.1 := by
        rintro rfl
        exact present e member found
      simpa using other

end FirstWins
