import Mathlib.Logic.Basic

/-! Runs of a state machine given by a partial step function. An event that the
machine refuses has no successor; a guard restricts the runs one speaks about,
and may read the state in which the event happens. -/
namespace Run

open Option
variable {σ ε : Type}

def run (step : σ → ε → Option σ) : σ → List ε → Option σ
  | s, [] => some s
  | s, e :: es => (step s e).bind (fun s' => run step s' es)

/-- Every event of the run meets the guard in the state in which it happens. -/
def Guarded (step : σ → ε → Option σ) (guard : σ → ε → Prop) : σ → List ε → Prop
  | _, [] => True
  | s, e :: es => guard s e ∧ ∀ s', step s e = some s' → Guarded step guard s' es

/-- Every step of the run has the property, which may speak of the state before it and after it. -/
def Every (step : σ → ε → Option σ) (Q : σ → ε → σ → Prop) : σ → List ε → Prop
  | _, [] => True
  | s, e :: es => ∀ s', step s e = some s' → Q s e s' ∧ Every step Q s' es

variable {step : σ → ε → Option σ} {guard : σ → ε → Prop}

instance decidableGuarded [∀ s e, Decidable (guard s e)] : ∀ s es, Decidable (Guarded step guard s es)
  | _, [] => .isTrue trivial
  | s, e :: es =>
    match next : step s e with
    | none => decidable_of_iff (guard s e) ⟨fun h => ⟨h, fun _ some => nomatch next.symm.trans some⟩, fun h => h.1⟩
    | some s' =>
      have := decidableGuarded s' es
      decidable_of_iff (guard s e ∧ Guarded step guard s' es)
        ⟨fun h => ⟨h.1, fun _ same => Option.some.inj (next.symm.trans same) ▸ h.2⟩, fun h => ⟨h.1, h.2 s' next⟩⟩

variable {es : List ε} {P : σ → Prop} {Q : σ → ε → σ → Prop} {accept : ε → Prop} {s s' : σ}

theorem run_cons {e : ε} (h : run step s (e :: es) = some s') :
    ∃ mid, step s e = some mid ∧ run step mid es = some s' :=
  bind_eq_some_iff.mp h

theorem run_append (s : σ) (es fs : List ε) :
    run step s (es ++ fs) = (run step s es).bind (fun mid => run step mid fs) := by
  induction es generalizing s with
  | nil => rfl
  | cons e es ih =>
    simp only [List.cons_append, run, bind_assoc]
    exact congrArg _ (funext ih)

/-- A property kept by every guarded step holds after every guarded run. -/
theorem guarded_invariant (kept : ∀ s e s', P s → guard s e → step s e = some s' → P s') (start : P s)
    (h : run step s es = some s') (meets : Guarded step guard s es) : P s' := by
  induction es generalizing s with
  | nil =>
    cases h
    exact start
  | cons e es ih =>
    obtain ⟨mid, first, rest⟩ := run_cons h
    exact ih (kept s e mid start meets.1 first) rest (meets.2 mid first)

/-- What every guarded step does from a state with the property, all steps of a guarded run do. -/
theorem guarded_every (kept : ∀ s e s', P s → guard s e → step s e = some s' → P s' ∧ Q s e s') (start : P s)
    (meets : Guarded step guard s es) : Every step Q s es := by
  induction es generalizing s with
  | nil => trivial
  | cons e es ih =>
    intro s' next
    obtain ⟨after, here⟩ := kept s e s' start meets.1 next
    exact ⟨here, ih after (meets.2 s' next)⟩

theorem guarded_of_forall (s : σ) (all : ∀ e ∈ es, accept e) : Guarded step (fun _ e => accept e) s es := by
  induction es generalizing s with
  | nil => trivial
  | cons e es ih => exact ⟨all e (by simp), fun s' _ => ih s' (fun f hf => all f (by simp [hf]))⟩

/-- A property kept by every step holds after every run. -/
theorem invariant (kept : ∀ s e s', P s → step s e = some s' → P s') (start : P s) (h : run step s es = some s') :
    P s' :=
  guarded_invariant (fun s e s' before _ => kept s e s' before) start h
    (guarded_of_forall s fun _ _ => True.intro)

/-- Where a step has a property exactly if it meets the guard, so has a run, even if what the
property rests on is kept by the guarded steps only. -/
theorem every_iff_guarded_of_kept (kept : ∀ s e s', P s → guard s e → step s e = some s' → P s')
    (exact : ∀ s e s', P s → step s e = some s' → (Q s e s' ↔ guard s e)) (start : P s)
    (h : run step s es = some s') : Every step Q s es ↔ Guarded step guard s es := by
  induction es generalizing s with
  | nil => exact Iff.rfl
  | cons e es ih =>
    obtain ⟨mid, first, rest⟩ := run_cons h
    have here := exact s e mid start first
    constructor
    · intro every
      have met := here.mp (every mid first).1
      refine ⟨met, fun s' same => ?_⟩
      cases first.symm.trans same
      exact (ih (kept s e mid start met first) rest).mp (every mid first).2
    · rintro ⟨met, guarded⟩ s' same
      cases first.symm.trans same
      exact ⟨here.mpr met, (ih (kept s e mid start met first) rest).mpr (guarded mid first)⟩

theorem every_iff_guarded (kept : ∀ s e s', P s → step s e = some s' → P s')
    (exact : ∀ s e s', P s → step s e = some s' → (Q s e s' ↔ guard s e)) (start : P s)
    (h : run step s es = some s') : Every step Q s es ↔ Guarded step guard s es :=
  every_iff_guarded_of_kept (fun s e s' before _ first => kept s e s' before first) exact start h

/-- Where a step leaves a property exactly if it held before and the step meets the guard, a run does so
exactly if it held at the start and all its steps meet the guard. -/
theorem holds_iff_guarded {Q : σ → Prop} (kept : ∀ s e s', P s → accept e → step s e = some s' → P s')
    (exact : ∀ s e s', P s → accept e → step s e = some s' → (Q s' ↔ Q s ∧ guard s e)) (start : P s)
    (all : ∀ e ∈ es, accept e) (h : run step s es = some s') : Q s' ↔ Q s ∧ Guarded step guard s es := by
  induction es generalizing s with
  | nil =>
    cases h
    exact (and_iff_left trivial).symm
  | cons e es ih =>
    obtain ⟨mid, first, rest⟩ := run_cons h
    have accepted := all e List.mem_cons_self
    have later := ih (kept s e mid start accepted first) (fun f member => all f (List.mem_cons_of_mem _ member)) rest
    have here : (∀ s', step s e = some s' → Guarded step guard s' es) ↔ Guarded step guard mid es :=
      ⟨fun guarded => guarded mid first, fun guarded s' same => some.inj (first.symm.trans same) ▸ guarded⟩
    rw [later, exact s e mid start accepted first, and_assoc, Guarded, here]

/-- A guard that does not read the state is a condition on the events. -/
theorem guarded_iff_forall (h : run step s es = some s') :
    Guarded step (fun _ e => accept e) s es ↔ ∀ e ∈ es, accept e := by
  refine ⟨fun guarded => ?_, guarded_of_forall s⟩
  induction es generalizing s with
  | nil => exact fun _ none => nomatch none
  | cons e es ih =>
    obtain ⟨mid, first, rest⟩ := run_cons h
    exact List.forall_mem_cons.mpr ⟨guarded.1, ih rest (guarded.2 mid first)⟩

end Run
