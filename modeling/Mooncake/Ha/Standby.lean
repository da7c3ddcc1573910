import Mathlib.Algebra.Order.Group.Int
import Mooncake.Ha.Election

/-! What the supervisors that wait for the end of a leader get to know. A watch sees what happens after it
was opened; between reading the key and opening the watch the key may go away. -/
namespace Mooncake.Ha

open Option
variable {ι T : Type}

namespace State

/-- While there is no leader, everyone who waits has a deletion coming. -/
def Informed (s : State ι T) : Prop :=
  s.etcd.key = none → ∀ p pending, s.phase p = .watching pending → WatchEvent.delete ∈ pending

def OpensInTime (s : State ι T) : Event ι T → Prop
  | .act _ (.openWatch false) => s.etcd.key ≠ none
  | _ => True

instance (s : State ι T) : ∀ e, Decidable (s.OpensInTime e)
  | .act _ (.openWatch false) => inferInstanceAs (Decidable (s.etcd.key ≠ none))
  | .act _ (.openWatch true) => .isTrue trivial
  | .act _ (.get _) | .act _ .deliver | .act _ .watchFails | .act _ (.grant _) | .act _ .send | .act _ .receive
  | .act _ .timeout | .act _ .wake | .act _ .keepAliveReturns | .act _ .stop | .act _ (.start _) | .act _ .serverFails
  | .act _ .join | .commit _ _ | .renew _ | .endLease _ | .write | .pass _ => .isTrue trivial

section
variable {s s' : State ι T}

theorem Informed.congr (informed : s.Informed) (key : s'.etcd.key = none → s.etcd.key = none)
    (phase : s'.phase = s.phase) : s'.Informed := fun gone p pending waits =>
  informed (key gone) p pending (phase ▸ waits)

theorem informed_notify_delete : (s.notify .delete).Informed := by
  intro _ p pending same
  simp only [State.notify] at same
  split at same
  · cases same
    exact List.mem_append_right _ List.mem_cons_self
  next other => exact absurd same (other pending)

theorem Informed.endLease (informed : s.Informed) (lease : Nat) : (s.endLease lease).Informed := by
  unfold State.endLease
  simp only
  split
  · exact informed_notify_delete
  next kept =>
    refine informed.congr (fun gone => ?_) rfl
    by_contra present
    exact kept ⟨isSome_iff_ne_none.mpr present, gone⟩

theorem effect_phase [AddCommGroup T] [LinearOrder T] (timing : Timing T) (s : State ι T) (p : ι)
    (action : Action) (φ : Phase T) :
    (s.effect timing p action φ).phase = s.phase ∧ (s.effect timing p action φ).etcd.key = s.etcd.key := by
  unfold State.effect
  split
  · exact ⟨rfl, rfl⟩
  · exact ⟨rfl, rfl⟩
  · split <;> exact ⟨rfl, rfl⟩
  · exact ⟨rfl, rfl⟩

variable [DecidableEq ι]

theorem phase_enter (s : State ι T) (p q : ι) (φ : Phase T) :
    (s.enter p φ).phase q = if q = p then φ else s.phase q := Function.update_apply _ _ _ _

theorem Informed.enter (informed : s.Informed) (p : ι) {φ : Phase T}
    (waits : ∀ pending, φ = .watching pending → s.etcd.key = none → WatchEvent.delete ∈ pending) :
    (s.enter p φ).Informed := by
  intro gone q pending same
  rw [phase_enter] at same
  split at same
  · exact waits pending same gone
  · exact informed gone q pending same

theorem Informed.answer [LinearOrder T] (informed : s.Informed) (p : ι) (lease : Nat) (result : Option Nat) :
    (s.answer p lease result).Informed := by
  unfold State.answer
  split
  · exact informed.enter p (fun _ wrong => nomatch wrong)
  · exact informed

theorem Informed.commit [LinearOrder T] (informed : s.Informed) (p : ι) (lease : Nat) :
    (s.commit p lease).Informed := by
  unfold State.commit
  simp only
  split
  · have rest : State.Informed { s with requests := s.requests.erase (p, lease) } := informed.congr (fun gone => gone) rfl
    exact rest.answer p lease none
  next etcd created =>
    have present : etcd.key ≠ none := by
      unfold Etcd.createWithLease at created
      split at created
      · cases created
        exact some_ne_none _
      · cases created
    have rest : (State.notify { s with requests := s.requests.erase (p, lease), etcd := etcd } .put).Informed :=
      fun gone => absurd gone present
    exact rest.answer p lease _

variable [AddCommGroup T] [LinearOrder T] {timing : Timing T}

theorem next_watching {e : Etcd T} {action : Action} {φ : Phase T} {pending : List WatchEvent}
    (next : Phase.next timing e action φ = some (.watching pending)) :
    action = .openWatch false ∧ pending = [] ∨ φ = .watching (.put :: pending) := by
  unfold Phase.next at next
  split at next
  case h_1 =>
    split at next
    · cases next
    · split at next <;> cases next
  case h_2 fails =>
    cases fails with
    | false => cases next; exact .inl ⟨rfl, rfl⟩
    | true => cases next
  case h_3 => cases next; exact .inr rfl
  case h_6 => split at next <;> cases next
  case h_14 =>
    split at next
    · obtain ⟨_, _, same⟩ := map_eq_some_iff.mp next
      cases same
    · cases next
  case h_16 =>
    unfold Phase.join at next
    split at next <;> cases next
  all_goals first | cases next | (split at next <;> cases next)

theorem informed_act_iff {p : ι} {action : Action} (informed : s.Informed) (step : s.act timing p action = some s') :
    s'.Informed ↔ s.OpensInTime (.act p action) := by
  obtain ⟨φ, next, rfl⟩ := map_eq_some_iff.mp step
  obtain ⟨phases, key⟩ := effect_phase timing (s.enter p φ) p action φ
  constructor
  · intro after
    cases action with
    | openWatch fails =>
      cases fails with
      | true => trivial
      | false =>
        intro gone
        have opened : φ = .watching [] := by
          unfold Phase.next at next
          split at next <;> simp_all
        have coming := after (key.trans gone) p [] (by rw [phases, phase_enter, if_pos rfl, opened])
        cases coming
    | _ => trivial
  · intro opens
    have entered : (s.enter p φ).Informed := by
      refine informed.enter p (fun pending same gone => ?_)
      subst same
      rcases next_watching next with ⟨rfl, -⟩ | waited
      · exact absurd gone opens
      · exact (List.mem_cons.mp (informed gone p _ waited)).resolve_left (fun wrong => nomatch wrong)
    exact entered.congr (fun gone => key.symm.trans gone) phases

variable [Fintype ι]

/-- A step leaves everyone informed exactly if it does not open a watch too late. -/
theorem informed_step_iff {e : Event ι T} (informed : s.Informed) (step : s.step timing e = some s') :
    s'.Informed ↔ s.OpensInTime e := by
  cases e with
  | act p action => exact informed_act_iff informed step
  | commit p lease =>
    simp only [State.step] at step
    split at step
    · cases step
      exact iff_of_true (informed.commit p lease) trivial
    · cases step
  | renew lease =>
    cases step
    have key : (s.etcd.renew timing lease).key = s.etcd.key := by
      unfold Etcd.renew
      split <;> rfl
    exact iff_of_true (informed.congr (fun gone => key.symm.trans gone) rfl) trivial
  | endLease lease =>
    simp only [State.step] at step
    split at step
    · cases step
      exact iff_of_true (informed.endLease lease) trivial
    · cases step
  | write =>
    cases step
    exact iff_of_true (informed.congr (fun gone => gone) rfl) trivial
  | pass duration =>
    simp only [State.step] at step
    split at step
    · cases step
      exact iff_of_true (informed.congr (fun gone => gone) rfl) trivial
    · cases step

end

/-- In every run of any number of supervisors: every state that is reached has everyone who waits without
a leader informed, exactly if every watch was opened while the key was there. -/
theorem informed_iff_opens_in_time [DecidableEq ι] [Fintype ι] [AddCommGroup T] [LinearOrder T] (timing : Timing T)
    {s' : State ι T} {events : List (Event ι T)} (run : Run.run (step timing) start events = some s') :
    Run.Every (step timing) (fun _ _ after => after.Informed) start events ↔
      Run.Guarded (step timing) OpensInTime start events :=
  Run.every_iff_guarded_of_kept (fun _ _ _ informed opens step => (informed_step_iff informed step).mpr opens)
    (fun _ _ _ informed step => informed_step_iff informed step) (fun _ _ _ wrong => nomatch wrong) run

end State

namespace Sample

def timing : Timing Int := ⟨5, 1, by decide, by decide⟩

def elect (p : Bool) (lease : Nat) : List (Event Bool Int) :=
  [.act p (.get false), .act p (.grant false), .act p .send, .commit p lease, .act p .receive]

def waitsForFirst : List (Event Bool Int) :=
  elect false 0 ++ [.act true (.get false), .act true (.openWatch false), .pass 5, .endLease 0]

def missesTheEnd : List (Event Bool Int) :=
  elect false 0 ++ [.act true (.get false), .pass 5, .endLease 0, .act true (.openWatch false)]

end Sample

open Sample in
theorem standby_hears_of_the_end :
    Run.Every (State.step timing) (fun _ _ after => after.Informed) State.start waitsForFirst :=
  have fits : (Run.run (State.step timing) State.start waitsForFirst).isSome := by decide +kernel
  (State.informed_iff_opens_in_time timing (eq_some_of_isSome fits)).mpr (by decide +kernel)

open Sample in
/-- There is no leader, nothing is under way, and the second supervisor waits for an event that will not come.
-/
theorem standby_misses_the_end :
    (Run.run (State.step timing) State.start missesTheEnd).map (fun s => (s.etcd.key, s.phase true)) =
      some (none, .watching []) := by
  decide +kernel

end Mooncake.Ha
