import Mooncake.Lib.Run
import Mooncake.Master.Types

/-! The state behind the future of a batch of transfer engine tasks. Whoever looks at the
future makes the state ask the engine for the status of every task. Several threads may poll,
each under the mutex of the state; a thread that gives up at the time limit calls
`set_result_internal` without it. The test and the write of that function are two steps. -/
namespace Mooncake.Client
open Master (ErrorCode)

inductive TransferStatusEnum where
  | waiting
  | pending
  | invalid
  | canceled
  | completed
  | timeout
  | failed
deriving DecidableEq

/-- What `getTransferStatus` answers for each task, `none` if the query itself fails. -/
abbrev Report : Type := Nat → Option TransferStatusEnum

def Failing : Option TransferStatusEnum → Bool
  | none | some .failed | some .canceled | some .invalid => true
  | _ => false

structure TransferEngineOperationState where
  batchSize : Nat
  result : Option ErrorCode := none
  /-- The holder of the mutex, about to write what it has made of the report. -/
  writer : Option (ErrorCode × Report) := none
  /-- Threads past the time limit that have seen no result and are about to write one. -/
  late : Nat := 0

namespace TransferEngineOperationState

/-- The loop of `check_task_status` with its two flags. A failed query ends it at once. -/
def checkLoop : List (Option TransferStatusEnum) → Bool → Bool → Option ErrorCode
  | [], allCompleted, hasFailure =>
    if hasFailure then some .transferFail
    else if allCompleted then some .ok
    else none
  | none :: _, _, _ => some .transferFail
  | some status :: rest, allCompleted, hasFailure =>
    match status with
    | .completed => checkLoop rest allCompleted hasFailure
    | .failed | .canceled | .invalid => checkLoop rest allCompleted true
    | .waiting | .pending | .timeout => checkLoop rest false hasFailure

variable (s : TransferEngineOperationState)

def checkTaskStatus (report : Report) : TransferEngineOperationState :=
  match checkLoop ((List.range s.batchSize).map report) true false with
  | none => s
  | some errorCode => if s.result.isSome then s else { s with writer := some (errorCode, report) }

def isCompleted (report : Report) : TransferEngineOperationState :=
  if s.result.isSome then s else s.checkTaskStatus report

def timeout : Int := 60 * (1000 * 1000 * 1000)

/-- What the threads do. `waitTurn` is one turn of the loop of `wait_for_completion`; the report of
`emplaceLate` is what the engine would say at that time. -/
inductive Event where
  | isCompleted (report : Report)
  | waitTurn (elapsed : Int) (report : Report)
  | emplace
  | emplaceLate (report : Report)

def step : Event → Option TransferEngineOperationState
  | .isCompleted report => if s.writer.isSome then none else some (s.isCompleted report)
  | .waitTurn elapsed report =>
    if timeout < elapsed then some (if s.result.isSome then s else { s with late := s.late + 1 })
    else if s.writer.isSome then none else some (s.checkTaskStatus report)
  | .emplace => s.writer.map fun w => { s with result := some w.1, writer := none }
  | .emplaceLate _ => if s.late = 0 then none else some { s with result := some .transferFail, late := s.late - 1 }

def Running (r : Option TransferStatusEnum) : Prop := r = some .waiting ∨ r = some .pending

/-- A result that is set for a batch of `n` tasks, as the engine reports them. -/
def Done (n : Nat) (result : ErrorCode) (report : Report) : Prop :=
  (∀ i < n, ¬ Running (report i)) ∧ (result = .ok ↔ ∀ i < n, report i = some .completed)

def Decided : Event → TransferEngineOperationState → Prop
  | .emplace, _ => ∀ w ∈ s.writer, Done s.batchSize w.1 w.2
  | .emplaceLate report, _ => Done s.batchSize .transferFail report
  | _, _ => True

/-- No task runs when a poll meets a failed one; at the time limit none runs and some task has not completed. -/
def Settles : Event → Prop
  | .emplace => ∀ w ∈ s.writer, (∃ i < s.batchSize, Failing (w.2 i)) → ∀ i < s.batchSize, ¬ Running (w.2 i)
  | .emplaceLate report => (∀ i < s.batchSize, ¬ Running (report i)) ∧ ∃ i < s.batchSize, report i ≠ some .completed
  | _ => True

/-- What is about to be written under the mutex follows from the report. -/
def Sound : Prop :=
  ∀ w ∈ s.writer, checkLoop ((List.range s.batchSize).map w.2) true false = some w.1

theorem checkLoop_ok (reports : List (Option TransferStatusEnum)) (allCompleted hasFailure : Bool) :
    checkLoop reports allCompleted hasFailure = some .ok ↔
      allCompleted = true ∧ hasFailure = false ∧ ∀ r ∈ reports, r = some .completed := by
  induction reports generalizing allCompleted hasFailure with
  | nil => cases allCompleted <;> cases hasFailure <;> simp [checkLoop]
  | cons r rest ih =>
    cases r with
    | none => simp [checkLoop]
    | some status => cases status <;> simp [checkLoop, ih]

theorem checkLoop_fail (reports : List (Option TransferStatusEnum)) (allCompleted hasFailure : Bool) :
    checkLoop reports allCompleted hasFailure = some .transferFail ↔
      hasFailure = true ∨ ∃ r ∈ reports, Failing r := by
  induction reports generalizing allCompleted hasFailure with
  | nil => cases allCompleted <;> cases hasFailure <;> simp [checkLoop]
  | cons r rest ih =>
    cases r with
    | none => simp [checkLoop, Failing]
    | some status => cases status <;> simp [checkLoop, ih, Failing]

theorem checkLoop_range {reports : List (Option TransferStatusEnum)} {allCompleted hasFailure : Bool}
    {e : ErrorCode} (decided : checkLoop reports allCompleted hasFailure = some e) : e = .ok ∨ e = .transferFail := by
  induction reports generalizing allCompleted hasFailure with
  | nil => cases allCompleted <;> cases hasFailure <;> simp_all [checkLoop]
  | cons r rest ih =>
    cases r with
    | none => exact .inr (Option.some.inj decided).symm
    | some status => cases status <;> exact ih decided

variable {s s' : TransferEngineOperationState}

theorem checkTaskStatus_sound (sound : s.Sound) (report : Report) : (s.checkTaskStatus report).Sound := by
  unfold checkTaskStatus
  split
  · exact sound
  next errorCode decided =>
    split
    · exact sound
    · rintro w ⟨⟩
      exact decided

theorem step_sound {e : Event} (sound : s.Sound) (next : s.step e = some s') : s'.Sound := by
  have dropped : ∀ result, Sound { s with result := result, writer := none } := fun _ _ none => nomatch none
  have looked : ∀ report, (s.isCompleted report).Sound := by
    intro report
    unfold isCompleted
    split
    · exact sound
    · exact checkTaskStatus_sound sound report
  cases e with
  | isCompleted report =>
    simp only [step, Option.ite_none_left_eq_some, Option.some.injEq] at next
    exact next.2 ▸ looked report
  | waitTurn elapsed report =>
    simp only [step] at next
    split at next
    · cases next
      split
      · exact sound
      · exact sound
    · simp only [Option.ite_none_left_eq_some, Option.some.injEq] at next
      exact next.2 ▸ checkTaskStatus_sound sound report
  | emplace =>
    obtain ⟨w, -, rfl⟩ := Option.map_eq_some_iff.mp next
    exact dropped _
  | emplaceLate report =>
    simp only [step, Option.ite_none_left_eq_some, Option.some.injEq] at next
    exact next.2 ▸ sound

theorem emplace_exact (sound : s.Sound) : s.Decided .emplace s' ↔ s.Settles .emplace := by
  refine forall₂_congr fun w writes => ?_
  obtain ⟨result, report⟩ := w
  have decided := sound _ writes
  have done := checkLoop_ok ((List.range s.batchSize).map report) true false
  have failed := checkLoop_fail ((List.range s.batchSize).map report) true false
  simp only [decided, Option.some.injEq, List.mem_map, List.mem_range, forall_exists_index, and_imp,
    forall_apply_eq_imp_iff₂, true_and] at done
  simp only [decided, Option.some.injEq, List.mem_map, List.mem_range, Bool.false_eq_true, false_or] at failed
  refine ⟨fun claim _ => claim.1, fun quiet => ⟨?_, done⟩⟩
  obtain rfl | rfl := checkLoop_range decided
  · intro i inside running
    have completed : report i = some .completed := done.mp rfl i inside
    simp [Running, completed] at running
  · obtain ⟨_, ⟨i, inside, rfl⟩, failing⟩ := failed.mp rfl
    exact quiet ⟨i, inside, failing⟩

/-- In every run, all results that are set are set when no task runs, and to OK exactly if all tasks have
completed, if and only if no task runs when a poll meets a failed one, and when the time limit writes its result
no task runs and some task has not completed. -/
theorem results_done_iff {n : Nat} {events : List Event} (ran : Run.run step ⟨n, none, none, 0⟩ events = some s') :
    Run.Every step Decided ⟨n, none, none, 0⟩ events ↔ Run.Guarded step Settles ⟨n, none, none, 0⟩ events := by
  refine Run.every_iff_guarded (P := Sound) (fun _ _ _ => step_sound) ?_ (fun _ none => nomatch none) ran
  intro s e s' sound next
  cases e with
  | isCompleted _ | waitTurn _ _ => exact Iff.rfl
  | emplace => exact emplace_exact sound
  | emplaceLate report => simp [Decided, Settles, Done]

def halfFailed : Report := fun i => if i = 0 then some .failed else some .pending

def oneFailed : Report := fun i => if i = 0 then some .failed else some .completed

theorem results_done_one_failed :
    Run.Every step Decided ⟨2, none, none, 0⟩ [.isCompleted oneFailed, .emplace] := by
  refine (results_done_iff rfl).mpr ⟨trivial, ?_⟩
  rintro s' ⟨⟩
  refine ⟨?_, fun _ _ => trivial⟩
  rintro w ⟨⟩ - i inside
  simp only [Running, oneFailed]
  split <;> simp

/-- The result is set while a task is running; it is set to failure at the time limit when all tasks have
completed; and there it replaces the OK of a poll that came between the test and the write. -/
theorem failure_with_a_running_task :
    (Run.run step ⟨2, none, none, 0⟩ [.isCompleted halfFailed, .emplace] = some ⟨2, some .transferFail, none, 0⟩ ∧
      halfFailed 1 = some .pending) ∧
    Run.run step ⟨2, none, none, 0⟩
      [.waitTurn (timeout + 1) halfFailed, .isCompleted (fun _ => some .completed), .emplace] =
      some ⟨2, some .ok, none, 1⟩ ∧
    Run.run step ⟨2, some .ok, none, 1⟩ [.emplaceLate (fun _ => some .completed)] =
      some ⟨2, some .transferFail, none, 0⟩ :=
  ⟨⟨rfl, rfl⟩, rfl, rfl⟩

end TransferEngineOperationState

end Mooncake.Client
