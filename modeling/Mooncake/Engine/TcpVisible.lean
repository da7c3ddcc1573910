import Mooncake.Engine.TcpFlow

/-! When a `WRITE` that has been marked as successful is visible at the target. Its bytes are in the stream by
then, but not necessarily out of it. -/
namespace Mooncake.Engine.Tcp
open Function

section
variable {ι : Type} (c : Sessions ι)

def Sessions.value (i : ι) : List UInt8 := Extent.read (c.buffer i) 0 (c.request i).size

def Sessions.range (i : ι) : Nat × Nat := ((c.request i).addr, (c.request i).size)

def Sessions.Alone (i : ι) : Prop := ∀ j, j ≠ i → (c.request j).write = true → Extent.Apart (c.range j) (c.range i)

def Sessions.Within (j i : ι) : Prop :=
  (c.request i).addr ≤ (c.request j).addr ∧
    (c.request j).addr + (c.request j).size ≤ (c.request i).addr + (c.request i).size

def Sessions.part (i j : ι) : List UInt8 :=
  ((c.value i).drop ((c.request j).addr - (c.request i).addr)).take (c.request j).size

/-- The target has taken everything out of the stream before a `WRITE` is marked as successful. -/
def Drained (s : State ι) (event : ι × Action) : Prop :=
  event.2 = .wrote .initiator → (s.links event.1).finishing = true → (s.links event.1).stream .target = []

instance (s : State ι) (event : ι × Action) : Decidable (Drained s event) := inferInstanceAs (Decidable (_ → _ → _))

/-! ## What holds of each session -/

structure Writes (s : State ι) (i : ι) (put taken : Nat) : Prop where
  source : (s.links i).buffer = c.buffer i
  carries : Carries (c.request i) (c.value i) (s.links i) put taken
  holds : c.Alone i → Holds (c.request i) (c.value i) (s.links i) s.memory taken
  arrived : s.succeeded i = true → taken = (c.request i).size

structure Reads (s : State ι) (j i : ι) (put taken : Nat) : Prop where
  carries : Carries (c.request j) (c.part i j) (s.links j) put taken
  holds : Holds (c.request j) (c.part i j) (s.links j) s.memory taken

structure SessionOk (s : State ι) (i : ι) (put taken : Nat) : Prop where
  flow : Flow (c.request i) (s.links i) put taken
  fresh : (s.links i).endpoint .initiator = .idle → Fresh (s.links i)
  seen : ∀ k, s.seen i k = true → s.succeeded k = true
  writes : (c.request i).write = true → Writes c s i put taken
  reads : (c.request i).write = false → ∀ k, s.seen i k = true → (c.request k).write = true → c.Alone k → c.Within i k →
    Reads c s i k put taken

def Consistent (s : State ι) : Prop := ∀ i, ∃ put taken, SessionOk c s i put taken

end

section
variable {ι : Type} {c : Sessions ι} {s s' : State ι} {i j : ι} {k n : Nat}

theorem sender_of_write (write : (c.request i).write = true) : (c.request i).sender = .initiator :=
  ((initiator_sends _).1.mpr write).symm

theorem sender_of_read (read : (c.request i).write = false) : (c.request i).sender = .target :=
  ((initiator_sends _).2.mpr read).symm

theorem receiver_of_write (write : (c.request i).write = true) : (c.request i).receiver = .target := by
  rw [SessionHeader.receiver, sender_of_write write]
  rfl

theorem receiver_of_read (read : (c.request i).write = false) : (c.request i).receiver = .initiator := by
  rw [SessionHeader.receiver, sender_of_read read]
  rfl

theorem Consistent.visible (consistent : Consistent c s) (write : (c.request i).write = true) (alone : c.Alone i)
    (done : s.succeeded i = true) : Extent.read s.memory (c.request i).addr (c.request i).size = c.value i := by
  obtain ⟨put, taken, ok⟩ := consistent i
  have writes := ok.writes write
  have holds := writes.holds alone
  rw [Holds, receiver_of_write write, writes.arrived done] at holds
  have all : (c.value i).take (c.request i).size = c.value i := List.take_of_length_le (by simp [Sessions.value])
  exact holds.trans all

theorem Consistent.part_visible (consistent : Consistent c s) (write : (c.request i).write = true) (alone : c.Alone i)
    (done : s.succeeded i = true) (within : c.Within j i) :
    Extent.read s.memory (c.request j).addr (c.request j).size = c.part i j := by
  rw [Sessions.part, ← consistent.visible write alone done]
  exact Extent.read_inside _ within.1 within.2

theorem length_part (within : c.Within j i) : (c.part i j).length = (c.request j).size := by
  have := within.2
  have := within.1
  simp only [Sessions.part, Sessions.value, List.length_take, List.length_drop, Extent.length_read]
  omega

theorem Consistent.read_back (consistent : Consistent c s) (write : (c.request i).write = true)
    (alone : c.Alone i) (read : (c.request j).write = false) (within : c.Within j i) (after : s.seen j i = true)
    (done : s.succeeded j = true) : Extent.read (s.links j).buffer 0 (c.request j).size = c.part i j := by
  obtain ⟨put, taken, ok⟩ := consistent j
  have receives := ok.flow.receives
  rw [receiver_of_read read, eq_of_beq done] at receives
  have holds := (ok.reads read i after write alone within).holds
  rw [Holds, receiver_of_read read, receives rfl] at holds
  have all : (c.part i j).take (c.request j).size = c.part i j := List.take_of_length_le (Nat.le_of_eq (length_part within))
  exact holds.trans all

/-! ## Steps -/

theorem SessionOk.other (ok : SessionOk c s i k n) (links : s'.links i = s.links i)
    (memory : c.Alone i →
      Extent.read s'.memory (c.request i).addr n = Extent.read s.memory (c.request i).addr n)
    (done : ∀ k, s.succeeded k = true → s'.succeeded k = true) (seen : s'.seen i = s.seen i) :
    SessionOk c s' i k n := by
  have success : s'.succeeded i = s.succeeded i := by
    unfold State.succeeded
    rw [links]
  refine ⟨links ▸ ok.flow, links ▸ ok.fresh, fun k saw => done k (ok.seen k (seen ▸ saw)), fun write => ?_,
    fun read k saw write alone within => ?_⟩
  · have writes := ok.writes write
    refine ⟨links ▸ writes.source, links ▸ writes.carries, fun alone => ?_, fun ceased => writes.arrived (success ▸ ceased)⟩
    have holds := writes.holds alone
    simp only [Holds, receiver_of_write write] at holds ⊢
    exact (memory alone).trans holds
  · have reads := ok.reads read k (seen ▸ saw) write alone within
    refine ⟨links ▸ reads.carries, ?_⟩
    have holds := reads.holds
    simp only [Holds, receiver_of_read read] at holds ⊢
    rw [links]
    exact holds

theorem Writes.next (writes : Writes c s i k n) (flow : Flow (c.request i) (s.links i) k n)
    (write : (c.request i).write = true) {action : Action} (drained : Drained s (i, action)) {l' : Link}
    {m' : Nat → UInt8} (next : (s.links i).next (c.request i) s.memory action = some (l', m')) {k' n' : Nat}
    (after : Flow (c.request i) l' k' n') (moved : Moved (c.request i) (s.links i) s.memory l' m' k n k' n')
    (links : s'.links i = l') (memory : s'.memory = m') : Writes c s' i k' n' := by
  have sends := sender_of_write write
  have from_buffer : Extent.read ((s.links i).memory s.memory (c.request i).sender)
    (Link.base (c.request i) (c.request i).sender)
      (c.request i).size = c.value i := by
    rw [sends]
    exact congrArg (Extent.read · 0 _) writes.source
  subst links memory
  refine ⟨?_, writes.carries.moved flow.order (by simp [Sessions.value]) from_buffer moved,
    fun alone => (writes.holds alone).moved writes.carries flow moved, fun ceased => ?_⟩
  · have same := moved.sender
    rw [sends] at same
    exact same.trans writes.source
  · have grows := moved.taken_le
    have order := after.order
    have bound := after.bound
    by_cases already : s.succeeded i = true
    · have := writes.arrived already
      omega
    · rcases Nat.eq_zero_or_pos (c.request i).size with empty | some_bytes
      · omega
      · have ceased := eq_of_beq ceased
        obtain ⟨last, finishing⟩ := flow.finishes write some_bytes
          next (fun ceased => already (beq_iff_eq.mpr ceased)) ceased
        have empty := drained last finishing
        have length := flow.length
        rw [receiver_of_write write, empty, List.length_nil] at length
        have all := flow.finishing finishing
        have := flow.bound
        omega

theorem Reads.next (reads : Reads c s j i k n) (flow : Flow (c.request j) (s.links j) k n)
    (read : (c.request j).write = false) (within : c.Within j i)
    (there : Extent.read s.memory (c.request j).addr (c.request j).size = c.part i j) {l' : Link}
    {m' : Nat → UInt8} {k' n' : Nat} (moved : Moved (c.request j) (s.links j) s.memory l' m' k n k' n')
    (links : s'.links j = l') (memory : s'.memory = m') : Reads c s' j i k' n' := by
  have from_target : Extent.read ((s.links j).memory s.memory (c.request j).sender)
    (Link.base (c.request j) (c.request j).sender)
      (c.request j).size = c.part i j := by
    rw [sender_of_read read]
    exact there
  subst links memory
  exact ⟨reads.carries.moved flow.order (length_part within) from_target moved, reads.holds.moved reads.carries flow moved⟩

end

theorem consistent_start {ι : Type} (c : Sessions ι) (memory : Nat → UInt8) :
    Consistent c (State.start c memory) := by
  intro i
  have early (side : Side) : ((Link.start (c.buffer i)).endpoint side).Early := by cases side <;> trivial
  have sends : Sends (c.request i) 0 ((Link.start (c.buffer i)).endpoint (c.request i).sender) := by
    cases (c.request i).sender <;> rfl
  have receives : Receives (c.request i) 0 ((Link.start (c.buffer i)).endpoint (c.request i).receiver) := by
    cases (c.request i).receiver <;> rfl
  refine ⟨0, 0, ⟨Nat.le_refl _, Nat.zero_le _, fun _ wrong => (nomatch wrong), sends, receives, rfl⟩,
    fun _ => ⟨rfl, .inl rfl, fun _ => rfl⟩, fun _ wrong => (nomatch wrong), fun _ => ?_, fun _ _ wrong => (nomatch wrong)⟩
  exact ⟨rfl, rfl, fun _ => rfl, fun wrong => (nomatch wrong)⟩

section
variable {ι : Type} [DecidableEq ι] {c : Sessions ι} {s s' : State ι} {event : ι × Action}

theorem State.step_eq (done : s.step c event = some s') :
    ∃ l' m', (s.links event.1).next (c.request event.1) s.memory event.2 = some (l', m') ∧
      s'.memory = m' ∧ s'.links event.1 = l' ∧ (∀ i, i ≠ event.1 → s'.links i = s.links i) ∧
      (∀ i, s.succeeded i = true → s'.succeeded i = true) ∧
      ∀ i, s'.seen i = if i = event.1 ∧ event.2 = .initiate then s.succeeded else s.seen i := by
  obtain ⟨⟨l', m'⟩, next, rfl⟩ := Option.map_eq_some_iff.mp done
  have others (i : ι) (other : i ≠ event.1) : update s.links event.1 l' i = s.links i := update_of_ne other _ _
  refine ⟨l', m', next, rfl, update_self _ _ _, others, fun i ceased => ?_, fun i => ?_⟩
  · simp only [State.succeeded] at ceased ⊢
    by_cases own : i = event.1
    · subst own
      rw [update_self, finished_next next (eq_of_beq ceased)]
      rfl
    · rw [others i own]
      exact ceased
  · by_cases begins : event.2 = .initiate
    · simp only [begins, and_true, if_true, update_apply]
    · simp only [begins, and_false, if_false]

theorem idle_of_initiate {r : SessionHeader} {l : Link} {m : Nat → UInt8} {x : Link × (Nat → UInt8)}
    (next : l.next r m .initiate = some x) : l.endpoint .initiator = .idle := by
  simp only [Link.next] at next
  split at next
  next idle => exact idle
  · cases next

theorem Consistent.own (consistent : Consistent c s) (drained : Drained s event)
    (done : s.step c event = some s') : ∃ put taken, SessionOk c s' event.1 put taken := by
  obtain ⟨l', m', next, memory, own, -, success, seen⟩ := State.step_eq done
  obtain ⟨k, n, ok⟩ := consistent event.1
  obtain ⟨k', n', after, moved⟩ := ok.flow.next next
  -- what the session has seen by now had succeeded before the step
  have before (x : ι) (saw : s'.seen event.1 x = true) : s.succeeded x = true := by
    rw [seen] at saw
    split at saw
    · exact saw
    · exact ok.seen x saw
  refine ⟨k', n', own ▸ after, fun idle => ?_, fun x saw => success x (before x saw), fun write => ?_,
    fun read x saw write alone within => ?_⟩
  · rw [own] at idle ⊢
    exact Fresh.next ok.fresh next idle
  · exact (ok.writes write).next ok.flow write drained next after moved own memory
  · have there := consistent.part_visible write alone (before x saw) within
    have reads : Reads c s event.1 x k n := by
      rw [seen] at saw
      split at saw
      next begins =>
        have idle := idle_of_initiate (begins.2 ▸ next)
        obtain ⟨carries, holds⟩ := ok.flow.nothing read idle (ok.fresh idle) (c.part x event.1)
        exact ⟨carries, holds⟩
      next => exact ok.reads read x saw write alone within
    exact reads.next ok.flow read within there moved own memory

theorem Consistent.step (consistent : Consistent c s) (drained : Drained s event)
    (done : s.step c event = some s') : Consistent c s' := by
  intro i
  by_cases same : i = event.1
  · subst same
    exact consistent.own drained done
  · obtain ⟨l', m', next, memory, -, others, success, seen⟩ := State.step_eq done
    obtain ⟨k, n, ok⟩ := consistent i
    obtain ⟨put, taken, stepping⟩ := consistent event.1
    obtain ⟨_, _, -, moved⟩ := stepping.flow.next next
    have unseen : s'.seen i = s.seen i := by rw [seen, if_neg (fun both => same both.1)]
    refine ⟨k, n, ok.other (others i same) (fun alone => ?_) success unseen⟩
    rw [memory]
    apply moved.read_apart stepping.flow
    intro write
    have apart := alone event.1 (Ne.symm same) write
    have order := ok.flow.order
    have bound := ok.flow.bound
    simp only [Extent.Apart, Sessions.range] at apart ⊢
    omega

/-- If the target has always emptied the stream of a `WRITE` before that is marked as successful, then its bytes
are at the target from then on, and every `READ` of them that begins later gets them. -/
theorem State.write_visible_of_drained (c : Sessions ι) (memory : Nat → UInt8) {events : List (ι × Action)}
    {s : State ι} (reached : Run.run (State.step c) (State.start c memory) events = some s)
    (drained : Run.Guarded (State.step c) Drained (State.start c memory) events) {i : ι}
    (write : (c.request i).write = true) (alone : c.Alone i) (done : s.succeeded i = true) :
    Extent.read s.memory (c.request i).addr (c.request i).size = c.value i ∧
      ∀ j, (c.request j).write = false → c.Within j i → s.seen j i = true → s.succeeded j = true →
        Extent.read (s.links j).buffer 0 (c.request j).size = c.part i j := by
  have consistent : Consistent c s :=
    Run.guarded_invariant (fun _ _ _ before met next => before.step met next) (consistent_start c memory) reached drained
  exact ⟨consistent.visible write alone done,
    fun j read within after ceased => consistent.read_back write alone read within after ceased⟩

end

/-! ## A `WRITE` and a `READ` of one byte -/

namespace Sample

def sessions : Sessions Bool where
  request write := ⟨1, 5, write⟩
  buffer write := if write then fun _ => 7 else fun _ => 9

def start : State Bool := State.start sessions (fun _ => 0)

def writeSends : List (Bool × Action) :=
  [(true, .initiate), (true, .putHeader), (true, .wroteHeader), (true, .takeHeader), (true, .put .initiator)]

def readRuns : List (Bool × Action) :=
  [(false, .initiate), (false, .putHeader), (false, .wroteHeader), (false, .takeHeader), (false, .put .target),
    (false, .wrote .target), (false, .take .initiator)]

def inOrder : List (Bool × Action) := writeSends ++ [(true, .take .target), (true, .wrote .initiator)] ++ readRuns

def overtaken : List (Bool × Action) := writeSends ++ [(true, .wrote .initiator)] ++ readRuns

theorem alone : sessions.Alone true := by
  rintro (_ | _) other write
  · cases write
  · exact absurd rfl other

end Sample

open Sample in
theorem write_visible_in_order : ∃ s, Run.run (State.step sessions) start inOrder = some s ∧
    Run.Guarded (State.step sessions) Drained start inOrder ∧ s.succeeded true = true ∧ s.seen false true = true ∧
    s.succeeded false = true ∧ Extent.read s.memory 5 1 = [7] ∧ Extent.read (s.links false).buffer 0 1 = [7] := by
  have ends : (Run.run (State.step sessions) start inOrder).any
      (fun s => s.succeeded true && (s.seen false true && s.succeeded false)) = true := by decide +kernel
  have drained : Run.Guarded (State.step sessions) Drained start inOrder := by decide +kernel
  obtain ⟨s, reached, facts⟩ := (Option.any_eq_true _ _).mp ends
  obtain ⟨written, facts⟩ := (Bool.and_eq_true _ _).mp facts
  obtain ⟨after, ceased⟩ := (Bool.and_eq_true _ _).mp facts
  obtain ⟨visible, read_back⟩ := State.write_visible_of_drained sessions (fun _ => 0) reached drained rfl alone written
  exact ⟨s, reached, drained, written, after, ceased, visible,
    read_back false rfl ⟨Nat.le_refl _, Nat.le_refl _⟩ after ceased⟩

open Sample in
/-- The `WRITE` has been marked as successful, and a later `READ` gets what was there before. -/
theorem write_overtaken : sessions.Alone true ∧
    (Run.run (State.step sessions) start overtaken).map (fun s =>
      (s.succeeded true, s.seen false true, s.succeeded false, Extent.read s.memory 5 1,
        Extent.read (s.links false).buffer 0 1)) = some (true, true, true, [0], [0]) :=
  ⟨alone, by decide +kernel⟩

end Mooncake.Engine.Tcp
