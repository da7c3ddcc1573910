import Mooncake.Engine.HandshakeOrder

/-! Handshakes do not block each other, as long as no daemon has to wait for the lock of its endpoint and none
is asked for metadata while a handshake is waiting for it. -/
namespace Mooncake.Engine.Handshake

open Option
variable {Proc Nic Worker : Type}

namespace State
variable {n : Net Proc Nic Worker} {s s' : State Proc Nic Worker} {w : Worker} {p q : Proc} {e : Endpoint Nic}
  {number : Nat}
  {o : RdmaEndPoint Nic} {outcome : Outcome}

theorem Orderly.start (cached : Proc → Proc → Bool) :
    (State.start cached : State Proc Nic Worker).Orderly n where
  mail := ⟨fun p r => by cases r with
    | connection w e => simp [outstanding, State.start, DaemonPhase.current, pending, view, Request.client,
        WorkerPhase.pending]
    | metadata t => cases t <;>
        simp [outstanding, State.start, DaemonPhase.current, pending, view, Request.client, WorkerPhase.pending,
          DaemonPhase.pending], fun _ => List.nodup_nil⟩
  ahead := fun _ _ member => nomatch member
  segments := fun _ t => ⟨(nomatch ·), fun inside => by cases t <;> cases inside⟩
  replies := fun _ t => ⟨(nomatch ·), fun source => by cases t <;> cases source⟩

variable [DecidableEq Proc] [DecidableEq Nic]

/-- The endpoint that a daemon gets from the store is not locked, and no worker takes its lock before the daemon
does; a segment descriptor is known, or no handshake is waiting for the daemon that is asked for it. -/
def calm (n : Net Proc Nic Worker) (s : State Proc Nic Worker) : Event Proc Nic Worker → Bool
  | .setupConnectionsByActive _ _ | .deleteEndpoint _ => true
  | .advance (.worker w) _ =>
    match s.worker w with
    | .locking o =>
      match s.daemon (n.owner o.pair.own) with
      | .found _ e number => o ≠ ⟨e.swap, number⟩
      | _ => true
    | .describing o =>
      s.known n (n.home w) (n.owner o.pair.peer) || (s.outstanding (n.owner o.pair.peer)).all Request.isMetadata
    | _ => true
  | .advance (.daemon p) outcome =>
    match s.daemon p with
    | .deleted _ e => !outcome.constructed || (s.locks ⟨e.swap, s.number e.swap⟩).isNone
    | .locked _ e _ => s.known n p (n.owner e.own) || (s.outstanding (n.owner e.own)).all Request.isMetadata
    | _ => true

theorem quiet_of_calm (calm : s.calm n (.advance (.worker w) outcome) = true) (phase : s.worker w = .describing o)
    (unknown : ¬ s.known n (n.home w) (n.owner o.pair.peer) = true) :
    ∀ r ∈ s.outstanding (n.owner o.pair.peer), r.isMetadata = true := by
  simp only [State.calm, phase, Bool.or_eq_true] at calm
  exact List.all_eq_true.mp (calm.resolve_left unknown)

theorem quiet_of_calm_daemon (calm : s.calm n (.advance (.daemon p) outcome) = true)
    (phase : s.daemon p = .locked w e number) (unknown : ¬ s.known n p (n.owner e.own) = true) :
    ∀ r ∈ s.outstanding (n.owner e.own), r.isMetadata = true := by
  simp only [State.calm, phase, Bool.or_eq_true] at calm
  exact List.all_eq_true.mp (calm.resolve_left unknown)

variable [DecidableEq Worker]

/-! ## What every step keeps -/

def isFound : DaemonPhase Proc Nic Worker → Bool
  | .found _ _ _ => true
  | _ => false

/-- A daemon that is about to take the lock of an endpoint finds it free. -/
def Unlocked (s : State Proc Nic Worker) : Prop :=
  ∀ p w e number, s.daemon p = .found w e number → s.locks ⟨e.swap, number⟩ = none

omit [DecidableEq Proc] [DecidableEq Nic] [DecidableEq Worker] in
theorem Unlocked.of_le (free : s.Unlocked)
    (found : ∀ p w e number, s'.daemon p = .found w e number → s.daemon p = .found w e number)
    (locks : ∀ o, s.locks o = none → s'.locks o = none) : s'.Unlocked :=
  fun p w e number here => locks _ (free p w e number (found p w e number here))

omit [DecidableEq Nic] [DecidableEq Worker] in
theorem found_enterDaemon {phase : DaemonPhase Proc Nic Worker} (other : isFound phase = false)
    (here : (s.enterDaemon p phase).daemon q = .found w e number) : s.daemon q = .found w e number := by
  obtain ⟨-, same⟩ | ⟨-, before⟩ := Waiting.update_eq_iff.mp here
  · rw [same] at other
    cases other
  · exact before

theorem found_close {t : Thread Proc Worker} (here : (s.close p t).daemon q = .found w e number) :
    s.daemon q = .found w e number := by
  unfold State.close at here
  split at here
  · exact found_enterDaemon rfl here
  · exact here

theorem Unlocked.close (free : s.Unlocked) (p : Proc) (t : Thread Proc Worker) : (s.close p t).Unlocked := by
  refine free.of_le (fun _ _ _ _ => found_close) fun o here => ?_
  unfold State.close
  split <;> exact here

omit [DecidableEq Nic] in
theorem found_deliver {r : Request Proc Nic Worker} {accepted : Bool}
    (here : (s.deliver r accepted).daemon q = .found w e number) : s.daemon q = .found w e number := by
  unfold State.deliver at here
  split at here
  · split at here <;> exact here
  · split at here <;> exact here
  · split at here
    · exact found_enterDaemon rfl here
    · exact here

omit [DecidableEq Proc] [DecidableEq Worker] in
theorem released {o' : RdmaEndPoint Nic} (free : s.locks o' = none) : (s.setLock o none).locks o' = none := by
  by_cases same : o' = o
  · exact Waiting.update_eq_iff.mpr (.inl ⟨same, rfl⟩)
  · exact Waiting.update_eq_iff.mpr (.inr ⟨same, free⟩)

omit [DecidableEq Proc] [DecidableEq Nic] [DecidableEq Worker] in
theorem Orderly.owner_of_found (x : s.Orderly n) (phase : s.daemon p = .found w e number) : n.owner e.peer = p := by
  have inside : .connection w e ∈ s.outstanding p := by
    unfold outstanding
    rw [phase]
    exact List.mem_cons_self
  obtain ⟨-, -, -, target⟩ := WorkerPhase.waiting_of_pending ((x.mail.posted _ _).mp inside)
  exact target

theorem Unlocked.lock (free : s.Unlocked) (x : s.Orderly n) (calm : s.calm n (.advance (.worker w) outcome) = true)
    (phase : s.worker w = .locking o) : ((s.setLock o (some (.worker w))).enterWorker w (.locked o)).Unlocked := by
  intro p w' e number here
  have found : s.daemon p = .found w' e number := here
  refine Waiting.update_eq_iff.mpr (.inr ⟨?_, free p w' e number found⟩)
  rintro rfl
  have own : n.owner e.swap.own = p := x.owner_of_found found
  simp [State.calm, phase, own, found] at calm

omit [DecidableEq Worker] in
theorem Unlocked.lockPassive (free : s.Unlocked) (x : s.Orderly n) (phase : s.daemon p = .found w e number) :
    (((s.setConnected ⟨e.swap, number⟩ false).setLock ⟨e.swap, number⟩ (some (.daemon p))).enterDaemon p
      (.locked w e number)).Unlocked := by
  intro q w' e' number' here
  have found : s.daemon q = .found w' e' number' := found_enterDaemon rfl here
  refine Waiting.update_eq_iff.mpr (.inr ⟨fun same => ?_, free q w' e' number' found⟩)
  -- the endpoint belongs to the process of the daemon that serves it
  have swapped : e'.swap = e.swap := congrArg RdmaEndPoint.pair same
  have peers : e'.peer = e.peer := congrArg Endpoint.own swapped
  have one : q = p := (x.owner_of_found found).symm.trans ((congrArg n.owner peers).trans (x.owner_of_found phase))
  subst one
  simp [State.enterDaemon] at here

omit [DecidableEq Worker] in
theorem Unlocked.find (free : s.Unlocked) (calm : s.calm n (.advance (.daemon p) outcome) = true)
    (phase : s.daemon p = .deleted w e) (constructed : outcome.constructed = true) :
    (s.enterDaemon p (.found w e (s.number e.swap))).Unlocked := by
  intro q w' e' number' here
  obtain ⟨-, same⟩ | ⟨-, before⟩ := Waiting.update_eq_iff.mp here
  · cases same
    show s.locks _ = none
    simpa [State.calm, phase, constructed] using calm
  · exact free q w' e' number' before

theorem advanceWorker_keeps (x : s.Orderly n) (free : s.Unlocked)
    (calm : s.calm n (.advance (.worker w) outcome) = true) (next : s.advanceWorker n w outcome = some s') :
    s'.Orderly n ∧ s'.Unlocked := by
  have release {s₁ : State Proc Nic Worker} {o : RdmaEndPoint Nic} (before : s₁.Unlocked) : (s₁.setLock o none).Unlocked :=
    before.of_le (fun _ _ _ _ => id) (fun _ => released)
  unfold State.advanceWorker at next
  cases phase : s.worker w with
  | idle | waiting o | fetching o =>
    rw [phase] at next
    cases next
  | locking o =>
    simp only [phase] at next
    split at next
    · cases next
      refine ⟨x.enterWorker ?_ ?_ ?_, free.lock x calm phase⟩ <;> rw [phase] <;> rfl
    · cases next
  | locked o =>
    simp only [phase] at next
    have finish : (s.enterWorker w .idle).Orderly n := by refine x.enterWorker ?_ ?_ ?_ <;> rw [phase] <;> rfl
    split at next
    · cases next
      exact ⟨finish, release free⟩
    · split at next
      · cases next
        exact ⟨finish, release free⟩
      · cases next
        exact ⟨x.send phase, free⟩
  | replied o accepted =>
    simp only [phase] at next
    cases next
    have closed := free.close (n.owner o.pair.peer) (.worker w)
    cases accepted with
    | true => exact ⟨x.replied (.describing o) phase rfl rfl rfl, closed⟩
    | false => exact ⟨x.replied .idle phase rfl rfl rfl, release closed⟩
  | describing o =>
    simp only [phase] at next
    split at next
    next unheld =>
      split at next
      · cases next
        have finish : (s.enterWorker w .idle).Orderly n := by refine x.enterWorker ?_ ?_ ?_ <;> rw [phase] <;> rfl
        exact ⟨finish, release free⟩
      next unknown =>
        cases next
        exact ⟨x.fetch phase unheld (quiet_of_calm calm phase unknown), free⟩
    · cases next
  | fetched o =>
    simp only [phase] at next
    cases next
    exact ⟨x.described phase outcome.described, release (free.close (n.owner o.pair.peer) (.worker w))⟩

theorem advanceDaemon_keeps (x : s.Orderly n) (free : s.Unlocked)
    (calm : s.calm n (.advance (.daemon p) outcome) = true) (next : s.advanceDaemon n p outcome = some s') :
    s'.Orderly n ∧ s'.Unlocked := by
  have enter : ∀ {t : State Proc Nic Worker} {phase : DaemonPhase Proc Nic Worker}, t.Unlocked →
      isFound phase = false → (t.enterDaemon p phase).Unlocked :=
    fun before other => before.of_le (fun _ _ _ _ => found_enterDaemon other) (fun _ => id)
  unfold State.advanceDaemon at next
  cases phase : s.daemon p with
  | idle =>
    simp only [phase] at next
    split at next
    · cases next
    next r rest first =>
      cases next
      exact ⟨x.accept phase first, enter (t := { s with queue := Function.update s.queue p rest }) free rfl⟩
  | serving r =>
    cases r with
    | metadata t | connection w e =>
      simp only [phase] at next
      cases next
      refine ⟨Orderly.turn (s := s) x ?_ ?_ ?_ ?_ ?_, enter (by exact free) rfl⟩ <;> rw [phase] <;> rfl
  | deleted w e =>
    simp only [phase] at next
    cases next
    split
    next constructed => refine ⟨x.turn ?_ ?_ ?_ ?_ ?_, free.find calm phase constructed⟩ <;> rw [phase] <;> rfl
    · refine ⟨x.turn ?_ ?_ ?_ ?_ ?_, enter free rfl⟩ <;> rw [phase] <;> rfl
  | found w e number =>
    simp only [phase] at next
    split at next
    · cases next
      refine ⟨Orderly.turn (s := s) x ?_ ?_ ?_ ?_ ?_, free.lockPassive x phase⟩ <;> rw [phase] <;> rfl
    · cases next
  | locked w e number =>
    simp only [phase] at next
    split at next
    next unheld =>
      split at next
      · cases next
        refine ⟨Orderly.turn (s := s) x ?_ ?_ ?_ ?_ ?_,
          enter (by exact free.of_le (fun _ _ _ _ => id) (fun _ => released)) rfl⟩ <;> rw [phase] <;> rfl
      next unknown =>
        cases next
        exact ⟨x.fetchPassive phase unheld (quiet_of_calm_daemon calm phase unknown), enter (by exact free) rfl⟩
    · cases next
  | fetching w e number =>
    rw [phase] at next
    cases next
  | fetched w e number =>
    simp only [phase] at next
    cases next
    have closed := free.close (n.owner e.own) (.daemon p)
    exact ⟨x.describedPassive phase outcome.described _,
      enter (by exact closed.of_le (fun _ _ _ _ => id) (fun _ => released)) rfl⟩
  | replying r accepted =>
    simp only [phase] at next
    cases next
    refine ⟨x.reply phase, enter (free.of_le (fun _ _ _ _ => found_deliver) fun o here => ?_) rfl⟩
    unfold State.deliver
    split <;> split <;> exact here
  | answered t closed =>
    simp only [phase] at next
    split at next
    next done =>
      subst done
      cases next
      refine ⟨x.turn ?_ ?_ ?_ ?_ ?_, enter free rfl⟩ <;> rw [phase] <;> rfl
    · cases next

theorem orderly_step {event : Event Proc Nic Worker} (x : s.Orderly n) (free : s.Unlocked)
    (calm : s.calm n event = true) (next : s.step n event = some s') : s'.Orderly n ∧ s'.Unlocked := by
  cases event with
  | setupConnectionsByActive w e =>
    simp only [State.step] at next
    split at next
    next idle =>
      cases next
      refine ⟨x.enterWorker ?_ ?_ ?_, free⟩ <;> rw [idle.1] <;> rfl
    · cases next
  | deleteEndpoint e =>
    cases next
    exact ⟨x, free⟩
  | advance t outcome =>
    cases t with
    | worker w => exact advanceWorker_keeps x free calm next
    | daemon p => exact advanceDaemon_keeps x free calm next

/-! ## What a stuck state would look like -/

def Stuck (n : Net Proc Nic Worker) (s : State Proc Nic Worker) : Prop :=
  ∀ t outcome, s.step n (.advance t outcome) = none

section
variable (stuck : s.Stuck n)
include stuck

theorem Stuck.worker (w : Worker) : s.advanceWorker n w ⟨true, true, true⟩ = none := stuck (.worker w) _

theorem Stuck.daemon (p : Proc) : s.advanceDaemon n p ⟨true, true, true⟩ = none := stuck (.daemon p) _

theorem Stuck.source_eq_none (t : Thread Proc Worker) : s.source n t = none := by
  cases t with
  | worker w =>
    have still := stuck.worker w
    unfold State.advanceWorker at still
    show (s.worker w).source n = none
    cases phase : s.worker w with
    | replied o accepted | fetched o => simp [phase] at still
    | _ => rfl
  | daemon p =>
    have still := stuck.daemon p
    unfold State.advanceDaemon at still
    show (s.daemon p).source n = none
    cases phase : s.daemon p with
    | fetched w e number => simp [phase] at still
    | _ => rfl

variable (x : s.Orderly n)
include x

theorem Stuck.linger_eq_none (p : Proc) : s.linger p = none := by
  cases unread : s.linger p with
  | none => rfl
  | some t => cases (stuck.source_eq_none t).symm.trans ((x.replies p t).mp unread)

variable (free : s.Unlocked)
include free

theorem Stuck.daemon_cases (busy : s.outstanding p ≠ []) :
    ∃ w e number, s.daemon p = .locked w e number ∧ s.segmentLock p ≠ none ∨ s.daemon p = .fetching w e number := by
  have still := stuck.daemon p
  unfold State.advanceDaemon at still
  cases phase : s.daemon p with
  | idle =>
    have queued : s.queue p ≠ [] := by simpa [outstanding, phase, DaemonPhase.current] using busy
    obtain ⟨r, rest, first⟩ := List.exists_cons_of_ne_nil queued
    simp [phase, first] at still
  | serving r => cases r <;> simp [phase] at still
  | found w e number => simp [phase, free p w e number phase] at still
  | locked w e number =>
    refine ⟨w, e, number, .inl ⟨rfl, fun open_ => ?_⟩⟩
    simp only [phase, open_, if_pos] at still
    split at still <;> cases still
  | fetching w e number => exact ⟨w, e, number, .inr rfl⟩
  | deleted w e | fetched w e number | replying r accepted => simp [phase] at still
  | answered t closed =>
    cases closed with
    | true => simp [phase] at still
    | false =>
      have unread : s.linger p = some t := congrArg DaemonPhase.linger phase
      cases (stuck.linger_eq_none x p).symm.trans unread

/-- A daemon that is asked for metadata has only such requests before it, and can go on. -/
theorem Stuck.pending_ne_metadata (t : Thread Proc Worker) (p : Proc) :
    s.pending n t ≠ some (p, .metadata t) := by
  intro posted
  have before := x.ahead p t ((x.mail.posted p (.metadata t)).mpr posted)
  have busy : s.outstanding p ≠ [] := fun empty => by
    rw [empty] at before
    cases before
  obtain ⟨w, e, number, handshake⟩ := stuck.daemon_cases x free busy
  have first : s.outstanding p = .connection w e :: s.queue p := by
    unfold outstanding
    rcases handshake with ⟨phase, _⟩ | phase <;> rw [phase] <;> rfl
  rw [first] at before
  cases before

theorem Stuck.inSegment_eq_none (t : Thread Proc Worker) : s.inSegment n t = none := by
  have idle := stuck.pending_ne_metadata x free t
  cases t with
  | worker w =>
    show (s.worker w).inSegment n w = none
    cases phase : s.worker w with
    | fetching o => exact absurd (congrArg (WorkerPhase.pending n w) phase) (idle _)
    | fetched o => cases (stuck.source_eq_none (.worker w)).symm.trans (congrArg (WorkerPhase.source n) phase)
    | _ => rfl
  | daemon p =>
    show (s.daemon p).inSegment p = none
    cases phase : s.daemon p with
    | fetching w e number => exact absurd (congrArg (DaemonPhase.pending n p) phase) (idle _)
    | fetched w e number => cases (stuck.source_eq_none (.daemon p)).symm.trans (congrArg (DaemonPhase.source n) phase)
    | _ => rfl

/-- A daemon with something to do would wait for the segment lock, which nobody has. -/
theorem Stuck.outstanding_eq_nil (p : Proc) : s.outstanding p = [] := by
  by_contra busy
  have outside := stuck.inSegment_eq_none x free
  obtain ⟨w, e, number, ⟨_, blocked⟩ | fetching⟩ := stuck.daemon_cases x free busy
  · obtain ⟨t, held⟩ := Option.ne_none_iff_exists'.mp blocked
    cases (outside t).symm.trans ((x.segments p t).mp held)
  · have inside : s.inSegment n (.daemon p) = some p := congrArg (DaemonPhase.inSegment p) fetching
    cases (outside (.daemon p)).symm.trans inside

end

theorem Orderly.not_deadlocked (x : s.Orderly n) (free : s.Unlocked) : ¬ s.Deadlocked n := by
  rintro ⟨⟨w, o, waiting⟩, stuck⟩
  have stuck : s.Stuck n := stuck
  have posted : s.pending n (.worker w) = some (n.owner o.pair.peer, .connection w o.pair) :=
    congrArg (WorkerPhase.pending n w) waiting
  have inside := (x.mail.posted _ (.connection w o.pair)).mpr posted
  rw [stuck.outstanding_eq_nil x free] at inside
  cases inside

end State

/-! ## A ring of three processes with one NIC each -/

/-- In P2P mode; every process has the segment descriptor of the one after it. -/
def ring : Net (Fin 3) (Fin 3) (Fin 3) := ⟨id, id, true, true⟩

def knowsNext (p q : Fin 3) : Bool := q = p + 1

def opens (w : Fin 3) : Event (Fin 3) (Fin 3) (Fin 3) := .setupConnectionsByActive w ⟨w, w + 1⟩

def advances : List (Thread (Fin 3) (Fin 3)) → List (Event (Fin 3) (Fin 3) (Fin 3)) :=
  List.map (.advance · ⟨true, true, true⟩)

def oneOpens : List (Event (Fin 3) (Fin 3) (Fin 3)) :=
  opens 0 :: advances [.worker 0, .worker 0, .daemon 1, .daemon 1, .daemon 1, .daemon 1, .daemon 1]

/-- Every process opens a connection to the next one. Every daemon then serves the one before it, whose
descriptor it has to ask for. -/
def allOpen : List (Event (Fin 3) (Fin 3) (Fin 3)) :=
  [opens 0, opens 1, opens 2] ++ advances [.worker 0, .worker 1, .worker 2, .worker 0, .worker 1, .worker 2] ++
    (List.replicate 5 (advances [.daemon 0, .daemon 1, .daemon 2])).flatten

end Mooncake.Engine.Handshake
