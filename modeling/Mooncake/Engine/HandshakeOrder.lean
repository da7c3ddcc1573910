import Mathlib.Data.List.TakeWhile
import Mooncake.Engine.Handshake
import Mooncake.Lib.Waiting

/-! What fits together in the handshake: every request that has no answer yet is with one daemon, and segment
locks and replies belong to the threads that say so. Every step keeps this, as long as no daemon is asked for
metadata behind a handshake. -/
namespace Mooncake.Engine.Handshake
open Waiting Function List
variable {Proc Nic Worker : Type}

/-! ## Requests, segment locks and replies -/

section Fits
variable {pending : Thread Proc Worker → Option (Proc × Request Proc Nic Worker)}
  {box : Proc → List (Request Proc Nic Worker)}
  {segmentLock : Proc → Option (Thread Proc Worker)} {inSegment : Thread Proc Worker → Option Proc}
  {linger : Proc → Option (Thread Proc Worker)} {source : Thread Proc Worker → Option Proc}

/-- Requests, segment locks and replies fit together. A request for metadata has nothing before it that may
block. -/
structure Fits (pending : Thread Proc Worker → Option (Proc × Request Proc Nic Worker))
    (box : Proc → List (Request Proc Nic Worker)) (segmentLock : Proc → Option (Thread Proc Worker))
    (inSegment : Thread Proc Worker → Option Proc) (linger : Proc → Option (Thread Proc Worker))
    (source : Thread Proc Worker → Option Proc) : Prop where
  mail : Mail Request.client pending box
  ahead : ∀ p t, .metadata t ∈ box p → .metadata t ∈ (box p).takeWhile Request.isMetadata
  segments : Held segmentLock inSegment
  replies : Held linger source

namespace Fits
variable {p : Proc} {t : Thread Proc Worker} {r : Request Proc Nic Worker} {rest : List (Request Proc Nic Worker)}

theorem mem_takeWhile_append {l : List (Request Proc Nic Worker)} (member : r ∈ l.takeWhile Request.isMetadata)
    (more : List (Request Proc Nic Worker)) : r ∈ (l ++ more).takeWhile Request.isMetadata := by
  induction l with
  | nil => cases member
  | cons first l ih =>
    rw [takeWhile_cons] at member
    rw [cons_append, takeWhile_cons]
    split at member
    next metadata =>
      rw [if_pos metadata]
      rcases mem_cons.mp member with rfl | later
      · exact mem_cons_self
      · exact mem_cons_of_mem _ (ih later)
    · cases member

variable {pending' : Thread Proc Worker → Option (Proc × Request Proc Nic Worker)}
variable {linger' : Proc → Option (Thread Proc Worker)} {source' : Thread Proc Worker → Option Proc}

theorem congr {box' : Proc → List (Request Proc Nic Worker)}
    {segmentLock' : Proc → Option (Thread Proc Worker)} {inSegment' : Thread Proc Worker → Option Proc}
    (fits : Fits pending box segmentLock inSegment linger source) (pendings : pending' = pending) (boxes : box' = box)
    (segmentLocks : segmentLock' = segmentLock) (inSegments : inSegment' = inSegment) (lingers : linger' = linger)
    (sources : source' = source) : Fits pending' box' segmentLock' inSegment' linger' source' := by
  subst pendings boxes segmentLocks inSegments lingers sources
  exact fits

variable [DecidableEq Proc] [DecidableEq Worker]

section
variable (fits : Fits pending box segmentLock inSegment linger source)
include fits

omit [DecidableEq Worker] in
theorem withBox (mail : Mail Request.client pending' (update box p rest))
    (ahead : ∀ t, .metadata t ∈ rest → .metadata t ∈ rest.takeWhile Request.isMetadata)
    (replies : Held linger' source') :
    Fits pending' (update box p rest) segmentLock inSegment linger' source' where
  mail := mail
  ahead := (forall_update_iff box fun _ l => ∀ t, .metadata t ∈ l → .metadata t ∈ l.takeWhile Request.isMetadata).mpr
    ⟨ahead, fun q _ => fits.ahead q⟩
  segments := fits.segments
  replies := replies

theorem sendConnection {w : Worker} {e : Endpoint Nic} (idle : pending (.worker w) = none) :
    Fits (update pending (.worker w) (some (p, .connection w e))) (update box p (box p ++ [.connection w e]))
      segmentLock inSegment linger source := by
  refine fits.withBox (fits.mail.send p (.connection w e) idle) (fun t member => ?_) fits.replies
  rcases mem_append.mp member with old | new
  · exact mem_takeWhile_append (fits.ahead p t old) _
  · cases mem_singleton.mp new

theorem sendMetadata (idle : pending t = none) (quiet : ∀ r ∈ box p, r.isMetadata = true) :
    Fits (update pending t (some (p, .metadata t))) (update box p (box p ++ [.metadata t]))
      segmentLock inSegment linger source := by
  have all : ∀ r ∈ box p ++ [.metadata t], r.isMetadata = true := by
    intro r inside
    rcases mem_append.mp inside with old | new
    · exact quiet r old
    · rw [mem_singleton.mp new]
      rfl
  refine fits.withBox (fits.mail.send p (.metadata t) idle) (fun t' member => ?_) fits.replies
  rw [takeWhile_eq_self_iff.mpr all]
  exact member

theorem answer (first : box p = r :: rest) (free : linger p = none) (nothing : source r.client = none) :
    Fits (update pending r.client none) (update box p rest) segmentLock inSegment
      (update linger p (some r.client)) (update source r.client (some p)) := by
  refine fits.withBox (fits.mail.answer first) (fun t member => ?_) (fits.replies.acquire free nothing)
  have before := fits.ahead p t (first ▸ mem_cons_of_mem r member)
  have distinct := fits.mail.once p
  rw [first] at before distinct
  rw [takeWhile_cons] at before
  split at before
  · exact (mem_cons.mp before).resolve_left fun same => (nodup_cons.mp distinct).1 (same ▸ member)
  · cases before

theorem read (unread : linger p = some t) :
    Fits pending box segmentLock inSegment (update linger p none) (update source t none) :=
  ⟨fits.mail, fits.ahead, fits.segments, fits.replies.release unread⟩

theorem enterSegment (free : segmentLock p = none) (idle : inSegment t = none) :
    Fits pending box (update segmentLock p (some t)) (update inSegment t (some p)) linger source :=
  ⟨fits.mail, fits.ahead, fits.segments.acquire free idle, fits.replies⟩

theorem leaveSegment (mine : segmentLock p = some t) :
    Fits pending box (update segmentLock p none) (update inSegment t none) linger source :=
  ⟨fits.mail, fits.ahead, fits.segments.release mine, fits.replies⟩

end

end Fits

end Fits

/-! ## What a thread waits for and what it has -/

namespace WorkerPhase

variable (n : Net Proc Nic Worker)

def pending (w : Worker) : WorkerPhase Nic → Option (Proc × Request Proc Nic Worker)
  | .waiting o => some (n.owner o.pair.peer, .connection w o.pair)
  | .fetching o => some (n.owner o.pair.peer, .metadata (.worker w))
  | _ => none

def inSegment (w : Worker) : WorkerPhase Nic → Option Proc
  | .fetching _ | .fetched _ => some (n.home w)
  | _ => none

def source : WorkerPhase Nic → Option Proc
  | .replied o _ | .fetched o => some (n.owner o.pair.peer)
  | _ => none

variable {n : Net Proc Nic Worker} {w w' : Worker} {e : Endpoint Nic} {p : Proc} {t : Thread Proc Worker}
  {phase : WorkerPhase Nic}

theorem waiting_of_pending (posted : phase.pending n w = some (p, .connection w' e)) :
    ∃ o, phase = .waiting o ∧ o.pair = e ∧ n.owner e.peer = p := by
  cases phase with
  | waiting o =>
    cases posted
    exact ⟨o, rfl, rfl, rfl⟩
  | _ => cases posted

theorem fetching_of_pending (posted : phase.pending n w = some (p, .metadata t)) :
    ∃ o, phase = .fetching o ∧ n.owner o.pair.peer = p := by
  cases phase with
  | fetching o =>
    cases posted
    exact ⟨o, rfl, rfl⟩
  | _ => cases posted

end WorkerPhase

namespace DaemonPhase

def current : DaemonPhase Proc Nic Worker → List (Request Proc Nic Worker)
  | .serving r | .replying r _ => [r]
  | .deleted w e | .found w e _ | .locked w e _ | .fetching w e _ | .fetched w e _ => [.connection w e]
  | .idle | .answered _ _ => []

def pending (n : Net Proc Nic Worker) (p : Proc) :
    DaemonPhase Proc Nic Worker → Option (Proc × Request Proc Nic Worker)
  | .fetching _ e _ => some (n.owner e.own, .metadata (.daemon p))
  | _ => none

def inSegment (p : Proc) : DaemonPhase Proc Nic Worker → Option Proc
  | .fetching _ _ _ | .fetched _ _ _ => some p
  | _ => none

def source (n : Net Proc Nic Worker) : DaemonPhase Proc Nic Worker → Option Proc
  | .fetched _ e _ => some (n.owner e.own)
  | _ => none

def linger : DaemonPhase Proc Nic Worker → Option (Thread Proc Worker)
  | .answered t false => some t
  | _ => none

theorem fetching_of_pending {n : Net Proc Nic Worker} {p q : Proc} {r : Request Proc Nic Worker}
    {phase : DaemonPhase Proc Nic Worker} (posted : phase.pending n q = some (p, r)) :
    ∃ w e number, phase = .fetching w e number ∧ n.owner e.own = p := by
  cases phase with
  | fetching w e number =>
    cases posted
    exact ⟨w, e, number, rfl, rfl⟩
  | _ => cases posted

end DaemonPhase

namespace State

def view {α : Type} (f : Worker → WorkerPhase Nic → α) (g : Proc → DaemonPhase Proc Nic Worker → α)
    (s : State Proc Nic Worker) : Thread Proc Worker → α
  | .worker w => f w (s.worker w)
  | .daemon p => g p (s.daemon p)

variable (n : Net Proc Nic Worker)

def pending : State Proc Nic Worker → Thread Proc Worker → Option (Proc × Request Proc Nic Worker) :=
  view (WorkerPhase.pending n) (DaemonPhase.pending n)

def inSegment : State Proc Nic Worker → Thread Proc Worker → Option Proc :=
  view (WorkerPhase.inSegment n) DaemonPhase.inSegment

def source : State Proc Nic Worker → Thread Proc Worker → Option Proc :=
  view (fun _ => WorkerPhase.source n) (fun _ => DaemonPhase.source n)

def outstanding (s : State Proc Nic Worker) (p : Proc) : List (Request Proc Nic Worker) :=
  (s.daemon p).current ++ s.queue p

def linger (s : State Proc Nic Worker) (p : Proc) : Option (Thread Proc Worker) := (s.daemon p).linger

def Orderly (s : State Proc Nic Worker) : Prop :=
  Fits (s.pending n) s.outstanding s.segmentLock (s.inSegment n) s.linger (s.source n)

variable {n : Net Proc Nic Worker} {s : State Proc Nic Worker} {w : Worker} {p : Proc} {t : Thread Proc Worker}

theorem daemon_of_linger (unread : s.linger p = some t) : s.daemon p = .answered t false := by
  unfold linger DaemonPhase.linger at unread
  split at unread
  next phase => rw [phase, Option.some.inj unread]
  · cases unread

variable [DecidableEq Proc]

theorem outstanding_enterDaemon (s : State Proc Nic Worker) (p : Proc) (phase : DaemonPhase Proc Nic Worker) :
    (s.enterDaemon p phase).outstanding = update s.outstanding p (phase.current ++ s.queue p) := by
  funext q
  exact apply_update (fun q phase => DaemonPhase.current phase ++ s.queue q) s.daemon p phase q

theorem outstanding_send (s : State Proc Nic Worker) (p : Proc) (r : Request Proc Nic Worker) :
    (s.send p r).outstanding = update s.outstanding p (s.outstanding p ++ [r]) := by
  funext q
  by_cases same : q = p
  · subst same
    simp [outstanding, send]
  · simp [outstanding, send, same]

variable {before after : DaemonPhase Proc Nic Worker}

theorem outstanding_enterDaemon_same (phase : s.daemon p = before)
    (same : after.current = before.current) : (s.enterDaemon p after).outstanding = s.outstanding := by
  rw [outstanding_enterDaemon, same, ← phase]
  exact update_eq_self p s.outstanding

theorem linger_enterDaemon (s : State Proc Nic Worker) (p : Proc) (phase : DaemonPhase Proc Nic Worker) :
    (s.enterDaemon p phase).linger = update s.linger p phase.linger :=
  comp_update DaemonPhase.linger s.daemon p phase

theorem linger_enterDaemon_same (phase : s.daemon p = before)
    (same : after.linger = before.linger) : (s.enterDaemon p after).linger = s.linger := by
  rw [linger_enterDaemon, same, ← phase]
  exact update_eq_self p s.linger

variable [DecidableEq Worker]

section Views
variable {α : Type} {f : Worker → WorkerPhase Nic → α} {g : Proc → DaemonPhase Proc Nic Worker → α}

theorem view_enterWorker (s : State Proc Nic Worker) (w : Worker) (phase : WorkerPhase Nic) :
    view f g (s.enterWorker w phase) = update (view f g s) (.worker w) (f w phase) := by
  funext t
  cases t with
  | worker w' =>
    by_cases same : w' = w
    · subst same
      simp [view, enterWorker]
    · simp [view, enterWorker, same]
  | daemon q => simp [view, enterWorker]

theorem view_enterDaemon (s : State Proc Nic Worker) (p : Proc) (phase : DaemonPhase Proc Nic Worker) :
    view f g (s.enterDaemon p phase) = update (view f g s) (.daemon p) (g p phase) := by
  funext t
  cases t with
  | worker w => simp [view, enterDaemon]
  | daemon q =>
    by_cases same : q = p
    · subst same
      simp [view, enterDaemon]
    · simp [view, enterDaemon, same]

theorem view_enterWorker_same {before after : WorkerPhase Nic} (phase : s.worker w = before)
    (same : f w after = f w before) : view f g (s.enterWorker w after) = view f g s := by
  rw [view_enterWorker, same, ← phase]
  exact update_eq_self (Thread.worker w) (view f g s)

theorem view_enterDaemon_same (phase : s.daemon p = before)
    (same : g p after = g p before) : view f g (s.enterDaemon p after) = view f g s := by
  rw [view_enterDaemon, same, ← phase]
  exact update_eq_self (Thread.daemon p) (view f g s)

end Views

variable {o : RdmaEndPoint Nic} {e : Endpoint Nic} {number : Nat}

/-! ## Steps of a worker -/

theorem Orderly.enterWorker {phase : WorkerPhase Nic} (x : s.Orderly n)
    (pending : phase.pending n w = (s.worker w).pending n w)
    (inSegment : phase.inSegment n w = (s.worker w).inSegment n w)
    (source : phase.source n = (s.worker w).source n) : (s.enterWorker w phase).Orderly n :=
  Fits.congr x (view_enterWorker_same rfl pending) rfl rfl (view_enterWorker_same rfl inSegment) rfl
    (view_enterWorker_same rfl source)

theorem Orderly.send (x : s.Orderly n) (phase : s.worker w = .locked o) :
    ((s.send (n.owner o.pair.peer) (.connection w o.pair)).enterWorker w (.waiting o)).Orderly n := by
  have idle : s.pending n (.worker w) = none := congrArg (WorkerPhase.pending n w) phase
  refine (Fits.sendConnection x idle).congr (view_enterWorker _ _ _)
    (outstanding_send s (n.owner o.pair.peer) (.connection w o.pair)) rfl ?_ rfl ?_
  · exact view_enterWorker_same phase rfl
  · exact view_enterWorker_same phase rfl

theorem Orderly.fetch (x : s.Orderly n) (phase : s.worker w = .describing o)
    (free : s.segmentLock (n.home w) = none)
    (quiet : ∀ r ∈ s.outstanding (n.owner o.pair.peer), r.isMetadata = true) :
    (((s.setSegmentLock (n.home w) (some (.worker w))).send (n.owner o.pair.peer) (.metadata (.worker w))).enterWorker w
      (.fetching o)).Orderly n := by
  have outside : s.inSegment n (.worker w) = none := congrArg (WorkerPhase.inSegment n w) phase
  have idle : s.pending n (.worker w) = none := congrArg (WorkerPhase.pending n w) phase
  refine ((Fits.enterSegment x free outside).sendMetadata idle quiet).congr (view_enterWorker _ _ _)
    (outstanding_send s (n.owner o.pair.peer) (.metadata (.worker w))) rfl (view_enterWorker _ _ _) rfl ?_
  exact view_enterWorker_same phase rfl

/-! ## Steps of a daemon -/

variable {r : Request Proc Nic Worker}

theorem Orderly.accept {rest : List (Request Proc Nic Worker)} (x : s.Orderly n)
    (phase : s.daemon p = .idle) (first : s.queue p = r :: rest) :
    ({ s with queue := update s.queue p rest }.enterDaemon p (.serving r)).Orderly n := by
  refine Fits.congr x ?_ ?_ rfl ?_ ?_ ?_
  · exact view_enterDaemon_same phase rfl
  · funext q
    by_cases same : q = p
    · subst same
      simp [outstanding, State.enterDaemon, phase, first, DaemonPhase.current]
    · simp [outstanding, State.enterDaemon, same]
  · exact view_enterDaemon_same phase rfl
  · exact linger_enterDaemon_same phase rfl
  · exact view_enterDaemon_same phase rfl

theorem Orderly.turn {phase : DaemonPhase Proc Nic Worker} (x : s.Orderly n)
    (current : phase.current = (s.daemon p).current) (pending : phase.pending n p = (s.daemon p).pending n p)
    (inSegment : phase.inSegment p = (s.daemon p).inSegment p) (source : phase.source n = (s.daemon p).source n)
    (linger : phase.linger = (s.daemon p).linger) : (s.enterDaemon p phase).Orderly n :=
  Fits.congr x (view_enterDaemon_same rfl pending) (outstanding_enterDaemon_same rfl current) rfl
    (view_enterDaemon_same rfl inSegment) (linger_enterDaemon_same rfl linger) (view_enterDaemon_same rfl source)

theorem Orderly.fetchPassive (x : s.Orderly n) (phase : s.daemon p = .locked w e number)
    (free : s.segmentLock p = none) (quiet : ∀ r ∈ s.outstanding (n.owner e.own), r.isMetadata = true) :
    (((s.setSegmentLock p (some (.daemon p))).send (n.owner e.own) (.metadata (.daemon p))).enterDaemon p
      (.fetching w e number)).Orderly n := by
  have outside : s.inSegment n (.daemon p) = none := congrArg (DaemonPhase.inSegment p) phase
  have idle : s.pending n (.daemon p) = none := congrArg (DaemonPhase.pending n p) phase
  refine ((Fits.enterSegment x free outside).sendMetadata idle quiet).congr (view_enterDaemon _ _ _) ?_ rfl
    (view_enterDaemon _ _ _) ?_ ?_
  · refine Eq.trans (outstanding_enterDaemon_same phase rfl) ?_
    exact outstanding_send s (n.owner e.own) (.metadata (.daemon p))
  · exact linger_enterDaemon_same phase rfl
  · exact view_enterDaemon_same phase rfl

structure Delivered (n : Net Proc Nic Worker) (p : Proc) (r : Request Proc Nic Worker)
    (s s' : State Proc Nic Worker) : Prop where
  daemon : s'.daemon p = s.daemon p
  queue : s'.queue = s.queue
  segmentLock : s'.segmentLock = s.segmentLock
  pending : s'.pending n = Function.update (s.pending n) r.client none
  outstanding : s'.outstanding = s.outstanding
  inSegment : s'.inSegment n = s.inSegment n
  linger : s'.linger = s.linger
  source : s'.source n = Function.update (s.source n) r.client (some p)
  nothing : s.source n r.client = none

theorem delivered_worker {before after : WorkerPhase Nic} (phase : s.worker w = before)
    (client : r.client = .worker w) (pending : after.pending n w = none)
    (inSegment : after.inSegment n w = before.inSegment n w) (source : after.source n = some p)
    (nothing : before.source n = none) : Delivered n p r s (s.enterWorker w after) := by
  refine ⟨rfl, rfl, rfl, ?_, rfl, view_enterWorker_same phase inSegment, rfl, ?_, ?_⟩
  · rw [client, ← pending]
    exact view_enterWorker _ _ _
  · rw [client, ← source]
    exact view_enterWorker _ _ _
  · rw [client, ← nothing, ← phase]
    rfl

variable {accepted : Bool}

theorem Orderly.deliver (x : s.Orderly n)
    (phase : s.daemon p = .replying r accepted) : Delivered n p r s (s.deliver r accepted) := by
  have posted : s.pending n r.client = some (p, r) :=
    (x.mail.posted p r).mp (mem_append_left _ (by rw [phase]; exact mem_singleton.mpr rfl))
  cases r with
  | connection w e =>
    obtain ⟨o, waiting, rfl, target⟩ := WorkerPhase.waiting_of_pending posted
    have reached : s.deliver (.connection w o.pair) accepted = s.enterWorker w (.replied o accepted) := by
      simp only [State.deliver, waiting]
    rw [reached]
    exact delivered_worker waiting rfl rfl rfl (congrArg some target) rfl
  | metadata t =>
    cases t with
    | worker w =>
      obtain ⟨o, fetching, target⟩ := WorkerPhase.fetching_of_pending posted
      have reached : s.deliver (.metadata (.worker w)) accepted = s.enterWorker w (.fetched o) := by
        simp only [State.deliver, fetching]
      rw [reached]
      exact delivered_worker fetching rfl rfl rfl (congrArg some target) rfl
    | daemon q =>
      obtain ⟨w, e, number, fetching, target⟩ := DaemonPhase.fetching_of_pending posted
      have reached : s.deliver (.metadata (.daemon q)) accepted = s.enterDaemon q (.fetched w e number) := by
        simp only [State.deliver, fetching]
      have other : p ≠ q := fun same => by
        rw [same, fetching] at phase
        cases phase
      rw [reached]
      refine ⟨update_of_ne other _ _, rfl, rfl, view_enterDaemon _ _ _, ?_, ?_, ?_, ?_, ?_⟩
      · exact outstanding_enterDaemon_same fetching rfl
      · exact view_enterDaemon_same fetching rfl
      · exact linger_enterDaemon_same fetching rfl
      · rw [← target]
        exact view_enterDaemon _ _ _
      · exact congrArg (DaemonPhase.source n) fetching

theorem Orderly.reply (x : s.Orderly n) (phase : s.daemon p = .replying r accepted) :
    ((s.deliver r accepted).enterDaemon p (.answered r.client false)).Orderly n := by
  have sent := x.deliver phase
  have still : (s.deliver r accepted).daemon p = .replying r accepted := sent.daemon.trans phase
  have first : s.outstanding p = r :: s.queue p := by rw [outstanding, phase]; rfl
  have silent : s.linger p = none := congrArg DaemonPhase.linger phase
  refine (Fits.answer x first silent sent.nothing).congr ?_ ?_ sent.segmentLock ?_ ?_ ?_
  · rw [← sent.pending]
    exact view_enterDaemon_same still rfl
  · rw [outstanding_enterDaemon, sent.outstanding, sent.queue]
    rfl
  · rw [← sent.inSegment]
    exact view_enterDaemon_same still rfl
  · rw [linger_enterDaemon, sent.linger]
    rfl
  · rw [← sent.source]
    exact view_enterDaemon_same still rfl

/-! ## Steps that read a reply -/

variable [DecidableEq Nic]

theorem Orderly.close (x : s.Orderly n) (source : s.source n t = some p) :
    Fits ((s.close p t).pending n) (s.close p t).outstanding (s.close p t).segmentLock ((s.close p t).inSegment n)
      (s.close p t).linger (update ((s.close p t).source n) t none) := by
  have unread : s.linger p = some t := (x.replies p t).mpr source
  have phase := daemon_of_linger unread
  have closed : s.close p t = s.enterDaemon p (.answered t true) := if_pos phase
  rw [closed]
  refine (Fits.read x unread).congr ?_ ?_ rfl ?_ (linger_enterDaemon _ _ _) ?_
  · exact view_enterDaemon_same phase rfl
  · exact outstanding_enterDaemon_same phase rfl
  · exact view_enterDaemon_same phase rfl
  · have same : (s.enterDaemon p (.answered t true)).source n = s.source n := view_enterDaemon_same phase rfl
    rw [same]

theorem worker_close (s : State Proc Nic Worker) (p : Proc) (t : Thread Proc Worker) :
    (s.close p t).worker = s.worker := by
  unfold State.close
  split <;> rfl

theorem daemon_close {q : Proc} (other : s.daemon q ≠ .answered t false) :
    (s.close p t).daemon q = s.daemon q := by
  unfold State.close
  split
  next phase =>
    have different : q ≠ p := fun same => other (same ▸ phase)
    exact update_of_ne different _ _
  · rfl

/-- The worker has closed the connection of the reply and goes on without the segment lock. -/
theorem Orderly.replied (x : s.Orderly n) (after : WorkerPhase Nic)
    (phase : s.worker w = .replied o accepted) (pending : after.pending n w = none)
    (inSegment : after.inSegment n w = none) (source : after.source n = none) :
    ((s.close (n.owner o.pair.peer) (.worker w)).enterWorker w after).Orderly n := by
  have closed := x.close (t := .worker w) (congrArg (WorkerPhase.source n) phase)
  have here : (s.close (n.owner o.pair.peer) (.worker w)).worker w = .replied o accepted := by rw [worker_close, phase]
  refine closed.congr ?_ rfl rfl ?_ rfl ?_
  · exact view_enterWorker_same here pending
  · exact view_enterWorker_same here inSegment
  · rw [← source]
    exact view_enterWorker _ _ _

theorem Orderly.described (x : s.Orderly n) (phase : s.worker w = .fetched o) (described : Bool) :
    (((s.close (n.owner o.pair.peer) (.worker w)).remember (n.home w) (n.owner o.pair.peer) described).enterWorker w
      .idle).Orderly n := by
  have closed := x.close (t := .worker w) (congrArg (WorkerPhase.source n) phase)
  have here : (s.close (n.owner o.pair.peer) (.worker w)).worker w = .fetched o := by rw [worker_close, phase]
  have inside := (closed.segments (n.home w) (.worker w)).mpr (congrArg (WorkerPhase.inSegment n w) here)
  refine (closed.leaveSegment inside).congr ?_ rfl rfl (view_enterWorker _ _ _) rfl (view_enterWorker _ _ _)
  exact view_enterWorker_same here rfl

theorem Orderly.describedPassive (x : s.Orderly n) (phase : s.daemon p = .fetched w e number) (described ok : Bool) :
    (((s.close (n.owner e.own) (.daemon p)).remember p (n.owner e.own) described).enterDaemon p
      (.replying (.connection w e) ok)).Orderly n := by
  have closed := x.close (t := .daemon p) (congrArg (DaemonPhase.source n) phase)
  have here : (s.close (n.owner e.own) (.daemon p)).daemon p = .fetched w e number := by
    rw [daemon_close (by rw [phase]; exact fun same => nomatch same), phase]
  have inside := (closed.segments p (.daemon p)).mpr (congrArg (DaemonPhase.inSegment p) here)
  refine (closed.leaveSegment inside).congr ?_ ?_ rfl (view_enterDaemon _ _ _) ?_ (view_enterDaemon _ _ _)
  · exact view_enterDaemon_same here rfl
  · exact outstanding_enterDaemon_same here rfl
  · exact linger_enterDaemon_same here rfl

end State

end Mooncake.Engine.Handshake
