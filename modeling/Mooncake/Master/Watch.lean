import Mooncake.Master.Owners

/-! Every client that has something to lose is watched. A mount pushes its client to the ping
queue before it completes, and the monitor, which takes clients off the queue without a lock,
cannot act on them before the mount has released the segments. -/
namespace Mooncake.Master
open SegmentManager Table World
variable {A H : Type}

def World.Watches (w : World A H) (client : UUID) : Prop :=
  client ∈ w.clientPingQueue ∨ (w.clientTtl.lookup client).isSome = true ∨ client ∈ w.monitor.expiredClients

/-- Every segment in use is listed under the client that mounted it, and the client is one of `Q`. -/
def Cared (m : SegmentManager) (origin : List (UUID × UUID)) (Q : UUID → Prop) : Prop :=
  ∀ id s, m.mountedSegments.lookup id = some s → s.status ≠ .unmounting →
    ∃ client, mountedBy origin id = some client ∧ id ∈ m.clientSegments.listAt client ∧ Q client

section Cared
variable {m : SegmentManager} {origin : List (UUID × UUID)} {Q : UUID → Prop} {id client : UUID} {s : MountedSegment}

theorem Cared.mono (x : Cared m origin Q) {Q' : UUID → Prop} (more : ∀ client, Q client → Q' client) :
    Cared m origin Q' := by
  intro id s found status
  obtain ⟨client, own, listed, watched⟩ := x id s found status
  exact ⟨client, own, listed, more client watched⟩

theorem cared_drop (x : Cared m origin Q) : Cared (m.dropAllocator id s) origin Q := by
  intro u s' found status
  rcases lookup_dropAllocator found with ⟨-, rfl⟩ | before
  · exact absurd rfl status
  · exact x u s' before status

variable [BufferAllocatorBase A H] {h : Heap A}

theorem cared_mount (x : Cared m h.origin Q) (segment : Segment) (watched : Q client) :
    Cared (m.mountSegment h segment client).1 (m.mountSegment h segment client).2.1.origin Q := by
  obtain ⟨code, -, outcome⟩ | ⟨a, free, outcome⟩ := m.mountSegment_cases h segment client
  · rw [outcome]
    exact x
  rw [outcome]
  intro u s found status
  rcases eq_or_ne u segment.id with rfl | other
  · refine ⟨client, mountedBy_new _ _ _, ?_, watched⟩
    rw [addSegment, listAt_pushBack_self]
    exact List.mem_append_right _ (List.mem_singleton_self _)
  · obtain ⟨c, own, listed, watched⟩ := x u s ((AList.lookup_insert_ne other).symm.trans found) status
    refine ⟨c, (mountedBy_other other).trans own, ?_, watched⟩
    rcases eq_or_ne c client with rfl | different
    · rw [addSegment, listAt_pushBack_self]
      exact List.mem_append_left _ listed
    · rw [addSegment, listAt_pushBack_ne different]
      exact listed

theorem cared_reMount (x : Cared m h.origin Q) (segments : List Segment) (watched : Q client) :
    Cared (m.reMountSegment h client segments).1 (m.reMountSegment h client segments).2.1.origin Q :=
  reMountSegment_keeps (P := fun m h => Cared m h.origin Q) client
    (fun _ _ segment before => cared_mount before segment watched) segments m h x

variable (x : Cared m origin Q)
include x

theorem cared_commit (dec : Nat) : Cared (m.commitUnmountSegment h id client dec).1 origin Q := by
  intro u s found status
  obtain ⟨other, before⟩ := lookup_erase_eq_some.mp found
  obtain ⟨c, own, listed, watched⟩ := x u s before status
  exact ⟨c, own, mem_listAt_eraseFrom other listed, watched⟩

theorem cared_commitAll (commits : List (UUID × UUID × Nat)) : Cared (commitAll (m, h) commits).1 origin Q := by
  induction commits generalizing m h with
  | nil => exact x
  | cons commit commits ih => exact ih (cared_commit (h := h) x commit.2.2)

theorem cared_expire (named : Named m.mountedSegments) (clients : List UUID) :
    Cared (expireClients clients (m, [])).1 origin (fun client => Q client ∧ client ∉ clients) := by
  have kept : Cared (expireClients clients (m, [])).1 origin Q ∧
      (expireClients clients (m, [])).1.clientSegments = m.clientSegments := by
    refine expireClients_keeps (P := fun m' _ => Cared m' origin Q ∧ m'.clientSegments = m.clientSegments) ?_ clients m []
      ⟨x, rfl⟩
    exact fun m' commits id s client before _ _ => ⟨cared_drop before.1, before.2⟩
  intro u s found status
  obtain ⟨client, own, listed, watched⟩ := kept.1 u s found status
  refine ⟨client, own, listed, watched, fun expired => ?_⟩
  rw [kept.2] at listed
  exact status (expireClients_leaving clients m [] named expired listed s found)

end Cared

structure Watched (w : World A H) : Prop where
  segments : Cared w.segments w.heap.origin w.Watches
  ok : ∀ client ∈ w.okClient, w.Watches client
  mounting : ∀ task, w.mounting = some task → w.Watches task.client

theorem watched_start (p : Params) : Watched (start p : World A H) :=
  ⟨fun _ _ found => (nomatch found), fun _ member => absurd member (Finset.notMem_empty _), fun _ was => (nomatch was)⟩

section Steps
variable [BufferAllocatorBase A H] {p : Params} {w w' : World A H} {e : Event} {r : Reply}

omit [BufferAllocatorBase A H] in
theorem Segmented.named (x : Segmented w) : Named w.segments.mountedSegments :=
  fun id s found => (x.indexed.settled id s found).1

omit [BufferAllocatorBase A H] in
theorem Watched.keep (x : Watched w) (more : ∀ client, w.Watches client → w'.Watches client)
    (segments : Cared w'.segments w'.heap.origin w.Watches) (okClient : w'.okClient = w.okClient)
    (mounting : w'.mounting = w.mounting ∨ w'.mounting = none) : Watched w' := by
  refine ⟨segments.mono more, fun client member => more client (x.ok client (okClient ▸ member)), fun task was => ?_⟩
  rcases mounting with same | none
  · exact more _ (x.mounting task (same ▸ was))
  · cases none.symm.trans was

theorem watched_step (x : Watched w) (segmented : Segmented w) (act : Act p w e w' r) : Watched w' := by
  cases act with
  | store e w' r act =>
    have same := (store_clients act).1
    have origin : w'.heap.origin = w.heap.origin := congrArg Prod.fst same.segments.index
    refine x.keep (fun client watched => ?_) ?_ same.okClient (Or.inl same.segments.mounting)
    · rw [Watches, same.queue, same.ttl, same.expired]
      exact watched
    · rw [same.segments.segments, origin]
      exact x.segments
  | refuse => exact x
  | ping client =>
    exact x.keep (fun _ watched => watched.imp_left (List.mem_append_left _)) x.segments rfl (Or.inl rfl)
  | begin e plain task client named free =>
    have more : ∀ c, w.Watches c → Watches { w with
        clientPingQueue := w.clientPingQueue ++ [client], mounting := some task } c :=
      fun c watched => watched.imp_left (List.mem_append_left _)
    refine ⟨x.segments.mono more, fun c member => more c (x.ok c member), fun task' was => ?_⟩
    cases was
    have same : task.client = client := by rcases named with ⟨_, rfl⟩ | ⟨_, rfl⟩ <;> rfl
    exact Or.inl (List.mem_append_right _ (same ▸ List.mem_singleton_self _))
  | mounted segment client was =>
    exact x.keep (fun _ watched => watched) (cared_mount x.segments segment (x.mounting _ was)) rfl (Or.inr rfl)
  | reMounted segments client was code heap after =>
    refine ⟨after ▸ cared_reMount x.segments segments (x.mounting _ was), fun c member => ?_, fun _ none => nomatch none⟩
    rcases Finset.mem_insert.mp member with rfl | member
    · exact x.mounting _ was
    · exact x.ok c member
  | rejected segments client was =>
    exact x.keep (fun _ watched => watched) (cared_reMount x.segments segments (x.mounting _ was)) rfl (Or.inr rfl)
  | prepared id segment client s =>
    exact x.keep (fun _ watched => watched) (cared_drop x.segments) rfl (Or.inl rfl)
  | committed id segment client dec =>
    exact x.keep (fun _ watched => watched) (cared_commit (h := w.heap) x.segments dec) rfl (Or.inl rfl)
  | drained order now client rest deadline was queue =>
    refine x.keep (fun c watched => ?_) x.segments rfl (Or.inl rfl)
    -- the client at the head of the queue gets a deadline
    rcases eq_or_ne c client with rfl | other
    · exact Or.inr (Or.inl (by rw [AList.lookup_insert]; rfl))
    · rcases watched with queued | timed | expired
      · rw [queue] at queued
        exact Or.inl ((List.mem_cons.mp queued).resolve_left other)
      · exact Or.inr (Or.inl (by rw [AList.lookup_insert_ne other]; exact timed))
      · exact Or.inr (Or.inr expired)
  | collected order now was ttl late moved =>
    refine x.keep (fun c watched => ?_) x.segments rfl (Or.inl rfl)
    rcases watched with queued | timed | expired
    · exact Or.inl queued
    · exact Or.inr ((moved c timed).imp_right fun gone => by simpa only [(late_phase late).2] using gone)
    · rw [was] at expired
      cases expired
  | expired order clients was free =>
    have more : ∀ client, w.Watches client → client ∉ clients →
        client ∈ w.clientPingQueue ∨ (w.clientTtl.lookup client).isSome = true := by
      intro client watched spared
      rcases watched with queued | timed | expired
      · exact Or.inl queued
      · exact Or.inr timed
      · rw [was] at expired
        exact absurd expired spared
    refine ⟨?_, ?_, ?_⟩
    · refine (cared_expire x.segments segmented.named clients).mono ?_
      exact fun client both => (more client both.1 both.2).imp_right Or.inl
    · intro client member
      obtain ⟨ok, spared⟩ := Finset.mem_sdiff.mp member
      exact (more client (x.ok client ok) (fun expired => spared (List.mem_toFinset.mpr expired))).imp_right Or.inl
    · intro task mounting
      simp only [segmentFree, Bool.and_eq_true, Option.isNone_iff_eq_none] at free
      cases free.1.symm.trans mounting
  | finished order commits next all free was =>
    refine x.keep (fun c watched => ?_) ?_ rfl (Or.inl rfl)
    · rw [Watches, was] at watched
      exact watched
    · rw [commitAll_origin]
      exact cared_commitAll x.segments commits

theorem watched_reachable (reached : Reachable p w) : Watched w := by
  obtain ⟨events, run⟩ := reached
  have both : Reachable p w ∧ Watched w := by
    refine Run.invariant (P := fun w => Reachable p w ∧ Watched w) ?_ ⟨⟨[], rfl⟩, watched_start p⟩ run
    intro w e w' x done
    obtain ⟨r, inside⟩ := step_exec done
    exact ⟨x.1.step done, watched_step x.2 (segmented_reachable x.1) (exec_act inside)⟩
  exact both.2

/-- Once the queue is empty the monitor finds every client whose deadline has passed. -/
theorem collect_expires {order : List UUID} {now deadline : Int} {client : UUID} (was : w.monitor = .draining now)
    (drained : w.clientPingQueue = []) (found : w.clientTtl.lookup client = some deadline) (late : deadline < now)
    (done : w.step p (.monitor order) = some w') : client ∈ w'.monitor.expiredClients := by
  obtain ⟨r, inside⟩ := step_exec done
  simp only [exec, monitorAdvance, was, drained] at inside
  split at inside
  next distinct =>
    split at inside
    next all =>
      cases inside
      rw [(late_phase _).2, Table.sweep_appends
        (f := fun client deadline => if deadline < now then some client else none) (by intro _ _ _; split <;> simp)]
      rw [← Table.lookup_reorder w.clientTtl distinct all] at found
      exact List.mem_append_right _ (List.mem_filterMap.mpr ⟨_, AList.mem_lookup_iff.mp found, if_pos late⟩)
    next => cases inside
  next => cases inside

/-- In every state each client that mounted a segment in use, and each member of `ok_client_`, is in the ping
queue, has a deadline, or is about to be expired; and one whose deadline has passed is about to be expired after
the monitor's next look at the deadlines. -/
theorem no_client_escapes_monitor (reached : World.Reachable p w) :
    (∀ id s, w.segments.mountedSegments.lookup id = some s → s.status = .ok →
      ∃ client, w.mountedBy id = some client ∧ w.Watches client) ∧ (∀ client ∈ w.okClient, w.Watches client) ∧
    ∀ order now client deadline w', w.monitor = .draining now → w.clientPingQueue = [] →
      w.clientTtl.lookup client = some deadline → deadline < now → w.step p (.monitor order) = some w' →
        client ∈ w'.monitor.expiredClients := by
  have x := watched_reachable reached
  refine ⟨fun id s found ok => ?_, x.ok, fun _ _ _ _ _ => collect_expires⟩
  obtain ⟨client, own, -, watched⟩ := x.segments id s found (by rw [ok]; exact fun no => nomatch no)
  exact ⟨client, own, watched⟩

end Steps

open Sample in
/-- The client of a mount is found expired before the mount completes. -/
theorem no_client_escapes_monitor_during_mount : ∃ w : State,
    w.clientPingQueue = [] ∧ w.clientTtl.keys = [] ∧ (w.segments.mountedSegments.lookup segmentA.id).isSome = true ∧
      w.Watches clientA := by
  have outcome : (Run.run (step params) (start params : State)
      [.mountSegment segmentA clientA true, .monitor [], .monitor [], .monitor [clientA], .tick 20000000000, .monitor [],
        .monitor [clientA], .mountFinish]).bind (fun w => some (decide (
          w.clientPingQueue = [] ∧ w.clientTtl.keys = [] ∧ w.mountedBy segmentA.id = some clientA ∧
          (w.segments.mountedSegments.lookup segmentA.id).map MountedSegment.status = some .ok))) = some true := by
    decide +kernel
  obtain ⟨w, reached, observed⟩ := reached_of_outcome outcome
  obtain ⟨queue, ttl, own, status⟩ := of_decide_eq_true (Option.some.inj observed)
  obtain ⟨s, found, ok⟩ := Option.map_eq_some_iff.mp status
  obtain ⟨client, own', watched⟩ := (no_client_escapes_monitor reached).1 segmentA.id s found ok
  cases own.symm.trans own'
  exact ⟨w, queue, ttl, by rw [found]; rfl, watched⟩

end Mooncake.Master
