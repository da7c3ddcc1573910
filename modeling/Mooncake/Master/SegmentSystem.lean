import Mooncake.Master.SegmentIndex
import Mooncake.Master.SegmentTurns

/-! The segments of the running master. Whatever the threads do, the segment manager goes
through a run of mounts, prepares and commits, and an unmount in progress holds the token
of its prepare; so all that holds of such runs holds of the master. -/
namespace Mooncake.Master
open SegmentManager Multiset World IndexState
variable {A H : Type}

/-! The loops of the monitor. -/

theorem prepareUnmountSegment_ok {m : SegmentManager} {id : UUID} {s : MountedSegment}
    (found : m.mountedSegments.lookup id = some s) (mounted : s.status ≠ .unmounting) :
    m.prepareUnmountSegment id = (m.dropAllocator id s, s.segment.size, .ok) := by
  simp only [prepareUnmountSegment, found, if_neg mounted]

variable {P : SegmentManager → List (UUID × UUID × Nat) → Prop}

theorem expireSegments_keeps {client : UUID} (segments : List Segment)
    (keeps : ∀ m commits s, ∀ segment ∈ segments, P m commits → m.mountedSegments.lookup segment.id = some s →
      s.status ≠ .unmounting →
      P (m.dropAllocator segment.id s) (commits ++ [(segment.id, client, s.segment.size)])) (m : SegmentManager)
    (commits : List (UUID × UUID × Nat)) (start : P m commits) :
    P (expireSegments client segments (m, commits)).1 (expireSegments client segments (m, commits)).2 := by
  induction segments generalizing m commits with
  | nil => exact start
  | cons segment segments ih =>
    have rest := ih (fun m commits s other member => keeps m commits s other (List.mem_cons_of_mem _ member))
    obtain ⟨-, outcome⟩ | ⟨s, -, -, outcome⟩ | ⟨s, found, mounted, outcome⟩ :=
      m.prepareUnmountSegment_cases segment.id
    · simp only [expireSegments, outcome]
      exact rest m commits start
    · simp only [expireSegments, outcome]
      exact rest m commits start
    · simp only [expireSegments, outcome]
      exact rest _ _ (keeps m commits s segment List.mem_cons_self start found mounted)

theorem expireClients_each (clients : List UUID)
    (each : ∀ m commits segments, ∀ client ∈ clients, P m commits →
      m.getClientSegments client = .ok segments →
      P (expireSegments client segments (m, commits)).1 (expireSegments client segments (m, commits)).2)
    (m : SegmentManager) (commits : List (UUID × UUID × Nat)) (start : P m commits) :
    P (expireClients clients (m, commits)).1 (expireClients clients (m, commits)).2 := by
  induction clients generalizing m commits with
  | nil => exact start
  | cons client clients ih =>
    have rest := ih (fun m commits segments other member =>
      each m commits segments other (List.mem_cons_of_mem _ member))
    simp only [expireClients]
    split
    · exact rest m commits start
    · rename_i segments listed
      exact rest _ _ (each m commits segments client List.mem_cons_self start listed)

theorem expireClients_keeps
    (keeps : ∀ m commits id s client, P m commits → m.mountedSegments.lookup id = some s →
      s.status ≠ .unmounting → P (m.dropAllocator id s) (commits ++ [(id, client, s.segment.size)]))
    (clients : List UUID) (m : SegmentManager) (commits : List (UUID × UUID × Nat)) (start : P m commits) :
    P (expireClients clients (m, commits)).1 (expireClients clients (m, commits)).2 := by
  refine expireClients_each clients ?_ m commits start
  intro m commits segments client _ before _
  exact expireSegments_keeps segments (fun m commits s segment _ => keeps m commits segment.id s client)
    m commits before

/-! The part of the heap that the manager reads and writes. -/

section Index
variable [BufferAllocatorBase A H] {h h' : Heap A}

theorem addAllocator_index (same : h'.index = h.index) (a : A) (segment : Segment) (client : UUID) :
    (h'.addAllocator a segment client).index = (h.addAllocator a segment client).index := by
  simp only [Heap.index, Prod.mk.injEq] at same
  simp only [Heap.index, Heap.addAllocator, List.length_append, same]

variable (m : SegmentManager)

theorem mountSegment_index (same : h'.index = h.index) (segment : Segment) (client : UUID) :
    (m.mountSegment h' segment client).1 = (m.mountSegment h segment client).1 ∧
      (m.mountSegment h' segment client).2.1.index = (m.mountSegment h segment client).2.1.index ∧
      (m.mountSegment h' segment client).2.2 = (m.mountSegment h segment client).2.2 := by
  have number : h'.objects.length = h.objects.length := congrArg (fun index => index.2.1) same
  unfold mountSegment
  split
  · split
    · exact ⟨rfl, same, rfl⟩
    · rename_i a made
      exact ⟨by rw [number], addAllocator_index same a segment client, rfl⟩
  · exact ⟨rfl, same, rfl⟩

theorem reMountSegment_cons (h : Heap A) (client : UUID) (segment : Segment) (segments : List Segment) :
    m.reMountSegment h client (segment :: segments) =
      if (m.mountSegment h segment client).2.2 = .unavailableInCurrentStatus ∨
          (m.mountSegment h segment client).2.2 = .internalError then m.mountSegment h segment client
      else (m.mountSegment h segment client).1.reMountSegment (m.mountSegment h segment client).2.1
        client segments := by
  rw [reMountSegment]
  split
  · rename_i outcome
    rw [outcome, if_pos (Or.inl rfl)]
  · rename_i outcome
    rw [outcome, if_pos (Or.inr rfl)]
  · rename_i code available working outcome
    rw [outcome, if_neg (fun stop => stop.elim available working)]

theorem reMountSegment_index (same : h'.index = h.index) (segments : List Segment) (client : UUID) :
    (m.reMountSegment h' client segments).1 = (m.reMountSegment h client segments).1 ∧
      (m.reMountSegment h' client segments).2.1.index = (m.reMountSegment h client segments).2.1.index := by
  induction segments generalizing m h h' with
  | nil => exact ⟨rfl, same⟩
  | cons segment segments ih =>
    obtain ⟨manager, index, code⟩ := mountSegment_index m same segment client
    rw [reMountSegment_cons, reMountSegment_cons, code]
    split
    · exact ⟨manager, index⟩
    · rw [manager]
      exact ih _ index

theorem commitUnmountSegment_index (same : h'.index = h.index) (id client : UUID) (dec : Nat) :
    (m.commitUnmountSegment h' id client dec).2.index = (m.commitUnmountSegment h id client dec).2.index := by
  simp only [Heap.index, Prod.mk.injEq] at same
  simp only [Heap.index, commitUnmountSegment, same]

end Index

/-! The simulation. -/

def token (t : UUID × UUID × Nat) : UUID × Nat := (t.1, t.2.2)

structure Abstracts (s : IndexState A) (w : World A H) : Prop where
  manager : s.manager = w.segments
  index : s.heap.index = w.heap.index
  pending : (s.pending : Multiset (UUID × Nat)) = w.tokens.map token

theorem expiryPhase_tokens (commits : List (UUID × UUID × Nat)) :
    (if commits.isEmpty then MonitorPhase.sleeping else .sweeping commits 0).tokens = commits := by
  cases commits with
  | nil => rfl
  | cons commit commits => rfl

theorem tokens_idle {w : World A H} (none : w.monitor.tokens = 0) :
    w.tokens = Table.total (fun _ task => task.tokens) w.tasks := by
  rw [tokens, none, add_zero]

section Simulation
variable [BufferAllocatorBase A H] {p : Params} {w w' : World A H} {s : IndexState A}

theorem run_single {s s' : IndexState A} {e : IndexEvent} (step : s.step e = some s') :
    Run.run IndexState.step s [e] = some s' := by
  rw [Run.run, step]
  rfl

theorem step_prepare {id : UUID} {mounted : MountedSegment}
    (found : s.manager.mountedSegments.lookup id = some mounted) (status : mounted.status ≠ .unmounting) :
    s.step (.prepareUnmountSegment id) =
      some ⟨s.manager.dropAllocator id mounted, s.heap, (id, mounted.segment.size) :: s.pending⟩ := by
  rw [IndexState.step, prepareUnmountSegment_ok found status]

theorem expireClients_run (s : IndexState A) (clients : List UUID) :
    ∃ events s', Run.run step s events = some s' ∧
      s'.manager = (expireClients clients (s.manager, [])).1 ∧ s'.heap = s.heap ∧
      (s'.pending : Multiset (UUID × Nat)) =
        ((expireClients clients (s.manager, [])).2 : Multiset (UUID × UUID × Nat)).map token + s.pending := by
  refine expireClients_keeps (P := fun m commits => ∃ events s', Run.run step s events = some s' ∧
    s'.manager = m ∧ s'.heap = s.heap ∧
      (s'.pending : Multiset (UUID × Nat)) = (commits : Multiset (UUID × UUID × Nat)).map token + s.pending)
    ?_ clients s.manager [] ⟨[], s, rfl, rfl, rfl, (zero_add _).symm⟩
  rintro m commits id mounted client ⟨events, s', run, rfl, heap, pending⟩ found status
  refine ⟨events ++ [.prepareUnmountSegment id],
    ⟨s'.manager.dropAllocator id mounted, s'.heap, (id, mounted.segment.size) :: s'.pending⟩, ?_, rfl, heap, ?_⟩
  · rw [Run.run_append, run]
    exact run_single (step_prepare found status)
  · rw [← cons_coe, pending, ← coe_add, Multiset.map_add, add_right_comm]
    exact (singleton_add _ _).symm.trans (add_comm _ _)

theorem commitAll_run (commits : List (UUID × UUID × Nat)) (m : SegmentManager) (h : Heap A) (s : IndexState A)
    (rest : Multiset (UUID × Nat)) (manager : s.manager = m) (index : s.heap.index = h.index)
    (pending : (s.pending : Multiset (UUID × Nat)) =
      (commits : Multiset (UUID × UUID × Nat)).map token + rest) :
    ∃ events s', Run.run step s events = some s' ∧ s'.manager = (commitAll (m, h) commits).1 ∧
      s'.heap.index = (commitAll (m, h) commits).2.index ∧ (s'.pending : Multiset (UUID × Nat)) = rest := by
  induction commits generalizing m h s with
  | nil => exact ⟨[], s, rfl, manager, index, pending.trans (zero_add rest)⟩
  | cons commit commits ih =>
    obtain ⟨id, client, dec⟩ := commit
    rw [← cons_coe, map_cons, cons_add] at pending
    have held : (id, dec) ∈ s.pending := by
      rw [← mem_coe, pending]
      exact mem_cons_self _ _
    have step : s.step (.commitUnmountSegment id client dec) =
        some ⟨(s.manager.commitUnmountSegment s.heap id client dec).1,
          (s.manager.commitUnmountSegment s.heap id client dec).2, s.pending.erase (id, dec)⟩ := by
      rw [IndexState.step, if_pos held]
    have left : ((s.pending.erase (id, dec) : List (UUID × Nat)) : Multiset (UUID × Nat)) =
        (commits : Multiset (UUID × UUID × Nat)).map token + rest := by
      have whole : (s.pending : Multiset (UUID × Nat)) =
        (id, dec) ::ₘ (s.pending.erase (id, dec) : List (UUID × Nat)) :=
        coe_eq_coe.mpr (List.perm_cons_erase held)
      exact (cons_inj_right (id, dec)).mp (whole.symm.trans pending)
    subst manager
    obtain ⟨events, s', run, manager', index', pending'⟩ :=
      ih (s.manager.commitUnmountSegment h id client dec).1
      (s.manager.commitUnmountSegment h id client dec).2
      ⟨(s.manager.commitUnmountSegment s.heap id client dec).1,
        (s.manager.commitUnmountSegment s.heap id client dec).2,
        s.pending.erase (id, dec)⟩ rfl (commitUnmountSegment_index _ index id client dec) left
    refine ⟨.commitUnmountSegment id client dec :: events, s', ?_, manager', index', pending'⟩
    rw [Run.run, step]
    exact run

theorem abstracts_step (rel : Abstracts s w) (turn : SegmentTurn w w') :
    ∃ events s', Run.run IndexState.step s events = some s' ∧ Abstracts s' w' := by
  cases turn with
  | same same =>
    exact ⟨[], s, rfl, rel.manager.trans same.segments.symm,
      rel.index.trans same.index.symm, by rw [same.tokens, rel.pending]⟩
  | begin task free segments index mounting tokens =>
    exact ⟨[], s, rfl, rel.manager.trans segments.symm, rel.index.trans index.symm, by rw [tokens, rel.pending]⟩
  | mounted segment client was segments index mounting tokens =>
    obtain ⟨manager, heap, -⟩ := mountSegment_index s.manager rel.index segment client
    refine ⟨[.mountSegment segment client], _, run_single rfl, ?_, ?_, by rw [tokens, rel.pending]⟩
    · rw [segments, ← rel.manager]
      exact manager
    · rw [index, ← rel.manager]
      exact heap
  | reMounted list client was segments index mounting tokens =>
    obtain ⟨manager, heap⟩ := reMountSegment_index s.manager rel.index list client
    refine ⟨[.reMountSegment list client], _, run_single rfl, ?_, ?_, by rw [tokens, rel.pending]⟩
    · rw [segments, ← rel.manager]
      exact manager
    · rw [index, ← rel.manager]
      exact heap
  | prepared id segment client mounted free unused found status after =>
    rw [← rel.manager] at found
    have tokens : w'.tokens = {(segment, client, mounted.segment.size)} + w.tokens := by
      rw [after]
      exact newTask_tokens unused
    refine ⟨[.prepareUnmountSegment segment], _, run_single (step_prepare found status), ?_, ?_, ?_⟩
    · rw [after, rel.manager]
      rfl
    · rw [after]
      exact rel.index
    · rw [tokens, Multiset.map_add, ← cons_coe, rel.pending]
      exact (singleton_add _ _).symm
  | committed id segment client dec next free listed all after =>
    have tokens : w.tokens = {(segment, client, dec)} + w'.tokens := by
      rw [after]
      exact endTask_tokens listed
    have pending : (s.pending : Multiset (UUID × Nat)) =
        ([(segment, client, dec)] : Multiset (UUID × UUID × Nat)).map token + w'.tokens.map token := by
      rw [rel.pending, tokens, Multiset.map_add]
      rfl
    obtain ⟨events, s', run, manager, index, left⟩ :=
      commitAll_run [(segment, client, dec)] w.segments w.heap s _ rel.manager rel.index pending
    subst after
    exact ⟨events, s', run, manager, index, left⟩
  | expired clients was free segments index mounting tasks monitor =>
    obtain ⟨events, s', run, manager, heap, pending⟩ := expireClients_run s clients
    rw [rel.manager] at manager pending
    refine ⟨events, s', run, manager.trans segments.symm, ?_, ?_⟩
    · rw [heap, rel.index, index]
    · have after : w'.tokens = w.tokens + (expireClients clients (w.segments, [])).2 := by
        have before : w.tokens = _ := tokens_idle (by rw [was]; rfl)
        rw [tokens, tasks, monitor, expiryPhase_tokens, before]
      rw [pending, after, Multiset.map_add, rel.pending, add_comm]
  | finished commits next was all free segments heap mounting tasks monitor =>
    have tokens : w.tokens = (commits : Multiset (UUID × UUID × Nat)) + w'.tokens := by
      rw [tokens, tokens, was, tasks, monitor, add_comm]
      exact congrArg _ (add_zero _).symm
    have pending : (s.pending : Multiset (UUID × Nat)) =
        (commits : Multiset (UUID × UUID × Nat)).map token + w'.tokens.map token := by
      rw [rel.pending, tokens, Multiset.map_add]
    obtain ⟨events, s', run, manager, index, left⟩ :=
      commitAll_run commits w.segments w.heap s _ rel.manager rel.index pending
    refine ⟨events, s', run, manager.trans segments.symm, ?_, left⟩
    rw [index, heap]

/-- Every run of the master is a run of the segment manager. -/
theorem abstracts_reachable (reached : Reachable p w) :
    ∃ events s, Run.run step (start p.memoryAllocator) events = some s ∧ Abstracts s w := by
  obtain ⟨steps, run⟩ := reached
  refine Run.invariant (P := fun w : World A H => ∃ events s,
    Run.run step (start p.memoryAllocator) events = some s ∧ Abstracts s w) ?_ ?_ run
  · rintro w e w' ⟨events, s, run, rel⟩ done
    obtain ⟨⟨mid, r⟩, inside, same⟩ := Option.map_eq_some_iff.mp done
    cases same
    obtain ⟨more, s', run', rel'⟩ := abstracts_step rel (exec_segments inside)
    refine ⟨events ++ more, s', ?_, rel'⟩
    rw [Run.run_append, run]
    exact run'
  · exact ⟨[], _, rfl, rfl, rfl, rfl⟩

/-! What the master inherits. -/

structure Segmented (w : World A H) : Prop where
  indexed : Indexed w.segments w.heap
  awaited : Awaited w.segments.mountedSegments (w.tokens.map token)

omit [BufferAllocatorBase A H] in
theorem Indexed.congr {m : SegmentManager} {h h' : Heap A} (x : Indexed m h) (same : h.index = h'.index) :
    Indexed m h' := by
  simp only [Heap.index, Prod.mk.injEq] at same
  obtain ⟨origin, number, -⟩ := same
  exact ⟨by rw [← origin, ← number, x.parallel], origin ▸ x.settled, x.allocators, x.names, x.nonempty⟩

theorem segmented_reachable (reached : Reachable p w) : Segmented w := by
  obtain ⟨events, s, run, rel⟩ := abstracts_reachable reached
  have x : s.Sound := Run.invariant (fun _ _ _ x next => step_sound x next) (start_sound _) run
  refine ⟨?_, ?_⟩
  · rw [← rel.manager]
    exact x.indexed.congr rel.index
  · rw [← rel.manager, ← rel.pending]
    exact x.awaited

end Simulation
end Mooncake.Master
