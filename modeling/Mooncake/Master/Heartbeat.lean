import Mooncake.Master.Owners

/-! What a client may conclude from the answer OK to its ping. Which segments a client counts on
is history here: those it has mounted or remounted. -/
namespace Mooncake.Master
open SegmentManager Table World List
variable {A H : Type}

def InUse (m : SegmentManager) (id : UUID) : Prop :=
  ∃ s, m.mountedSegments.lookup id = some s ∧ s.status = .ok

section Mounts
variable [BufferAllocatorBase A H] {m : SegmentManager} {h : Heap A} {segment : Segment} {id client : UUID}

/-- Nothing is wrong with the segment itself: no mount of it is refused as INVALID_PARAMS. -/
def validParams (A : Type) {H : Type} [BufferAllocatorBase A H] (m : SegmentManager) (segment : Segment) : Bool :=
  decide (segment.base ≠ 0 ∧ segment.size ≠ 0) &&
    decide (m.memoryAllocator = .cachelib → segment.base % slabSize = 0 ∧ segment.size % slabSize = 0) &&
    (BufferAllocatorBase.create (A := A) m.memoryAllocator segment).isSome

theorem mountSegment_inUse (segment : Segment) (client : UUID) (used : InUse m id) :
    InUse (m.mountSegment h segment client).1 id := by
  obtain ⟨s, found, ok⟩ := used
  obtain ⟨code, -, outcome⟩ | ⟨a, free, outcome⟩ := m.mountSegment_cases h segment client
  · rw [outcome]
    exact ⟨s, found, ok⟩
  · rw [outcome]
    have different : id ≠ segment.id := by
      rintro rfl
      cases free.symm.trans found
    exact ⟨s, (AList.lookup_insert_ne different).trans found, ok⟩

theorem reMountSegment_inUse (segments : List Segment) (used : InUse m id) :
    InUse (m.reMountSegment h client segments).1 id :=
  reMountSegment_keeps (P := fun m _ => InUse m id) client (fun _ _ segment => mountSegment_inUse segment client)
    segments m h used

theorem mounted_inUse (answer : (m.mountSegment h segment client).2.2 = .ok ∨
      (m.mountSegment h segment client).2.2 = .segmentAlreadyExists) :
    InUse (m.mountSegment h segment client).1 segment.id := by
  unfold mountSegment at answer ⊢
  split at answer
  · rename_i accepted
    split at answer
    · rcases answer with code | code
      · cases code
      · cases code
    · rename_i a made
      exact ⟨_, AList.lookup_insert _, rfl⟩
  · rename_i code refused
    have exists' : m.mountCheck segment = .segmentAlreadyExists := answer.resolve_left refused
    unfold mountCheck at exists'
    split at exists'
    · cases exists'
    split at exists'
    · cases exists'
    split at exists'
    · rename_i s found
      split at exists'
      · exact ⟨s, found, by assumption⟩
      · cases exists'
    · cases exists'

theorem mountSegment_memoryAllocator (segment : Segment) (client : UUID) :
    (m.mountSegment h segment client).1.memoryAllocator = m.memoryAllocator := by
  obtain ⟨code, -, outcome⟩ | ⟨a, free, outcome⟩ := m.mountSegment_cases h segment client
  · rw [outcome]
  · rw [outcome]
    rfl

/-- With valid parameters the only refusal is that the segment is being unmounted. -/
theorem mountSegment_valid (valid : validParams A m segment = true) (client : UUID) :
    (m.mountSegment h segment client).2.2 = .ok ∨ (m.mountSegment h segment client).2.2 = .segmentAlreadyExists ∨
      (m.mountSegment h segment client).2.2 = .unavailableInCurrentStatus := by
  simp only [validParams, Bool.and_eq_true, decide_eq_true_eq] at valid
  obtain ⟨⟨⟨base, size⟩, aligned⟩, made⟩ := valid
  obtain ⟨a, made⟩ := Option.isSome_iff_exists.mp made
  have placed : ¬(m.memoryAllocator = .cachelib ∧ (segment.base % slabSize ≠ 0 ∨ segment.size % slabSize ≠ 0)) := by
    rintro ⟨kind, off | off⟩
    · exact off (aligned kind).1
    · exact off (aligned kind).2
  have check : m.mountCheck segment = .ok ∨ m.mountCheck segment = .segmentAlreadyExists ∨
      m.mountCheck segment = .unavailableInCurrentStatus := by
    unfold mountCheck
    rw [if_neg (fun zero => zero.elim base size), if_neg placed]
    split
    · split
      · exact Or.inr (Or.inl rfl)
      · exact Or.inr (Or.inr rfl)
    · exact Or.inl rfl
  unfold mountSegment
  rcases check with code | code | code
  · exact Or.inl (by simp only [code, made])
  · exact Or.inr (Or.inl (by simp only [code]))
  · exact Or.inr (Or.inr (by simp only [code]))

/-- After a remount that is answered OK every valid segment of its list is in use. -/
theorem reMounted_inUse {segments : List Segment} (answer : (m.reMountSegment h client segments).2.2 = .ok) :
    ∀ segment ∈ segments, validParams A m segment = true → InUse (m.reMountSegment h client segments).1 segment.id := by
  induction segments generalizing m h with
  | nil => exact fun segment member => (nomatch member)
  | cons head segments ih =>
    rw [reMountSegment_cons] at answer ⊢
    split at answer
    · rename_i stop
      rw [answer] at stop
      rcases stop with code | code
      · cases code
      · cases code
    · rename_i goes
      rw [if_neg goes]
      intro segment member valid
      rcases mem_cons.mp member with rfl | later
      · apply reMountSegment_inUse
        apply mounted_inUse
        rcases mountSegment_valid (h := h) valid client with code | code | code
        · exact Or.inl code
        · exact Or.inr code
        · exact absurd (Or.inl code) goes
      · refine ih answer segment later ?_
        rw [validParams, mountSegment_memoryAllocator]
        exact valid

end Mounts

/-! The history. -/

structure Heartbeat (A H : Type) where
  world : World A H
  held : UUID → List UUID := fun _ => []

namespace Heartbeat

def start (p : Params) : Heartbeat A H := { world := World.start p }

variable [BufferAllocatorBase A H]

/-- What a client counts on after an event with this answer. A request to unmount the segment, or
the expiry of a client that lists it, ends that. -/
def note (s : Heartbeat A H) (client : UUID) : Event → Reply → List UUID
  | .mountFinish, .void (.ok ()) =>
    match s.world.mounting with
    | some (.mount segment mounter) => if client = mounter then segment.id :: s.held client else s.held client
    | some (.reMount segments mounter) =>
      if client = mounter then (segments.filter (validParams A s.world.segments)).map Segment.id ++ s.held client
      else s.held client
    | none => s.held client
  | .unmountSegment _ segment _, _ => (s.held client).filter (fun id => decide (id ≠ segment))
  | .monitor _, _ =>
    (s.held client).filter (fun id => s.world.monitor.expiredClients.all (fun other =>
      decide (id ∉ s.world.segments.clientSegments.listAt other)))
  | _, _ => s.held client

def step (p : Params) (s : Heartbeat A H) (e : Event) : Option (Heartbeat A H) :=
  (s.world.exec p e).map (fun r => { world := r.1, held := fun client => s.note client e r.2 })

def Reachable (p : Params) (s : Heartbeat A H) : Prop := ∃ events, Run.run (step p) (start p) events = some s

end Heartbeat

section Steps
variable [BufferAllocatorBase A H] {p : Params} {s s' : Heartbeat A H} {e : Event} {r : Reply} {w' : World A H}
  {client id : UUID}

theorem note_subset (member : id ∈ s.note client e r) (unfinished : e ≠ .mountFinish) : id ∈ s.held client := by
  unfold Heartbeat.note at member
  split at member
  · exact absurd rfl unfinished
  · exact (mem_filter.mp member).1
  · exact (mem_filter.mp member).1
  · exact member

theorem note_mounted {segment : Segment} {mounter : UUID} (was : s.world.mounting = some (.mount segment mounter))
    (member : id ∈ s.note client .mountFinish r) : (r = .void (.ok ()) ∧ id = segment.id) ∨ id ∈ s.held client := by
  by_cases answer : r = .void (.ok ())
  · simp only [answer, Heartbeat.note, was] at member
    split at member
    · exact (mem_cons.mp member).imp_left (fun same => ⟨answer, same⟩)
    · exact Or.inr member
  · unfold Heartbeat.note at member
    split at member <;> first | contradiction | exact Or.inr member

theorem note_reMounted {segments : List Segment} {mounter : UUID}
    (was : s.world.mounting = some (.reMount segments mounter)) (member : id ∈ s.note client .mountFinish r) :
    (r = .void (.ok ()) ∧ ∃ segment ∈ segments, validParams A s.world.segments segment = true ∧ segment.id = id) ∨
      id ∈ s.held client := by
  by_cases answer : r = .void (.ok ())
  · simp only [answer, Heartbeat.note, was] at member
    split at member
    · obtain new | older := mem_append.mp member
      · obtain ⟨segment, kept, rfl⟩ := mem_map.mp new
        obtain ⟨listed, valid⟩ := mem_filter.mp kept
        exact Or.inl ⟨answer, segment, listed, valid, rfl⟩
      · exact Or.inr older
    · exact Or.inr member
  · unfold Heartbeat.note at member
    split at member <;> first | contradiction | exact Or.inr member

def Trusty (s : Heartbeat A H) : Prop :=
  ∀ client, ∀ id ∈ s.held client, InUse s.world.segments id

omit [BufferAllocatorBase A H] in
theorem Segmented.inUse_no_token {w : World A H} (x : Segmented w) (used : InUse w.segments id) (mounter : UUID)
    (dec : Nat) : (id, mounter, dec) ∉ w.tokens := by
  intro token
  obtain ⟨seg, found, ok⟩ := used
  obtain ⟨seg', found', leaving⟩ := x.unmounting token
  cases found.symm.trans found'
  cases ok.symm.trans leaving

/-- An expiry leaves alone what no expired client lists. -/
theorem expireClients_inUse {m : SegmentManager} (named : Named m.mountedSegments) (clients : List UUID)
    (unlisted : ∀ other ∈ clients, id ∉ m.clientSegments.listAt other) (used : InUse m id) :
    InUse (expireClients clients (m, [])).1 id := by
  have kept : Named (expireClients clients (m, [])).1.mountedSegments ∧
      (expireClients clients (m, [])).1.clientSegments = m.clientSegments ∧
      InUse (expireClients clients (m, [])).1 id := by
    refine expireClients_listed (P := fun m' _ => Named m'.mountedSegments ∧ m'.clientSegments = m.clientSegments ∧
      InUse m' id) clients (fun _ _ before => before.1) ?_ m [] ⟨named, rfl, used⟩
    rintro m' commits j seg other expired ⟨named', lists, used'⟩ listed found mounted
    have different : id ≠ j := by
      rintro rfl
      exact unlisted other expired (lists ▸ listed)
    obtain ⟨seg', found', ok⟩ := used'
    exact ⟨named_drop named' found, lists, seg', (AList.lookup_insert_ne different).trans found', ok⟩
  exact kept.2.2

theorem trusty_step (x : Trusty s) (segmented : Segmented s.world) (act : Act p s.world e w' r) :
    ∀ client, ∀ id ∈ s.note client e r, InUse w'.segments id := by
  intro client id member
  cases act with
  | store e w' r act =>
    obtain ⟨same, plain⟩ := store_clients act
    rw [same.segments.segments]
    exact x client id (note_subset member plain.ne_mountFinish)
  | begin e plain => exact x client id (note_subset member plain.ne_mountFinish)
  | refuse | ping | drained | collected => exact x client id (note_subset member nofun)
  | mounted segment mounter was r answer =>
    rcases note_mounted was member with ⟨yes, rfl⟩ | older
    · exact mounted_inUse (answer yes)
    · exact mountSegment_inUse segment mounter (x client id older)
  | reMounted segments mounter was code heap after =>
    rcases note_reMounted was member with ⟨yes, segment, listed, valid, rfl⟩ | older
    · exact reMounted_inUse code segment listed valid
    · exact reMountSegment_inUse segments (x client id older)
  | rejected segments mounter was code =>
    rcases note_reMounted was member with ⟨yes, -⟩ | older
    · cases yes
    · exact reMountSegment_inUse segments (x client id older)
  | prepared task segment mounter mounted free unused found status =>
    obtain ⟨older, other⟩ := mem_filter.mp member
    obtain ⟨seg, found', ok'⟩ := x client id older
    exact ⟨seg, (AList.lookup_insert_ne (of_decide_eq_true other)).trans found', ok'⟩
  | committed task segment mounter dec next free listed =>
    have used := x client id (note_subset member nofun)
    have different : id ≠ segment := by
      rintro rfl
      refine segmented.inUse_no_token used mounter dec ?_
      rw [endTask_tokens listed]
      exact Multiset.mem_add.mpr (Or.inl (Multiset.mem_singleton_self _))
    obtain ⟨seg, found, ok'⟩ := used
    exact ⟨seg, (AList.lookup_erase_ne different).trans found, ok'⟩
  | expired order clients was =>
    obtain ⟨member, others⟩ := mem_filter.mp member
    rw [was] at others
    refine expireClients_inUse (fun j seg found => (segmented.indexed.settled j seg found).1) clients ?_
      (x client id member)
    intro other expired
    exact of_decide_eq_true (all_eq_true.mp others other expired)
  | finished order commits next all free was =>
    have used := x client id (note_subset member nofun)
    have other : ∀ mounter dec, (id, mounter, dec) ∉ commits := by
      intro mounter dec listed
      refine segmented.inUse_no_token used mounter dec ?_
      rw [tokens, was]
      exact Multiset.mem_add.mpr (Or.inr (Multiset.mem_coe.mpr listed))
    obtain ⟨seg, found, ok'⟩ := used
    exact ⟨seg, (commitAll_lookup_ne other).trans found, ok'⟩

theorem trusty_reachable (reached : s.Reachable p) : Reachable p s.world ∧ Trusty s := by
  obtain ⟨events, run⟩ := reached
  refine Run.invariant (P := fun s => Reachable p s.world ∧ Trusty s) ?_ ?_ run
  · rintro s e s' ⟨reached, x⟩ done
    obtain ⟨⟨w', r⟩, inside, same⟩ := Option.map_eq_some_iff.mp done
    subst same
    refine ⟨reached.step (congrArg (Option.map Prod.fst) inside), ?_⟩
    exact trusty_step x (segmented_reachable reached) (exec_act inside)
  · exact ⟨⟨[], rfl⟩, fun client id none => nomatch none⟩

/-- Every segment that a client counts on is in use, whatever the master answers to its ping. -/
theorem heartbeat_ok_trustworthy (reached : s.Reachable p) :
    ∀ id ∈ s.held client, ∃ mounted, s.world.segments.mountedSegments.lookup id = some mounted ∧ mounted.status = .ok :=
  (trusty_reachable reached).2 client

end Steps

open Sample Offset in
theorem heartbeat_ok_after_remount : ∃ s :
    Heartbeat OffsetBufferAllocator OffsetAllocationHandle, s.Reachable params ∧ clientA ∈ s.world.okClient ∧
    s.held clientA = [segmentA.id, segmentB.id] ∧ ∀ id ∈ [segmentA.id, segmentB.id],
      ∃ mounted, s.world.segments.mountedSegments.lookup id = some mounted ∧ mounted.status = .ok := by
  have outcome : (Run.run (Heartbeat.step params) (Heartbeat.start params : Heartbeat OffsetBufferAllocator _)
      (mount segmentB clientA ++ [.reMountSegment [segmentA] clientA true, .mountFinish])).bind
        (fun s => some (decide (clientA ∈ s.world.okClient ∧ s.held clientA = [segmentA.id, segmentB.id]))) =
          some true := by decide +kernel
  obtain ⟨s, run, observed⟩ := Option.bind_eq_some_iff.mp outcome
  obtain ⟨ok, held⟩ := of_decide_eq_true (Option.some.inj observed)
  refine ⟨s, ⟨_, run⟩, ok, held, ?_⟩
  rw [← held]
  exact heartbeat_ok_trustworthy ⟨_, run⟩

namespace Sample

def expire (client : UUID) : List Event :=
  [.monitor [], .monitor [], .monitor [client], .tick 20000000000, .monitor [], .monitor [client], .monitor []]

end Sample

open Sample in
/-- A client whose segment went with its expiry remounts none, and is answered OK from then on. -/
theorem heartbeat_ok_without_segment : ∃ w₀ w₁ w : State,
    World.Reachable params w₀ ∧ w₀.mounting.map MountTask.client = some clientA ∧
      w₀.exec params .mountFinish = some (w₁, .void (.ok ())) ∧
      (w₁.segments.mountedSegments.lookup segmentA.id).map MountedSegment.status = some .ok ∧
      Run.run (World.step params) w₁ (expire clientA ++ [.reMountSegment [] clientA true, .mountFinish]) = some w ∧
      clientA ∈ w.okClient ∧
      (w.segments.mountedSegments.lookup segmentA.id).map MountedSegment.status = some .unmounting := by
  have outcome : (Run.run (step params) (start params : State)
      [.mountSegment segmentA clientA true]).bind (fun w₀ => (w₀.exec params .mountFinish).bind (fun r =>
        (Run.run (step params) r.1 (expire clientA ++ [.reMountSegment [] clientA true, .mountFinish])).map (fun w =>
          decide (r.2 = .void (.ok ()) ∧ w₀.mounting.map MountTask.client = some clientA ∧
            (r.1.segments.mountedSegments.lookup segmentA.id).map MountedSegment.status = some .ok ∧
            clientA ∈ w.okClient ∧
            (w.segments.mountedSegments.lookup segmentA.id).map MountedSegment.status = some .unmounting)))) =
              some true := by decide +kernel
  obtain ⟨w₀, reached, rest⟩ := reached_of_outcome outcome
  obtain ⟨⟨w₁, r⟩, done, rest⟩ := Option.bind_eq_some_iff.mp rest
  obtain ⟨w, run, observed⟩ := Option.map_eq_some_iff.mp rest
  obtain ⟨answer, mounter, before, ok, after⟩ := of_decide_eq_true observed
  subst answer
  exact ⟨w₀, w₁, w, reached, mounter, done, before, run, ok, after⟩

end Mooncake.Master
