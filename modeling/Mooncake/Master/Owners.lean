import Mooncake.Master.ClientTurns
import Mooncake.Master.Unmount

/-! Whose segments they are. A mount lists its segment under the client that asked for it; a
commit takes it off the list of the client that the unmount named, whoever that was. -/
namespace Mooncake.Master
open SegmentManager Table Option Multiset AList World List
variable {A H : Type}

def mountedBy (origin : List (UUID × UUID)) (id : UUID) : Option UUID := origin.reverse.lookup id

def World.mountedBy (w : World A H) (id : UUID) : Option UUID := Master.mountedBy w.heap.origin id

theorem mountedBy_new (origin : List (UUID × UUID)) (id client : UUID) :
    mountedBy (origin ++ [(id, client)]) id = some client := by
  rw [mountedBy, reverse_append, reverse_singleton, singleton_append, lookup_cons, beq_self_eq_true]

theorem mountedBy_other {origin : List (UUID × UUID)} {id other client : UUID} (different : id ≠ other) :
    mountedBy (origin ++ [(other, client)]) id = mountedBy origin id := by
  rw [mountedBy, reverse_append, reverse_singleton, singleton_append, lookup_cons,
    beq_eq_false_iff_ne.mpr different, mountedBy]

/-! The expiry of clients in full. -/

def Leaving (t : Table UUID MountedSegment) (id : UUID) : Prop := ∀ s, t.lookup id = some s → s.status = .unmounting

def Named (t : Table UUID MountedSegment) : Prop := ∀ id s, t.lookup id = some s → s.segment.id = id

section Expiry
variable {m : SegmentManager} {id client : UUID} {s : MountedSegment}

theorem lookup_dropAllocator {j : UUID} {s' : MountedSegment}
    (found : (m.dropAllocator id s).mountedSegments.lookup j = some s') :
    (j = id ∧ s' = { s with bufAllocator := none, status := .unmounting }) ∨ m.mountedSegments.lookup j = some s' :=
  (lookup_insert_eq_some.mp found).imp (fun new => ⟨new.1, new.2.symm⟩) And.right

theorem leaving_drop {j : UUID} (leaving : Leaving m.mountedSegments j) :
    Leaving (m.dropAllocator id s).mountedSegments j := by
  intro s' found
  rcases lookup_dropAllocator found with ⟨-, rfl⟩ | before
  · rfl
  · exact leaving s' before

theorem named_drop (named : Named m.mountedSegments) (found : m.mountedSegments.lookup id = some s) :
    Named (m.dropAllocator id s).mountedSegments := by
  intro j s' found'
  rcases lookup_dropAllocator found' with ⟨rfl, rfl⟩ | before
  · exact named j s found
  · exact named j s' before

theorem getClientSegments_ids {segments : List Segment} (named : Named m.mountedSegments)
    (listed : m.getClientSegments client = .ok segments) :
    ∀ segment ∈ segments, segment.id ∈ m.clientSegments.listAt client := by
  intro segment member
  unfold getClientSegments at listed
  split at listed
  · cases listed
  · rename_i ids found
    cases listed
    obtain ⟨id, inside, value⟩ := mem_filterMap.mp member
    obtain ⟨s, mounted, rfl⟩ := map_eq_some_iff.mp value
    rw [named id s mounted, listAt_of_lookup found]
    exact inside

theorem getClientSegments_mem (listed : id ∈ m.clientSegments.listAt client) (named : Named m.mountedSegments)
    (found : m.mountedSegments.lookup id = some s) :
    ∃ segments, m.getClientSegments client = .ok segments ∧ ∃ segment ∈ segments, segment.id = id := by
  unfold getClientSegments
  cases ids : m.clientSegments.lookup client with
  | none =>
    rw [listAt, ids] at listed
    cases listed
  | some ids' =>
    rw [listAt_of_lookup ids] at listed
    refine ⟨_, rfl, s.segment, mem_filterMap.mpr ⟨id, listed, ?_⟩, named id s found⟩
    rw [found]
    rfl

theorem expireClients_listed {P : SegmentManager → List (UUID × UUID × Nat) → Prop} (clients : List UUID)
    (named : ∀ m commits, P m commits → Named m.mountedSegments)
    (keeps : ∀ m commits id s, ∀ client ∈ clients, P m commits → id ∈ m.clientSegments.listAt client →
      m.mountedSegments.lookup id = some s → s.status ≠ .unmounting →
      P (m.dropAllocator id s) (commits ++ [(id, client, s.segment.size)]))
    (m : SegmentManager) (commits : List (UUID × UUID × Nat)) (start : P m commits) :
    P (expireClients clients (m, commits)).1 (expireClients clients (m, commits)).2 := by
  refine expireClients_each clients ?_ m commits start
  intro m commits segments client member before listed
  suffices both : P (expireSegments client segments (m, commits)).1 (expireSegments client segments (m, commits)).2 ∧
      (expireSegments client segments (m, commits)).1.clientSegments = m.clientSegments from both.1
  refine expireSegments_keeps (P := fun m' commits' => P m' commits' ∧ m'.clientSegments = m.clientSegments) segments ?_
    m commits ⟨before, rfl⟩
  rintro m' commits' s segment inside ⟨before', same⟩ found status
  refine ⟨keeps m' commits' segment.id s client member before' ?_ found status, same⟩
  rw [same]
  exact getClientSegments_ids (named m commits before) listed segment inside

theorem expireSegments_leaving (segments : List Segment) (m : SegmentManager) (commits : List (UUID × UUID × Nat)) :
    ∀ segment ∈ segments, Leaving (expireSegments client segments (m, commits)).1.mountedSegments segment.id := by
  induction segments generalizing m commits with
  | nil => exact fun segment member => by cases member
  | cons head segments ih =>
    rw [List.forall_mem_cons]
    have stays : ∀ (m : SegmentManager) (commits : List (UUID × UUID × Nat)), Leaving m.mountedSegments head.id →
        Leaving (expireSegments client segments (m, commits)).1.mountedSegments head.id := by
      intro m commits leaving
      exact expireSegments_keeps (P := fun m _ => Leaving m.mountedSegments head.id) segments
        (fun m commits s segment _ before _ _ => leaving_drop before) m commits leaving
    obtain ⟨missing, outcome⟩ | ⟨s, found, leaving, outcome⟩ | ⟨s, found, mounted, outcome⟩ :=
      m.prepareUnmountSegment_cases head.id
    · simp only [expireSegments, outcome]
      exact ⟨stays m commits (fun s found => by cases missing.symm.trans found), ih m commits⟩
    · simp only [expireSegments, outcome]
      refine ⟨stays m commits (fun s' found' => ?_), ih m commits⟩
      cases found.symm.trans found'
      exact leaving
    · simp only [expireSegments, outcome]
      refine ⟨stays _ _ (fun s' found' => ?_), ih _ _⟩
      cases (lookup_insert _).symm.trans found'
      rfl

/-- No segment that an expired client lists stays in use. -/
theorem expireClients_leaving (clients : List UUID) (m : SegmentManager) (commits : List (UUID × UUID × Nat))
    (named : Named m.mountedSegments) (member : client ∈ clients) (listed : id ∈ m.clientSegments.listAt client) :
    Leaving (expireClients clients (m, commits)).1.mountedSegments id := by
  have stays : ∀ (clients : List UUID) (m : SegmentManager) (commits : List (UUID × UUID × Nat)),
      Leaving m.mountedSegments id → Leaving (expireClients clients (m, commits)).1.mountedSegments id := by
    intro clients m commits leaving
    exact expireClients_keeps (P := fun m _ => Leaving m.mountedSegments id)
      (fun m commits j s client before _ _ => leaving_drop before) clients m commits leaving
  induction clients generalizing m commits with
  | nil => cases member
  | cons head clients ih =>
    cases found : m.mountedSegments.lookup id with
    | none => exact stays _ m commits (fun s found' => nomatch found.symm.trans found')
    | some s =>
      simp only [expireClients]
      rcases mem_cons.mp member with rfl | later
      · obtain ⟨segments, asked, segment, inside, rfl⟩ := getClientSegments_mem listed named found
        rw [asked]
        exact stays clients _ _ (expireSegments_leaving segments m commits segment inside)
      · split
        · exact ih m commits named later listed
        · rename_i segments asked
          have kept : Named (expireSegments head segments (m, commits)).1.mountedSegments ∧
              (expireSegments head segments (m, commits)).1.clientSegments = m.clientSegments := by
            refine expireSegments_keeps (P := fun m' _ => Named m'.mountedSegments ∧ m'.clientSegments = m.clientSegments)
              segments ?_ m commits ⟨named, rfl⟩
            exact fun m' commits' s segment _ before found _ => ⟨named_drop before.1 found, before.2⟩
          exact ih _ _ kept.1 later (kept.2 ▸ listed)

end Expiry

/-! The lists of the clients and the unmounts in progress. -/

structure Owned (m : SegmentManager) (origin : List (UUID × UUID)) (tokens : Multiset (UUID × UUID × Nat)) :
    Prop where
  listed : ∀ client, Exactly (m.clientSegments.listAt client)
    (fun id => (m.mountedSegments.lookup id).isSome = true ∧ mountedBy origin id = some client)
  made : ∀ id s, m.mountedSegments.lookup id = some s → ∃ client, mountedBy origin id = some client
  token : ∀ id client dec, (id, client, dec) ∈ tokens →
    (∃ s, m.mountedSegments.lookup id = some s ∧ s.status = .unmounting) ∧ mountedBy origin id = some client
  single : (tokens.map Prod.fst).Nodup
  named : Named m.mountedSegments

theorem owned_start (kind : BufferAllocatorType) : Owned { memoryAllocator := kind } [] 0 := by
  refine ⟨fun _ => ⟨nodup_nil, fun _ => ?_⟩, fun _ _ found => (nomatch found), ?_, nodup_zero,
    fun _ _ found => (nomatch found)⟩
  · exact ⟨fun member => (nomatch member), fun ⟨found, _⟩ => (nomatch found)⟩
  · exact fun _ _ _ member => absurd member (notMem_zero _)

section Owned
variable {m : SegmentManager} {origin : List (UUID × UUID)} {tokens : Multiset (UUID × UUID × Nat)} {id client : UUID}
  {s : MountedSegment}

theorem owned_add {segment : Segment} (x : Owned m origin tokens) (free : m.mountedSegments.lookup segment.id = none)
    (a : Nat) : Owned (m.addSegment segment client a) (origin ++ [(segment.id, client)]) tokens := by
  have old : ∀ {id s}, m.mountedSegments.lookup id = some s → id ≠ segment.id := by
    rintro id s found rfl
    cases free.symm.trans found
  have kept : ∀ {id s}, m.mountedSegments.lookup id = some s →
      (m.addSegment segment client a).mountedSegments.lookup id = some s :=
    fun found => (lookup_insert_ne (old found)).trans found
  constructor
  · intro c
    rcases eq_or_ne c client with rfl | different
    · rw [addSegment, listAt_pushBack_self]
      refine ((x.listed c).push (v := segment.id) ?_).congr (fun u => ?_)
      · rintro ⟨found, -⟩
        rw [free] at found
        cases found
      · rcases eq_or_ne u segment.id with rfl | other
        · rw [lookup_insert, mountedBy_new]
          exact iff_of_true (Or.inl rfl) ⟨rfl, rfl⟩
        · rw [lookup_insert_ne other, mountedBy_other other]
          exact or_iff_right other
    · rw [addSegment, listAt_pushBack_ne different]
      refine (x.listed c).congr (fun u => ?_)
      rcases eq_or_ne u segment.id with rfl | other
      · rw [free, mountedBy_new]
        exact iff_of_false (fun both => by cases both.1) (fun both => different (some.inj both.2).symm)
      · rw [lookup_insert_ne other, mountedBy_other other]
  · intro u s found
    rcases lookup_insert_eq_some.mp found with ⟨rfl, -⟩ | ⟨other, before⟩
    · exact ⟨client, mountedBy_new _ _ _⟩
    · rw [mountedBy_other other]
      exact x.made u s before
  · intro u c dec member
    obtain ⟨⟨s, found, leaving⟩, by_client⟩ := x.token u c dec member
    exact ⟨⟨s, kept found, leaving⟩, (mountedBy_other (old found)).trans by_client⟩
  · exact x.single
  · intro u s found
    rcases lookup_insert_eq_some.mp found with ⟨rfl, rfl⟩ | ⟨-, before⟩
    · rfl
    · exact x.named u s before

theorem owned_drop (x : Owned m origin tokens) (found : m.mountedSegments.lookup id = some s)
    (mounted : s.status ≠ .unmounting) (own : mountedBy origin id = some client) (dec : Nat) :
    Owned (m.dropAllocator id s) origin ((id, client, dec) ::ₘ tokens) := by
  have same : ∀ u, ((m.dropAllocator id s).mountedSegments.lookup u).isSome = (m.mountedSegments.lookup u).isSome := by
    intro u
    rcases eq_or_ne u id with rfl | other
    · rw [dropAllocator, lookup_insert, found]
      rfl
    · rw [dropAllocator, lookup_insert_ne other]
  constructor
  · intro c
    exact (x.listed c).congr (fun u => by rw [same])
  · intro u s' found'
    rcases lookup_dropAllocator found' with ⟨rfl, -⟩ | before
    · exact ⟨client, own⟩
    · exact x.made u s' before
  · intro u c dec' member
    rcases mem_cons.mp member with new | before
    · cases new
      exact ⟨⟨_, lookup_insert _, rfl⟩, own⟩
    · obtain ⟨⟨s', found', leaving⟩, by_client⟩ := x.token u c dec' before
      rcases eq_or_ne u id with rfl | other
      · exact ⟨⟨_, lookup_insert _, rfl⟩, by_client⟩
      · exact ⟨⟨s', (lookup_insert_ne other).trans found', leaving⟩, by_client⟩
  · rw [Multiset.map_cons]
    refine nodup_cons.mpr ⟨fun member => ?_, x.single⟩
    obtain ⟨⟨u, c, dec'⟩, before, rfl⟩ := Multiset.mem_map.mp member
    obtain ⟨⟨s', found', leaving⟩, -⟩ := x.token u c dec' before
    cases found.symm.trans found'
    exact mounted leaving
  · exact named_drop x.named found

variable [BufferAllocatorBase A H] {h : Heap A}

theorem owned_mount (x : Owned m h.origin tokens) (segment : Segment) (client : UUID) :
    Owned (m.mountSegment h segment client).1 (m.mountSegment h segment client).2.1.origin tokens := by
  obtain ⟨code, -, outcome⟩ | ⟨a, free, outcome⟩ := m.mountSegment_cases h segment client
  · rw [outcome]
    exact x
  · rw [outcome]
    exact owned_add x free _

theorem owned_commit {dec : Nat} (x : Owned m origin ((id, client, dec) ::ₘ tokens)) :
    Owned (m.commitUnmountSegment h id client dec).1 origin tokens := by
  have own := (x.token id client dec (mem_cons_self _ _)).2
  have single := x.single
  rw [Multiset.map_cons, Multiset.nodup_cons] at single
  constructor
  · intro c
    rcases eq_or_ne c client with rfl | different
    · rw [commitUnmountSegment, listAt_eraseFrom_self]
      refine ((x.listed c).erase id).congr (fun u => ?_)
      rcases eq_or_ne u id with rfl | other
      · rw [lookup_erase]
        exact iff_of_false (fun both => both.1 rfl) (fun both => by cases both.1)
      · rw [lookup_erase_ne other]
        exact and_iff_right other
    · rw [commitUnmountSegment, listAt_eraseFrom_ne different]
      refine (x.listed c).congr (fun u => ?_)
      rcases eq_or_ne u id with rfl | other
      · rw [own]
        exact iff_of_false (fun both => different (some.inj both.2).symm)
          (fun both => different (some.inj both.2).symm)
      · rw [lookup_erase_ne other]
  · exact fun u s found => x.made u s (lookup_erase_eq_some.mp found).2
  · intro u c dec' member
    have other : u ≠ id := by
      rintro rfl
      exact single.1 (Multiset.mem_map.mpr ⟨_, member, rfl⟩)
    obtain ⟨⟨s, found, leaving⟩, by_client⟩ := x.token u c dec' (mem_cons_of_mem member)
    exact ⟨⟨s, (lookup_erase_ne other).trans found, leaving⟩, by_client⟩
  · exact single.2
  · exact fun u s found => x.named u s (lookup_erase_eq_some.mp found).2

variable {clients : List UUID} {commits : List (UUID × UUID × Nat)}

theorem owned_commitAll (x : Owned m origin (commits + tokens)) :
    Owned (commitAll (m, h) commits).1 origin tokens := by
  induction commits generalizing m h with
  | nil => exact (zero_add tokens) ▸ x
  | cons commit commits ih =>
    rw [← cons_coe, cons_add] at x
    exact ih (owned_commit (h := h) x)

theorem owned_expire (x : Owned m origin tokens) :
    Owned (expireClients clients (m, [])).1 origin ((expireClients clients (m, [])).2 + tokens) := by
  refine expireClients_listed (P := fun m commits => Owned m origin (commits + tokens)) clients ?_ ?_ m []
    ((zero_add tokens).symm ▸ x)
  · exact fun m commits x => x.named
  · intro m commits id s client _ x listed found mounted
    have own := (((x.listed client).2 id).mp listed).2
    have grown : ((commits ++ [(id, client, s.segment.size)] : List (UUID × UUID × Nat)) : Multiset (UUID × UUID × Nat)) +
        tokens = (id, client, s.segment.size) ::ₘ (commits + tokens) := by
      rw [← coe_add, coe_singleton, add_comm (commits : Multiset (UUID × UUID × Nat)),
        singleton_add, cons_add]
    rw [grown]
    exact owned_drop x found mounted own _

structure Expiring (m : SegmentManager) (origin : List (UUID × UUID)) (clients : List UUID) (m' : SegmentManager)
    (commits : List (UUID × UUID × Nat)) : Prop where
  named : Named m'.mountedSegments
  lists : m'.clientSegments = m.clientSegments
  back : ∀ id s, m'.mountedSegments.lookup id = some s → s.status ≠ .unmounting → m.mountedSegments.lookup id = some s
  sound : ∀ id client dec, (id, client, dec) ∈ commits → client ∈ clients ∧ mountedBy origin id = some client ∧
    ∃ s, m.mountedSegments.lookup id = some s ∧ s.status ≠ .unmounting ∧ s.segment.size = dec
  kept : ∀ id s, m.mountedSegments.lookup id = some s → s.status ≠ .unmounting →
    m'.mountedSegments.lookup id = some s ∨ ∃ client, (id, client, s.segment.size) ∈ commits

theorem expiring_prepare {m' : SegmentManager} (x : Owned m origin tokens)
    (before : Expiring m origin clients m' commits) (expired : client ∈ clients)
    (listed : id ∈ m'.clientSegments.listAt client) (found : m'.mountedSegments.lookup id = some s)
    (mounted : s.status ≠ .unmounting) :
    Expiring m origin clients (m'.dropAllocator id s) (commits ++ [(id, client, s.segment.size)]) := by
  refine ⟨named_drop before.named found, before.lists, ?_, ?_, ?_⟩
  · intro u s' found' status
    rcases lookup_dropAllocator found' with ⟨-, rfl⟩ | earlier
    · exact absurd rfl status
    · exact before.back u s' earlier status
  · intro u c dec member
    rcases mem_append.mp member with earlier | new
    · exact before.sound u c dec earlier
    · cases List.mem_singleton.mp new
      rw [before.lists] at listed
      exact ⟨expired, (((x.listed client).2 id).mp listed).2, s, before.back id s found mounted, mounted, rfl⟩
  · intro u s' found' status
    rcases before.kept u s' found' status with still | ⟨c, member⟩
    · rcases eq_or_ne u id with rfl | other
      · cases found.symm.trans still
        exact Or.inr ⟨client, List.mem_append_right _ (List.mem_singleton_self _)⟩
      · exact Or.inl ((lookup_insert_ne other).trans still)
    · exact Or.inr ⟨c, mem_append_left _ member⟩

theorem expireClients_expiring (clients : List UUID) (x : Owned m origin tokens) :
    Expiring m origin clients (expireClients clients (m, [])).1 (expireClients clients (m, [])).2 := by
  refine expireClients_listed (P := Expiring m origin clients) clients (fun _ _ before => before.named) ?_ m [] ?_
  · exact fun m' commits id s client expired before => expiring_prepare x before expired
  · exact ⟨x.named, rfl, fun _ _ found _ => found, fun _ _ _ member => (nomatch member), fun _ _ found _ => Or.inl found⟩

/-- An expiry prepares exactly the mounted segments of the expired clients. -/
theorem expireClients_exact (x : Owned m origin tokens) {dec : Nat} :
    (id, client, dec) ∈ (expireClients clients (m, [])).2 ↔
      client ∈ clients ∧ mountedBy origin id = some client ∧
        ∃ s, m.mountedSegments.lookup id = some s ∧ s.status ≠ .unmounting ∧ s.segment.size = dec := by
  have expiring := expireClients_expiring clients x
  constructor
  · exact expiring.sound id client dec
  · rintro ⟨expired, own, s, found, status, rfl⟩
    have listed : id ∈ m.clientSegments.listAt client := ((x.listed client).2 id).mpr ⟨by rw [found]; rfl, own⟩
    rcases expiring.kept id s found status with still | ⟨client', member⟩
    · exact absurd (expireClients_leaving clients m [] x.named expired listed s still) status
    · obtain ⟨-, own', -⟩ := expiring.sound id client' _ member
      cases own.symm.trans own'
      exact member

theorem leaving_iff_expired (x : Owned m origin tokens) (found : m.mountedSegments.lookup id = some s)
    (status : s.status ≠ .unmounting) :
    Leaving (expireClients clients (m, [])).1.mountedSegments id ↔
      ∃ client ∈ clients, mountedBy origin id = some client := by
  have expiring := expireClients_expiring clients x
  constructor
  · intro leaving
    rcases expiring.kept id s found status with still | ⟨client, member⟩
    · exact absurd (leaving s still) status
    · obtain ⟨expired, own, -⟩ := expiring.sound id client _ member
      exact ⟨client, expired, own⟩
  · rintro ⟨client, expired, own⟩
    exact expireClients_leaving clients m [] x.named expired (((x.listed client).2 id).mpr ⟨by rw [found]; rfl, own⟩)

end Owned

/-- A request that starts to unmount a segment names the client that mounted it. -/
def World.unmountsOwn (w : World A H) : Event → Bool
  | .unmountSegment _ segment client =>
    match w.segments.mountedSegments.lookup segment with
    | none => true
    | some s => decide (s.status = .unmounting ∨ w.mountedBy segment = some client)
  | _ => true

section Steps
variable [BufferAllocatorBase A H] {p : Params} {w w' : World A H} {e : Event} {r : Reply}

theorem owned_reMount {m : SegmentManager} {h : Heap A} {tokens : Multiset (UUID × UUID × Nat)}
    (x : Owned m h.origin tokens) (segments : List Segment) (client : UUID) :
    Owned (m.reMountSegment h client segments).1 (m.reMountSegment h client segments).2.1.origin tokens :=
  reMountSegment_keeps (P := fun m h => Owned m h.origin tokens) client
    (fun _ _ segment before => owned_mount before segment client) segments m h x

theorem owned_step (x : Owned w.segments w.heap.origin w.tokens) (own : w.unmountsOwn e = true)
    (act : Act p w e w' r) : Owned w'.segments w'.heap.origin w'.tokens := by
  cases act with
  | store e w' r act =>
    have same := store_segments act
    have origin : w'.heap.origin = w.heap.origin := congrArg Prod.fst same.index
    rw [same.segments, same.tokens, origin]
    exact x
  | refuse | ping | begin | drained => exact x
  | mounted segment client was => exact owned_mount x segment client
  | reMounted segments client was code heap after =>
    exact after ▸ owned_reMount x segments client
  | rejected segments client => exact owned_reMount x segments client
  | prepared id segment client s free unused found status =>
    have by_client : w.mountedBy segment = some client := by
      simp only [unmountsOwn, found, decide_eq_true_eq] at own
      exact own.resolve_left status
    have tokens : tokens ({ w with segments := w.segments.dropAllocator segment s }.setTask id
        (.unmount segment client s.segment.size 0)) = (segment, client, s.segment.size) ::ₘ w.tokens :=
      (newTask_tokens unused).trans (singleton_add _ _)
    rw [tokens]
    exact owned_drop x found status by_client _
  | committed id segment client dec next free listed =>
    rw [endTask_tokens listed, Task.tokens, singleton_add] at x
    exact owned_commit (h := w.heap) x
  | collected order now was ttl late =>
    rw [tokens_idle (by rw [was]; rfl)] at x
    rw [tokens_idle (late_phase late).1]
    exact x
  | expired order clients was =>
    rw [tokens_idle (by rw [was]; rfl)] at x
    simp only [tokens, expiryPhase_tokens, add_comm (Table.total _ _)]
    exact owned_expire x
  | finished order commits next all free was =>
    have split : w.tokens = (commits : Multiset (UUID × UUID × Nat)) + Table.total (fun _ task => task.tokens) w.tasks := by
      rw [tokens, was, add_comm]
      rfl
    rw [split] at x
    rw [commitAll_origin, tokens_idle rfl]
    exact owned_commitAll x

theorem owned_run {events : List Event} (run : Run.run (step p) (start p) events = some w)
    (own : Run.Guarded (step p) (fun w e => w.unmountsOwn e = true) (start p : World A H) events) :
    Owned w.segments w.heap.origin w.tokens := by
  refine Run.guarded_invariant (P := fun w : World A H => Owned w.segments w.heap.origin w.tokens) ?_
    (owned_start p.memoryAllocator) run own
  intro w e w' x own done
  obtain ⟨r, inside⟩ := step_exec done
  exact owned_step x own (exec_act inside)

/-- Every mounted segment is listed once, under the client that mounted it; so an expiry prepares,
and later commits, exactly the segments in use of the expired clients. -/
structure World.Partitioned (p : Params) (w : World A H) : Prop where
  distinct : ∀ client, (w.segments.clientSegments.listAt client).Nodup
  disjoint : ∀ client client' id, id ∈ w.segments.clientSegments.listAt client →
    id ∈ w.segments.clientSegments.listAt client' → client = client'
  keys : ∀ id, (∃ client, id ∈ w.segments.clientSegments.listAt client) ↔
    (w.segments.mountedSegments.lookup id).isSome = true
  mounter : ∀ client id, id ∈ w.segments.clientSegments.listAt client → w.mountedBy id = some client
  commits : ∀ order clients w' r, w.monitor = .expiring clients → w.exec p (.monitor order) = some (w', r) →
    ∀ id client dec, (id, client, dec) ∈ w'.monitor.tokens ↔ client ∈ clients ∧ w.mountedBy id = some client ∧
      ∃ s, w.segments.mountedSegments.lookup id = some s ∧ s.status = .ok ∧ s.segment.size = dec
  prepares : ∀ order clients w' r, w.monitor = .expiring clients → w.exec p (.monitor order) = some (w', r) →
    ∀ id s, w.segments.mountedSegments.lookup id = some s → s.status = .ok →
      (Leaving w'.segments.mountedSegments id ↔ ∃ client ∈ clients, w.mountedBy id = some client)

theorem expiring_step {order clients : List UUID} (was : w.monitor = .expiring clients)
    (done : w.exec p (.monitor order) = some (w', r)) :
    w'.segments = (expireClients clients (w.segments, [])).1 ∧
      w'.monitor.tokens = (expireClients clients (w.segments, [])).2 := by
  simp only [exec, monitorAdvance, was] at done
  split at done
  · cases done
    exact ⟨rfl, expiryPhase_tokens _⟩
  · cases done

/-- If every unmount names the client that mounted its segment, the lists of the clients
partition the mounted segments in every state. -/
theorem segments_partitioned_by_mounter {events : List Event}
    (run : Run.run (World.step p) (World.start p) events = some w)
    (own : Run.Guarded (World.step p) (fun w e => w.unmountsOwn e = true) (World.start p : World A H) events) :
    w.Partitioned p := by
  have x := owned_run run own
  have ok : ∀ id s, w.segments.mountedSegments.lookup id = some s → (s.status ≠ .unmounting ↔ s.status = .ok) := by
    intro id s found
    obtain ⟨-, ⟨ok, -⟩ | ⟨leaving, -⟩⟩ := (segmented_reachable ⟨events, run⟩).indexed.settled id s found
    · rw [ok]
      exact iff_of_true (fun no => nomatch no) rfl
    · rw [leaving]
      exact iff_of_false (fun no => no rfl) (fun no => nomatch no)
  refine ⟨fun client => (x.listed client).1, ?_, ?_, fun client id listed => (((x.listed client).2 id).mp listed).2, ?_, ?_⟩
  · intro client client' id listed listed'
    have own := (((x.listed client).2 id).mp listed).2
    exact some.inj (own.symm.trans (((x.listed client').2 id).mp listed').2)
  · intro id
    constructor
    · exact fun ⟨client, listed⟩ => (((x.listed client).2 id).mp listed).1
    · intro mounted
      obtain ⟨s, found⟩ := isSome_iff_exists.mp mounted
      obtain ⟨client, own⟩ := x.made id s found
      exact ⟨client, ((x.listed client).2 id).mpr ⟨mounted, own⟩⟩
  · intro order clients w' r was done id client dec
    rw [(expiring_step was done).2, mem_coe, expireClients_exact x]
    refine and_congr_right (fun _ => and_congr_right (fun _ => exists_congr (fun s => and_congr_right (fun found => ?_))))
    rw [ok id s found]
  · intro order clients w' r was done id s found status
    rw [(expiring_step was done).1]
    exact leaving_iff_expired x found ((ok id s found).mpr status)

end Steps

open Sample in
theorem segments_partitioned_while_unmounting : ∃ w : State,
    w.segments.clientSegments.listAt clientA = [segmentA.id] ∧ w.Partitioned params := by
  have outcome : (Run.run (step params) (start params : State) (mount segmentA clientA ++
      mount segmentB clientB ++ [.unmountSegment 0 segmentA.id clientA])).bind (fun w =>
        some (w.segments.clientSegments.listAt clientA)) = some [segmentA.id] := by decide +kernel
  obtain ⟨w, run, listed⟩ := bind_eq_some_iff.mp outcome
  exact ⟨w, some.inj listed, segments_partitioned_by_mounter run (by decide +kernel)⟩

open Sample in
/-- Another client unmounts the segment: it is gone, and its client still lists it. -/
theorem unmount_by_other_client_dangles : ∃ w : State, World.Reachable params w ∧
    w.segments.mountedSegments.lookup segmentA.id = none ∧
      segmentA.id ∈ w.segments.clientSegments.listAt clientA := by
  have outcome : (Run.run (step params) (start params : State)
      (mount segmentA clientA ++ [.unmountSegment 0 segmentA.id clientB])).bind (fun w => some (decide (
        unmounting w = some (segmentA.id, clientB, 1048576, 0) ∧ (∀ i, (w.busy i).isNone = true) ∧ w.segmentFree = true ∧
        w.segments.clientSegments.listAt clientA = [segmentA.id]))) = some true := by decide +kernel
  obtain ⟨w, reached, observed⟩ := reached_of_outcome outcome
  obtain ⟨task, idle, free, listed⟩ := of_decide_eq_true (some.inj observed)
  obtain ⟨mid, shards, heap, tasks, run, unmounts, -⟩ :=
    unmount_run (p := params) (unmounting_task task) (fun i => isNone_iff_eq_none.mp (idle i)) free
  obtain ⟨e, done⟩ := unmounts.step
  refine ⟨_, (reached.run run).step done, unmounts_absent unmounts, ?_⟩
  rw [commitUnmountSegment, listAt_eraseFrom_ne (by decide), listed]
  exact List.mem_singleton_self _

end Mooncake.Master
