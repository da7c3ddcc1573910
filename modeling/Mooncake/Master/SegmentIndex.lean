import Mooncake.Master.OffsetBuffer
import Mooncake.Master.Segment

/-! The indexes of `SegmentManager` over all interleavings of its operations. Only the
order of the calls is restricted: a commit carries the token of a prepare that
succeeded. Identifiers, names, sizes and clients are arbitrary. -/
namespace Mooncake.Master
open SegmentManager Table Option Multiset AList
variable {A H : Type} [BufferAllocatorBase A H] (t : Table UUID MountedSegment)

def Serves (id : UUID) (s : MountedSegment) (a : Nat) : Prop :=
  t.lookup id = some s ∧ s.status = .ok ∧ s.bufAllocator = some a

/-- An OK segment has the allocator made for it last, an UNMOUNTING one has none. -/
def Settled (origin : List (UUID × UUID)) (id : UUID) (s : MountedSegment) : Prop :=
  s.segment.id = id ∧
    ((s.status = .ok ∧ ∃ a client, s.bufAllocator = some a ∧ origin[a]? = some (id, client)) ∨
      (s.status = .unmounting ∧ s.bufAllocator = none))

structure Indexed (m : SegmentManager) (h : Heap A) : Prop where
  parallel : h.origin.length = h.objects.length
  settled : ∀ id s, m.mountedSegments.lookup id = some s → Settled h.origin id s
  allocators : Exactly m.allocators (fun a => ∃ id s, Serves m.mountedSegments id s a)
  names : ∀ n, Exactly (m.allocatorsByName.listAt n)
    (fun a => ∃ id s, Serves m.mountedSegments id s a ∧ s.segment.name = n)
  nonempty : m.allocatorsByName.NonemptyLists

variable (kind : BufferAllocatorType)

theorem indexed_start : Indexed ({ memoryAllocator := kind } : SegmentManager) ({} : Heap A) := by
  refine ⟨rfl, fun id s found => (nomatch found), ⟨List.nodup_nil, ?_⟩, fun n => ⟨List.nodup_nil, ?_⟩,
    fun n ids found => (nomatch found)⟩
  · exact fun a => ⟨fun member => (nomatch member), fun ⟨id, s, found, _⟩ => (nomatch found)⟩
  · exact fun a => ⟨fun member => (nomatch member), fun ⟨id, s, ⟨found, _⟩, _⟩ => (nomatch found)⟩

namespace Indexed
variable {m : SegmentManager} {h : Heap A} {id : UUID} {s : MountedSegment} {a : Nat}

theorem origin (x : Indexed m h) (serves : Serves m.mountedSegments id s a) :
    ∃ client, h.origin[a]? = some (id, client) := by
  obtain ⟨found, ok, buffer⟩ := serves
  obtain ⟨-, ⟨-, b, client, held, made⟩ | ⟨leaving, -⟩⟩ := x.settled id s found
  · rw [buffer] at held
    cases held
    exact ⟨client, made⟩
  · rw [ok] at leaving
    cases leaving

theorem old (x : Indexed m h) (serves : Serves m.mountedSegments id s a) : a < h.objects.length := by
  obtain ⟨client, made⟩ := x.origin serves
  rw [← x.parallel]
  exact (List.getElem?_eq_some_iff.mp made).1

theorem owner (x : Indexed m h) {id' : UUID} {s' : MountedSegment} (serves : Serves m.mountedSegments id s a)
    (also : Serves m.mountedSegments id' s' a) : id = id' := by
  obtain ⟨client, made⟩ := x.origin serves
  obtain ⟨client', made'⟩ := x.origin also
  rw [made] at made'
  exact congrArg Prod.fst (some.inj made')

end Indexed

section Mount
variable {t : Table UUID MountedSegment} {segment : Segment} {client id : UUID} {s : MountedSegment} {a new : Nat}

theorem serves_insert (free : t.lookup segment.id = none) :
    Serves (t.insert segment.id ⟨segment, .ok, some new⟩) id s a ↔
      (id = segment.id ∧ s = ⟨segment, .ok, some new⟩ ∧ a = new) ∨ Serves t id s a := by
  simp only [Serves, lookup_insert_eq_some, or_and_right, and_assoc]
  refine or_congr (and_congr_right fun _ => ⟨?_, ?_⟩) (and_iff_right_of_imp ?_)
  · rintro ⟨rfl, -, buffer⟩
    exact ⟨rfl, (some.inj buffer).symm⟩
  · rintro ⟨rfl, rfl⟩
    exact ⟨rfl, rfl, rfl⟩
  · rintro ⟨found, -⟩ rfl
    cases free.symm.trans found

theorem Settled.append {origin : List (UUID × UUID)} (settled : Settled origin id s) (made : UUID × UUID) :
    Settled (origin ++ [made]) id s := by
  obtain ⟨named, ⟨ok, a, client, buffer, was⟩ | leaving⟩ := settled
  · refine ⟨named, Or.inl ⟨ok, a, client, buffer, ?_⟩⟩
    rw [List.getElem?_append_left (List.getElem?_eq_some_iff.mp was).1]
    exact was
  · exact ⟨named, Or.inr leaving⟩

theorem addSegment_indexed {m : SegmentManager} {h : Heap A} (x : Indexed m h)
    (free : m.mountedSegments.lookup segment.id = none) (made : A) :
    Indexed (m.addSegment segment client h.objects.length) (h.addAllocator made segment client) := by
  have unused : ∀ id s, ¬Serves m.mountedSegments id s h.objects.length :=
    fun id s serves => Nat.lt_irrefl _ (x.old serves)
  constructor
  · simp only [Heap.addAllocator, List.length_append, List.length_singleton, x.parallel]
  · intro id s found
    rcases lookup_insert_eq_some.mp found with ⟨rfl, rfl⟩ | ⟨-, before⟩
    · refine ⟨rfl, Or.inl ⟨rfl, h.objects.length, client, rfl, ?_⟩⟩
      simp only [Heap.addAllocator, ← x.parallel, List.getElem?_concat_length]
    · exact (x.settled id s before).append _
  · refine (x.allocators.push (v := h.objects.length) ?_).congr ?_
    · exact fun ⟨id, s, serves⟩ => unused id s serves
    · intro a
      simp only [addSegment, serves_insert free, exists_or, exists_and_left, exists_eq_left]
  · intro n
    by_cases same : n = segment.name
    · subst same
      rw [addSegment, listAt_pushBack_self]
      refine ((x.names segment.name).push (v := h.objects.length) ?_).congr ?_
      · exact fun ⟨id, s, serves, _⟩ => unused id s serves
      · intro a
        simp only [serves_insert free, or_and_right, and_assoc, exists_or, exists_and_left, exists_eq_left, and_true]
    · rw [addSegment, listAt_pushBack_ne same]
      refine (x.names n).congr (fun a => ?_)
      simp only [serves_insert free, or_and_right, and_assoc, exists_or, exists_and_left, exists_eq_left,
        Ne.symm same, and_false,
        false_or]
  · exact x.nonempty.pushBack

end Mount

section Unmount
variable {t : Table UUID MountedSegment} {id id' : UUID} {s s' : MountedSegment} {a : Nat}

theorem serves_leaving (gone : s'.status = .unmounting) :
    Serves (t.insert id' s') id s a ↔ id ≠ id' ∧ Serves t id s a := by
  simp only [Serves, lookup_insert_eq_some, or_and_right, and_assoc]
  refine or_iff_right ?_
  rintro ⟨-, rfl, ok, -⟩
  cases gone.symm.trans ok

theorem serves_erase (leaving : t.lookup id' = some s') (gone : s'.status = .unmounting) :
    Serves (t.erase id') id s a ↔ Serves t id s a := by
  simp only [Serves, lookup_erase_eq_some, and_assoc]
  refine and_iff_right_of_imp ?_
  rintro ⟨found, ok, -⟩ rfl
  cases leaving.symm.trans found
  cases gone.symm.trans ok

theorem dropAllocator_indexed {m : SegmentManager} {h : Heap A} (x : Indexed m h)
    (found : m.mountedSegments.lookup id = some s) (mounted : s.status ≠ .unmounting) :
    Indexed (m.dropAllocator id s) h := by
  obtain ⟨named, ⟨ok, a, client, buffer, -⟩ | ⟨leaving, -⟩⟩ := x.settled id s found
  swap
  · exact absurd leaving mounted
  have own : Serves m.mountedSegments id s a := ⟨found, ok, buffer⟩
  -- the allocator taken out is that of this segment and of no other
  have others : ∀ {j s' b}, Serves m.mountedSegments j s' b → (b ≠ a ↔ j ≠ id) := by
    intro j s' b serves
    refine not_congr ⟨?_, ?_⟩
    · rintro rfl
      exact x.owner serves own
    · rintro rfl
      have same : s = s' := some.inj (found.symm.trans serves.1)
      subst same
      exact some.inj (serves.2.2.symm.trans buffer)
  constructor
  · exact x.parallel
  · intro j s' inserted
    rcases lookup_insert_eq_some.mp inserted with ⟨rfl, rfl⟩ | ⟨-, before⟩
    · exact ⟨named, Or.inr ⟨rfl, rfl⟩⟩
    · exact x.settled j s' before
  · simp only [dropAllocator, buffer, elim_some]
    refine (x.allocators.erase a).congr (fun b => ?_)
    simp only [← exists_and_left]
    refine exists₂_congr fun j s' => (and_congr_left fun serves => others serves).trans (serves_leaving rfl).symm
  · intro n
    simp only [dropAllocator, buffer]
    by_cases same : n = s.segment.name
    · subst same
      rw [listAt_eraseFrom_self]
      refine ((x.names s.segment.name).erase a).congr (fun b => ?_)
      simp only [← exists_and_left]
      refine exists₂_congr fun j s' => ?_
      rw [serves_leaving rfl, and_assoc]
      exact and_congr_left fun serves => others serves.1
    · rw [listAt_eraseFrom_ne same]
      refine (x.names n).congr (fun b => exists₂_congr fun j s' => ?_)
      rw [serves_leaving rfl, and_assoc]
      refine (and_iff_right_of_imp ?_).symm
      rintro ⟨serves, called⟩ rfl
      cases found.symm.trans serves.1
      exact same called.symm
  · exact x.nonempty.eraseFrom

theorem commitUnmountSegment_indexed {m : SegmentManager} {h : Heap A} (x : Indexed m h)
    (leaving : m.mountedSegments.lookup id = some s) (gone : s.status = .unmounting) (client : UUID) (dec : Nat) :
    Indexed (m.commitUnmountSegment h id client dec).1 (m.commitUnmountSegment h id client dec).2 := by
  refine ⟨x.parallel, ?_, x.allocators.congr (fun a => ?_), fun n => (x.names n).congr (fun a => ?_), x.nonempty⟩
  · exact fun j s' found => x.settled j s' (lookup_erase_eq_some.mp found).2
  · simp only [commitUnmountSegment, serves_erase leaving gone]
  · simp only [commitUnmountSegment, serves_erase leaving gone]

end Unmount

/-! Tokens: a prepare that succeeded leaves one, and only its commit takes it. -/

structure Awaited (t : Table UUID MountedSegment) (pending : Multiset (UUID × Nat)) : Prop where
  token : ∀ id dec, (id, dec) ∈ pending → ∃ s, t.lookup id = some s ∧ s.status = .unmounting ∧ s.segment.size = dec
  single : (pending.map Prod.fst).Nodup
  held : ∀ id s, t.lookup id = some s → s.status = .unmounting → id ∈ pending.map Prod.fst

namespace Awaited
variable {t : Table UUID MountedSegment} {pending : Multiset (UUID × Nat)} {id : UUID} {s s' : MountedSegment} {dec : Nat}

theorem mount (x : Awaited t pending) (free : t.lookup id = none) (ok : s.status = .ok) :
    Awaited (t.insert id s) pending := by
  refine ⟨?_, x.single, ?_⟩
  · intro j dec member
    obtain ⟨s', found, rest⟩ := x.token j dec member
    have different : j ≠ id := by
      rintro rfl
      cases free.symm.trans found
    exact ⟨s', (lookup_insert_ne different).trans found, rest⟩
  · intro j s' found leaving
    rcases lookup_insert_eq_some.mp found with ⟨rfl, rfl⟩ | ⟨-, before⟩
    · cases ok.symm.trans leaving
    · exact x.held j s' before leaving

theorem prepare (x : Awaited t pending) (found : t.lookup id = some s) (mounted : s.status ≠ .unmounting)
    (gone : s'.status = .unmounting) (size : s'.segment.size = dec) :
    Awaited (t.insert id s') ((id, dec) ::ₘ pending) := by
  have new : id ∉ pending.map Prod.fst := by
    intro member
    obtain ⟨⟨j, dec⟩, token, rfl⟩ := Multiset.mem_map.mp member
    obtain ⟨s', found', leaving, -⟩ := x.token j dec token
    rw [found] at found'
    cases found'
    exact mounted leaving
  refine ⟨?_, ?_, ?_⟩
  · intro j dec' member
    rcases mem_cons.mp member with same | older
    · cases same
      exact ⟨s', lookup_insert _, gone, size⟩
    · have different : j ≠ id := by
        rintro rfl
        exact new (Multiset.mem_map.mpr ⟨_, older, rfl⟩)
      obtain ⟨s', found', rest⟩ := x.token j dec' older
      exact ⟨s', (lookup_insert_ne different).trans found', rest⟩
  · rw [map_cons]
    exact nodup_cons.mpr ⟨new, x.single⟩
  · intro j s' found' leaving
    rw [map_cons, mem_cons]
    exact (lookup_insert_eq_some.mp found').imp And.left fun before => x.held j s' before.2 leaving

theorem commit (x : Awaited t ((id, dec) ::ₘ pending)) : Awaited (t.erase id) pending := by
  have single := x.single
  rw [map_cons, nodup_cons] at single
  refine ⟨?_, single.2, ?_⟩
  · intro j dec' member
    have different : j ≠ id := by
      rintro rfl
      exact single.1 (Multiset.mem_map.mpr ⟨_, member, rfl⟩)
    obtain ⟨s, found, rest⟩ := x.token j dec' (mem_cons_of_mem member)
    exact ⟨s, (lookup_erase_ne different).trans found, rest⟩
  · intro j s found leaving
    obtain ⟨other, before⟩ := lookup_erase_eq_some.mp found
    have held := x.held j s before leaving
    rw [map_cons, mem_cons] at held
    exact held.resolve_left other

end Awaited

/-! The capacity gauge. -/

def mountedSize : Nat := total (fun _ s => s.segment.size) t

def Gauged (metrics : Metrics) : Prop :=
  metrics.totalMemCapacity = BitVec.ofNat 64 (mountedSize t)

theorem Gauged.exact {t : Table UUID MountedSegment} {metrics : Metrics} (x : Gauged t metrics)
    (small : mountedSize t < 2 ^ 63) : metrics.totalMemCapacity.toInt = mountedSize t := by
  have value : metrics.totalMemCapacity.toNat = mountedSize t := by
    rw [x, BitVec.toNat_ofNat]
    exact Nat.mod_eq_of_lt (by omega)
  rw [BitVec.toInt_eq_toNat_of_lt (by omega), value]

section Gauge
variable {t : Table UUID MountedSegment} {h : Heap A} {id : UUID} {s s' : MountedSegment}

theorem gauged_mount {segment : Segment} {client : UUID} (x : Gauged t h.metrics) (free : t.lookup id = none)
    (size : s.segment.size = segment.size) (a : A) :
    Gauged (t.insert id s) (h.addAllocator a segment client).metrics := by
  unfold Gauged mountedSize at *
  rw [total_insert_new _ free, size, Nat.add_comm, BitVec.ofNat_add, ← x]
  rfl

theorem gauged_prepare (x : Gauged t h.metrics) (found : t.lookup id = some s)
    (size : s'.segment.size = s.segment.size) : Gauged (t.insert id s') h.metrics := by
  unfold Gauged mountedSize at *
  rw [total_insert, size, x, total_erase _ found]

theorem gauged_commit {m : SegmentManager} {client : UUID} (x : Gauged m.mountedSegments h.metrics)
    (found : m.mountedSegments.lookup id = some s) :
    Gauged (m.commitUnmountSegment h id client s.segment.size).1.mountedSegments
      (m.commitUnmountSegment h id client s.segment.size).2.metrics := by
  unfold Gauged mountedSize at *
  rw [total_erase _ found, BitVec.ofNat_add] at x
  simp only [commitUnmountSegment, x, BitVec.add_comm (BitVec.ofNat 64 s.segment.size), BitVec.add_sub_cancel]

end Gauge

/-! The machine: every operation of `ScopedSegmentAccess` that writes. -/

structure IndexState (A : Type) where
  manager : SegmentManager
  heap : Heap A
  pending : List (UUID × Nat)

inductive IndexEvent where
  | mountSegment (segment : Segment) (client : UUID)
  | reMountSegment (segments : List Segment) (client : UUID)
  | prepareUnmountSegment (id : UUID)
  | commitUnmountSegment (id client : UUID) (decCapacity : Nat)

namespace IndexState

def start : IndexState A := ⟨{ memoryAllocator := kind }, {}, []⟩

def step (s : IndexState A) : IndexEvent → Option (IndexState A)
  | .mountSegment segment client =>
    let result := s.manager.mountSegment s.heap segment client
    some ⟨result.1, result.2.1, s.pending⟩
  | .reMountSegment segments client =>
    let result := s.manager.reMountSegment s.heap client segments
    some ⟨result.1, result.2.1, s.pending⟩
  | .prepareUnmountSegment id =>
    match s.manager.prepareUnmountSegment id with
    | (manager, decCapacity, .ok) => some ⟨manager, s.heap, (id, decCapacity) :: s.pending⟩
    | (manager, _, _) => some ⟨manager, s.heap, s.pending⟩
  | .commitUnmountSegment id client decCapacity =>
    if (id, decCapacity) ∈ s.pending then
      let result := s.manager.commitUnmountSegment s.heap id client decCapacity
      some ⟨result.1, result.2, s.pending.erase (id, decCapacity)⟩
    else none

structure Sound (s : IndexState A) : Prop where
  indexed : Indexed s.manager s.heap
  awaited : Awaited s.manager.mountedSegments s.pending
  gauged : Gauged s.manager.mountedSegments s.heap.metrics

theorem start_sound : (start kind : IndexState A).Sound := by
  refine ⟨indexed_start kind, ⟨?_, nodup_zero, ?_⟩, rfl⟩
  · exact fun id dec member => absurd member (notMem_zero _)
  · exact fun id s found => (nomatch found)

variable {s : IndexState A}

theorem mount_sound (x : s.Sound) (segment : Segment) (client : UUID) :
    Sound ⟨(s.manager.mountSegment s.heap segment client).1,
      (s.manager.mountSegment s.heap segment client).2.1, s.pending⟩ := by
  obtain ⟨code, -, outcome⟩ | ⟨a, free, outcome⟩ := s.manager.mountSegment_cases s.heap segment client
  · rw [outcome]
    exact x
  · rw [outcome]
    exact ⟨addSegment_indexed x.indexed free a, x.awaited.mount free rfl, gauged_mount x.gauged free rfl a⟩

theorem reMount_sound (x : s.Sound) (segments : List Segment) (client : UUID) :
    Sound ⟨(s.manager.reMountSegment s.heap client segments).1,
      (s.manager.reMountSegment s.heap client segments).2.1, s.pending⟩ :=
  reMountSegment_keeps (P := fun m h => Sound ⟨m, h, s.pending⟩) client
    (fun _ _ segment y => mount_sound y segment client) segments s.manager s.heap x

theorem commit_sound (x : s.Sound) {id : UUID} {dec : Nat} (token : (id, dec) ∈ s.pending) (client : UUID) :
    Sound ⟨(s.manager.commitUnmountSegment s.heap id client dec).1,
      (s.manager.commitUnmountSegment s.heap id client dec).2, s.pending.erase (id, dec)⟩ := by
  obtain ⟨mounted, found, leaving, rfl⟩ := x.awaited.token id dec token
  have whole : (s.pending : Multiset (UUID × Nat)) =
      (id, mounted.segment.size) ::ₘ (s.pending.erase (id, mounted.segment.size) : List (UUID × Nat)) :=
    coe_eq_coe.mpr (List.perm_cons_erase token)
  have awaited := x.awaited
  rw [whole] at awaited
  exact ⟨commitUnmountSegment_indexed x.indexed found leaving client _, awaited.commit,
    gauged_commit x.gauged found⟩

theorem step_sound {s s' : IndexState A} {e : IndexEvent} (x : s.Sound) (next : s.step e = some s') : s'.Sound := by
  cases e with
  | mountSegment segment client =>
    cases next
    exact mount_sound x segment client
  | reMountSegment segments client =>
    cases next
    exact reMount_sound x segments client
  | prepareUnmountSegment id =>
    obtain ⟨-, outcome⟩ | ⟨mounted, -, -, outcome⟩ | ⟨mounted, found, status, outcome⟩ :=
      s.manager.prepareUnmountSegment_cases id
    · rw [step, outcome] at next
      cases next
      exact x
    · rw [step, outcome] at next
      cases next
      exact x
    · rw [step, outcome] at next
      cases next
      exact ⟨dropAllocator_indexed x.indexed found status, x.awaited.prepare found status rfl rfl,
        gauged_prepare x.gauged found rfl⟩
  | commitUnmountSegment id client dec =>
    simp only [step] at next
    split at next
    · rename_i token
      cases next
      exact commit_sound x token client
    · cases next

theorem unmounting_stays {s s' : IndexState A} {e : IndexEvent} {id : UUID} {mounted : MountedSegment}
    (found : s.manager.mountedSegments.lookup id = some mounted) (leaving : mounted.status = .unmounting)
    (next : s.step e = some s') (other : ∀ client dec, e ≠ .commitUnmountSegment id client dec) :
    s'.manager.mountedSegments.lookup id = some mounted := by
  have mount_keeps : ∀ (m : SegmentManager) (h : Heap A) (client : UUID) (segment : Segment),
      m.mountedSegments.lookup id = some mounted →
        (m.mountSegment h segment client).1.mountedSegments.lookup id = some mounted := by
    intro m h client segment found
    obtain ⟨code, -, outcome⟩ | ⟨a, free, outcome⟩ := m.mountSegment_cases h segment client
    · rw [outcome]
      exact found
    · rw [outcome]
      have different : id ≠ segment.id := by
        rintro rfl
        rw [free] at found
        cases found
      exact (lookup_insert_ne different).trans found
  cases e with
  | mountSegment segment client =>
    cases next
    exact mount_keeps s.manager s.heap client segment found
  | reMountSegment segments client =>
    cases next
    exact reMountSegment_keeps (P := fun m _ => m.mountedSegments.lookup id = some mounted) client
      (fun m h segment => mount_keeps m h client segment) segments s.manager s.heap found
  | prepareUnmountSegment j =>
    obtain ⟨-, outcome⟩ | ⟨s'', -, -, outcome⟩ | ⟨s'', found', status, outcome⟩ :=
      s.manager.prepareUnmountSegment_cases j
    · rw [step, outcome] at next
      cases next
      exact found
    · rw [step, outcome] at next
      cases next
      exact found
    · rw [step, outcome] at next
      cases next
      have different : id ≠ j := by
        rintro rfl
        rw [found] at found'
        cases found'
        exact status leaving
      exact (lookup_insert_ne different).trans found
  | commitUnmountSegment j client dec =>
    simp only [step] at next
    split at next
    · cases next
      have different : id ≠ j := by
        rintro rfl
        exact other client dec rfl
      exact (lookup_erase_ne different).trans found
    · cases next

def Unreferenced (s : IndexState A) (id : UUID) : Prop :=
  ∀ a client, s.heap.origin[a]? = some (id, client) →
    a ∉ s.manager.allocators ∧ (∀ n, a ∉ s.manager.allocatorsByName.listAt n) ∧
      ∀ j mounted, s.manager.mountedSegments.lookup j = some mounted → mounted.bufAllocator ≠ some a

structure Consistent (s : IndexState A) : Prop where
  allocators : Exactly s.manager.allocators (fun a => ∃ id mounted, Serves s.manager.mountedSegments id mounted a)
  byName : ∀ n, Exactly (s.manager.allocatorsByName.listAt n)
    (fun a => ∃ id mounted, Serves s.manager.mountedSegments id mounted a ∧ mounted.segment.name = n)
  nonempty : s.manager.allocatorsByName.NonemptyLists
  query : ∀ n, s.manager.querySegments s.heap n = .error .segmentNotFound ∨
    ∃ used capacity, s.manager.querySegments s.heap n = .ok (some (used, capacity))
  ok : ∀ id mounted, s.manager.mountedSegments.lookup id = some mounted → mounted.status = .ok →
    ∃ a, Serves s.manager.mountedSegments id mounted a ∧
      ∀ j other, Serves s.manager.mountedSegments j other a → j = id
  unmounting : ∀ id mounted, s.manager.mountedSegments.lookup id = some mounted → mounted.status ≠ .ok →
    mounted.status = .unmounting ∧ mounted.bufAllocator = none ∧ s.Unreferenced id
  refused : ∀ id mounted, s.manager.mountedSegments.lookup id = some mounted → mounted.status = .unmounting →
    (∀ segment client, segment.id = id → ∃ code, code ≠ .ok ∧
      s.manager.mountSegment s.heap segment client = (s.manager, s.heap, code)) ∧
    s.manager.prepareUnmountSegment id = (s.manager, 0, .unavailableInCurrentStatus) ∧
    ∀ e s', s.step e = some s' → (∀ client dec, e ≠ .commitUnmountSegment id client dec) →
      s'.manager.mountedSegments.lookup id = some mounted
  capacity : s.heap.metrics.totalMemCapacity = BitVec.ofNat 64 (mountedSize s.manager.mountedSegments)
  capacity_exact : mountedSize s.manager.mountedSegments < 2 ^ 63 →
    s.heap.metrics.totalMemCapacity.toInt = mountedSize s.manager.mountedSegments

theorem Sound.unreferenced (x : s.Sound) {id : UUID} {mounted : MountedSegment}
    (found : s.manager.mountedSegments.lookup id = some mounted) (leaving : mounted.status = .unmounting) :
    s.Unreferenced id := by
  intro a client made
  have idle : ∀ j other, ¬Serves s.manager.mountedSegments j other a := by
    intro j other serves
    obtain ⟨client', made'⟩ := x.indexed.origin serves
    have same : id = j := congrArg Prod.fst (some.inj (made.symm.trans made'))
    subst same
    have same : mounted = other := some.inj (found.symm.trans serves.1)
    subst same
    cases leaving.symm.trans serves.2.1
  refine ⟨?_, ?_, ?_⟩
  · intro member
    obtain ⟨j, other, serves⟩ := (x.indexed.allocators.2 a).mp member
    exact idle j other serves
  · intro n member
    obtain ⟨j, other, serves, -⟩ := ((x.indexed.names n).2 a).mp member
    exact idle j other serves
  · intro j other found' buffer
    obtain ⟨-, ⟨ok, -⟩ | ⟨-, none⟩⟩ := x.indexed.settled j other found'
    · exact idle j other ⟨found', ok, buffer⟩
    · rw [none] at buffer
      cases buffer

theorem Sound.consistent (x : s.Sound) : s.Consistent where
  allocators := x.indexed.allocators
  byName := x.indexed.names
  nonempty := x.indexed.nonempty
  query n := by
    cases found : s.manager.allocatorsByName.lookup n with
    | none => exact Or.inl (by simp only [querySegments, found])
    | some ids =>
      obtain ⟨a, rest, rfl⟩ := List.exists_cons_of_ne_nil (x.indexed.nonempty n ids found)
      have listed : a ∈ s.manager.allocatorsByName.listAt n := by
        rw [listAt_of_lookup found]
        exact List.mem_cons_self
      obtain ⟨id, mounted, serves, -⟩ := ((x.indexed.names n).2 a).mp listed
      obtain ⟨object, stored⟩ : ∃ object, s.heap.objects[a]? = some object :=
        ⟨_, List.getElem?_eq_getElem (x.indexed.old serves)⟩
      refine Or.inr ⟨BufferAllocatorBase.size object, BufferAllocatorBase.capacity object, ?_⟩
      simp only [querySegments, found, List.head?_cons, bind_some, stored, map_some]
  ok id mounted found ok := by
    obtain ⟨-, ⟨-, a, client, buffer, -⟩ | ⟨leaving, -⟩⟩ := x.indexed.settled id mounted found
    · have serves : Serves s.manager.mountedSegments id mounted a := ⟨found, ok, buffer⟩
      exact ⟨a, serves, fun j other also => x.indexed.owner also serves⟩
    · rw [ok] at leaving
      cases leaving
  unmounting id mounted found other := by
    obtain ⟨-, ⟨ok, -⟩ | ⟨leaving, none⟩⟩ := x.indexed.settled id mounted found
    · exact absurd ok other
    · exact ⟨leaving, none, x.unreferenced found leaving⟩
  refused id mounted found leaving := by
    refine ⟨?_, ?_, fun e s' next => unmounting_stays found leaving next⟩
    · rintro segment client rfl
      rcases mountSegment_unmounting found leaving s.heap client with outcome | outcome
      · exact ⟨_, by decide, outcome⟩
      · exact ⟨_, by decide, outcome⟩
    · simp only [prepareUnmountSegment, found, leaving, if_true]
  capacity := x.gauged
  capacity_exact := x.gauged.exact

/-- The indexes agree in every state reachable by any interleaving of mounts, remounts and
unmounts in two phases. -/
theorem segment_index_consistent (kind : BufferAllocatorType) (events : List IndexEvent) (s : IndexState A)
    (reached : Run.run step (start kind) events = some s) : s.Consistent := by
  have sound : s.Sound := Run.invariant (fun _ _ _ x next => step_sound x next) (start_sound kind) reached
  exact sound.consistent

/-- Two segments of one name; the first is unmounting while a client mounts it again. -/
theorem segment_index_consistent_shared_name :
    ∃ s : IndexState OffsetBufferAllocator,
      Run.run step (start .offset)
        [.mountSegment ⟨(0, 1), "node", 4096, 8192, "node:1"⟩ (7, 7),
          .mountSegment ⟨(0, 2), "node", 65536, 4096, "node:2"⟩ (7, 7),
          .prepareUnmountSegment (0, 1),
          .reMountSegment [⟨(0, 1), "node", 4096, 8192, "node:1"⟩] (7, 7)] = some s ∧
      s.manager.allocators = [1] ∧ s.Consistent := by
  have outcome : (Run.run step (start .offset : IndexState OffsetBufferAllocator)
      [.mountSegment ⟨(0, 1), "node", 4096, 8192, "node:1"⟩ (7, 7),
        .mountSegment ⟨(0, 2), "node", 65536, 4096, "node:2"⟩ (7, 7),
        .prepareUnmountSegment (0, 1),
        .reMountSegment [⟨(0, 1), "node", 4096, 8192, "node:1"⟩] (7, 7)]).map
      (fun s => s.manager.allocators) = some [1] := by decide +kernel
  obtain ⟨s, reached, one⟩ := map_eq_some_iff.mp outcome
  exact ⟨s, reached, one, segment_index_consistent .offset _ s reached⟩

end IndexState
end Mooncake.Master
