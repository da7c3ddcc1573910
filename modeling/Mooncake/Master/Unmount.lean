import Mooncake.Master.Registration
import Mooncake.Master.SegmentSystem
import Mooncake.Master.Tasks

/-! What an unmount leaves behind. A buffer gets into a shard only through an allocator that
is valid at that moment, and while a put is between its allocation and its insertion it holds
the mutex of the shard, so the sweep comes before the allocation or after the insertion. -/
namespace Mooncake.Master
open SegmentManager Program Function Multiset AList List World Option
variable {A H : Type} [BufferAllocatorBase A H]

/-! Allocators: none is handed out twice, and only a prepare takes one away. -/

section Serving
variable {m : SegmentManager} {h : Heap A} {a : Nat} {id : UUID}

theorem valid_iff_serves (x : Indexed m h) :
    m.isAllocatorValid a = true ↔ ∃ id s, Serves m.mountedSegments id s a := by
  simp only [isAllocatorValid, Bool.or_eq_true, List.any_eq_true, beq_iff_eq]
  constructor
  · rintro ((listed | ⟨⟨n, ids⟩, named, listed⟩) | ⟨⟨id, s⟩, mounted, buffer⟩)
    · exact (x.allocators.2 a).mp (contains_iff_mem.mp listed)
    · have member : a ∈ m.allocatorsByName.listAt n := by
        rw [Table.listAt_of_lookup (mem_lookup_iff.mpr named)]
        exact contains_iff_mem.mp listed
      obtain ⟨id, s, serves, -⟩ := ((x.names n).2 a).mp member
      exact ⟨id, s, serves⟩
    · have found : m.mountedSegments.lookup id = some s := mem_lookup_iff.mpr mounted
      obtain ⟨-, ⟨ok, -⟩ | ⟨-, none⟩⟩ := x.settled id s found
      · exact ⟨id, s, found, ok, buffer⟩
      · cases none.symm.trans buffer
  · intro serving
    exact Or.inl (Or.inl (contains_iff_mem.mpr ((x.allocators.2 a).mpr serving)))

def Idle (t : Table UUID MountedSegment) (a : Nat) : Prop := ∀ id s, ¬Serves t id s a

theorem mountSegment_idle (segment : Segment) (client : UUID)
    (idle : Idle m.mountedSegments a ∧ a < h.objects.length) :
    Idle (m.mountSegment h segment client).1.mountedSegments a ∧
      a < (m.mountSegment h segment client).2.1.objects.length := by
  obtain ⟨code, -, outcome⟩ | ⟨made, free, outcome⟩ := m.mountSegment_cases h segment client
  · rw [outcome]
    exact idle
  · rw [outcome]
    refine ⟨fun id s serves => ?_, ?_⟩
    · rcases (serves_insert free).mp serves with ⟨-, -, new⟩ | serves
      · exact Nat.ne_of_lt idle.2 new
      · exact idle.1 id s serves
    · rw [Heap.addAllocator, length_append]
      exact Nat.lt_add_right _ idle.2

theorem commitAll_lookup (m : SegmentManager) (h : Heap A) (commits : List (UUID × UUID × Nat)) {s : MountedSegment}
    (found : (commitAll (m, h) commits).1.mountedSegments.lookup id = some s) :
    m.mountedSegments.lookup id = some s := by
  induction commits generalizing m h with
  | nil => exact found
  | cons commit commits ih =>
    exact (Table.lookup_erase_eq_some.mp (ih _ _ found)).2

theorem commitAll_lookup_ne {commits : List (UUID × UUID × Nat)} (other : ∀ client dec, (id, client, dec) ∉ commits) :
    (commitAll (m, h) commits).1.mountedSegments.lookup id = m.mountedSegments.lookup id := by
  induction commits generalizing m h with
  | nil => rfl
  | cons commit commits ih =>
    have different : id ≠ commit.1 := by
      rintro rfl
      exact other commit.2.1 commit.2.2 mem_cons_self
    refine (ih (fun client dec listed => other client dec (mem_cons_of_mem _ listed))).trans ?_
    exact lookup_erase_ne different

theorem commitAll_origin (state : SegmentManager × Heap A) (commits : List (UUID × UUID × Nat)) :
    (commitAll state commits).2.origin = state.2.origin := by
  induction commits generalizing state with
  | nil => rfl
  | cons commit commits ih => exact ih _

end Serving

inductive World.Sweeps (w : World A H) (segment : UUID) (n : Nat) : Prop
  | unmount (id : Nat) (client : UUID) (dec : Nat) (task : w.tasks.lookup id = some (.unmount segment client dec n))
  | expiry (commits : List (UUID × UUID × Nat)) (client : UUID) (dec : Nat) (phase : w.monitor = .sweeping commits n)
      (listed : (segment, client, dec) ∈ commits)

section Allocators
variable {p : Params} {w w' : World A H} {a n : Nat} {id client : UUID} {s : MountedSegment} {dec : Nat}

omit [BufferAllocatorBase A H] in
theorem Segmented.unmounting (x : Segmented w) (member : (id, client, dec) ∈ w.tokens) :
    ∃ s, w.segments.mountedSegments.lookup id = some s ∧ s.status = .unmounting := by
  obtain ⟨s, found, leaving, -⟩ := x.awaited.token id dec (mem_map.mpr ⟨_, member, rfl⟩)
  exact ⟨s, found, leaving⟩

omit [BufferAllocatorBase A H] in
theorem World.Sweeps.token (sweeps : w.Sweeps id n) : ∃ client dec, (id, client, dec) ∈ w.tokens := by
  cases sweeps with
  | unmount task client dec listed =>
    refine ⟨client, dec, ?_⟩
    rw [endTask_tokens listed]
    exact mem_add.mpr (Or.inl (Multiset.mem_singleton_self _))
  | expiry commits client dec phase listed =>
    refine ⟨client, dec, ?_⟩
    rw [tokens, phase]
    exact mem_add.mpr (Or.inr (mem_coe.mpr listed))

omit [BufferAllocatorBase A H] in
theorem Segmented.not_serves (x : Segmented w) (sweeps : w.Sweeps id n) :
    ¬Serves w.segments.mountedSegments id s a := by
  rintro ⟨found, ok, -⟩
  obtain ⟨client, dec, member⟩ := sweeps.token
  obtain ⟨s', found', leaving⟩ := x.unmounting member
  cases found.symm.trans found'
  cases ok.symm.trans leaving

/-- An allocator that is out of use stays so: a mount makes a new one. -/
theorem idle_step (turn : SegmentTurn w w') (idle : Idle w.segments.mountedSegments a)
    (old : a < w.heap.objects.length) : Idle w'.segments.mountedSegments a := by
  cases turn with
  | same same => exact same.segments ▸ idle
  | begin task free segments => exact segments ▸ idle
  | mounted segment client was segments =>
    rw [segments]
    exact (mountSegment_idle segment client ⟨idle, old⟩).1
  | reMounted list client was segments =>
    rw [segments]
    exact (reMountSegment_keeps (P := fun m h => Idle m.mountedSegments a ∧ a < h.objects.length) client
      (fun m h segment before => mountSegment_idle segment client before) list w.segments w.heap ⟨idle, old⟩).1
  | prepared task segment client mounted free unused found status after =>
    rw [after]
    exact fun id s serves => idle id s ((serves_leaving rfl).mp serves).2
  | committed task segment client dec next free listed all after =>
    rw [after]
    intro id s ⟨found, rest⟩
    exact idle id s ⟨commitAll_lookup w.segments w.heap [(segment, client, dec)] found, rest⟩
  | expired clients was free segments =>
    rw [segments]
    refine expireClients_keeps (P := fun m _ => Idle m.mountedSegments a) ?_ clients w.segments [] idle
    exact fun m commits j mounted client idle found status id s serves => idle id s ((serves_leaving rfl).mp serves).2
  | finished commits next was all free segments =>
    rw [segments]
    intro id s ⟨found, rest⟩
    exact idle id s ⟨commitAll_lookup w.segments w.heap commits found, rest⟩

theorem mountSegment_serves {m : SegmentManager} {h : Heap A} (segment : Segment) (client : UUID)
    (serves : Serves m.mountedSegments id s a) :
    Serves (m.mountSegment h segment client).1.mountedSegments id s a := by
  obtain ⟨code, -, outcome⟩ | ⟨made, free, outcome⟩ := m.mountSegment_cases h segment client
  · rw [outcome]
    exact serves
  · rw [outcome]
    exact (serves_insert free).mpr (Or.inr serves)

/-- An allocator goes out of use with the prepare of its segment, which starts a sweep. -/
theorem lost_sweeps (x : Segmented w) (turn : SegmentTurn w w') (serves : Serves w.segments.mountedSegments id s a)
    (lost : ¬Serves w'.segments.mountedSegments id s a) : w'.Sweeps id 0 := by
  cases turn with
  | same same => exact absurd (same.segments ▸ serves) lost
  | begin task free segments => exact absurd (segments ▸ serves) lost
  | mounted segment client was segments =>
    rw [segments] at lost
    exact absurd (mountSegment_serves segment client serves) lost
  | reMounted list client was segments =>
    rw [segments] at lost
    exact absurd (reMountSegment_keeps (P := fun m _ => Serves m.mountedSegments id s a) client
      (fun m h segment => mountSegment_serves segment client) list w.segments w.heap serves) lost
  | prepared task segment client mounted free unused found status after =>
    rw [after] at lost ⊢
    have same : id = segment := by
      by_contra different
      exact lost ((serves_leaving rfl).mpr ⟨different, serves⟩)
    subst same
    exact .unmount task client _ (lookup_insert _)
  | committed task segment client dec next free listed all after =>
    have different : id ≠ segment := by
      rintro rfl
      exact x.not_serves (.unmount task client dec listed) serves
    rw [after] at lost
    exact absurd ⟨(lookup_erase_ne different).trans serves.1, serves.2⟩ lost
  | expired clients was free segments index mounting tasks monitor =>
    have taken : Serves (expireClients clients (w.segments, [])).1.mountedSegments id s a ∨
        ∃ client dec, (id, client, dec) ∈ (expireClients clients (w.segments, [])).2 := by
      refine expireClients_keeps (P := fun m commits => Serves m.mountedSegments id s a ∨
        ∃ client dec, (id, client, dec) ∈ commits) ?_ clients w.segments [] (Or.inl serves)
      rintro m commits j mounted client (serves | ⟨client', dec, listed⟩) found status
      · rcases eq_or_ne id j with rfl | different
        · exact Or.inr ⟨client, _, List.mem_append_right _ (List.mem_singleton_self _)⟩
        · exact Or.inl ((serves_leaving rfl).mpr ⟨different, serves⟩)
      · exact Or.inr ⟨client', dec, mem_append_left _ listed⟩
    rw [← segments] at taken
    obtain ⟨client, dec, listed⟩ := taken.resolve_left lost
    rw [if_neg (by simpa using ne_nil_of_mem listed)] at monitor
    exact .expiry _ client dec monitor listed
  | finished commits next was all free segments =>
    have other : ∀ client dec, (id, client, dec) ∉ commits :=
      fun client dec listed => x.not_serves (.expiry commits client dec was listed) serves
    rw [segments] at lost
    exact absurd ⟨(commitAll_lookup_ne other).trans serves.1, serves.2⟩ lost

theorem origin_grows (turn : SegmentTurn w w') : ∃ more, w'.heap.origin = w.heap.origin ++ more := by
  have kept : w'.heap.index = w.heap.index → ∃ more, w'.heap.origin = w.heap.origin ++ more := by
    intro index
    exact ⟨[], (congrArg Prod.fst index).trans (append_nil _).symm⟩
  have mount : ∀ (client : UUID) (m : SegmentManager) (h : Heap A) (segment : Segment),
      (∃ more, h.origin = w.heap.origin ++ more) →
        ∃ more, (m.mountSegment h segment client).2.1.origin = w.heap.origin ++ more := by
    rintro client m h segment ⟨more, before⟩
    obtain ⟨code, -, outcome⟩ | ⟨made, free, outcome⟩ := m.mountSegment_cases h segment client
    · exact ⟨more, by rw [outcome, before]⟩
    · refine ⟨more ++ [(segment.id, client)], ?_⟩
      rw [outcome, Heap.addAllocator, before, append_assoc]
  cases turn with
  | same same => exact kept same.index
  | begin task free segments index => exact kept index
  | mounted segment client was segments index =>
    obtain ⟨more, grown⟩ := mount client w.segments w.heap segment ⟨[], (append_nil _).symm⟩
    exact ⟨more, (congrArg Prod.fst index).trans grown⟩
  | reMounted list client was segments index =>
    obtain ⟨more, grown⟩ := reMountSegment_keeps (P := fun _ h => ∃ more, h.origin = w.heap.origin ++ more) client
      (mount client) list w.segments w.heap ⟨[], (append_nil _).symm⟩
    exact ⟨more, (congrArg Prod.fst index).trans grown⟩
  | prepared task segment client mounted free unused found status after => exact kept (by rw [after]; rfl)
  | committed task segment client dec next free listed all after =>
    exact ⟨[], by rw [after, append_nil]; rfl⟩
  | expired clients was free segments index => exact kept index
  | finished commits next was all free segments heap =>
    exact ⟨[], by rw [heap, commitAll_origin, append_nil]⟩

end Allocators

/-! Buffers: a turn brings none into a shard except from a valid allocator. -/

section Buffers
variable {p : Params} {w w' : World A H} {e : Event}

theorem perform_track {valid : Nat → Bool} {h h' : Heap A} {choice : List Nat} {op : AllocOp H} {answer : op.Answer}
    {held : List (AllocatedBuffer H)} {scope : Nat → Prop} (done : h.perform valid choice op = some (h', answer))
    (owed : (ownership scope).requires (held : Multiset (AllocatedBuffer H)) op) :
    ∀ b ∈ op.track held answer, b ∈ held ∨ scope b.allocator := by
  intro b member
  cases op with
  | getSegmentName a => exact Or.inl member
  | getLargestFreeRegion a => exact Or.inl member
  | allocate a size =>
    have result : (h.allocate a size).2 = answer := congrArg Prod.snd (some.inj done)
    obtain ⟨failed, -⟩ | ⟨made, granted, -, allocator, -⟩ := allocate_cases (H := H) h a size
    · rw [failed] at result
      subst result
      exact Or.inl member
    · rw [granted] at result
      subst result
      rcases mem_cons.mp member with rfl | old
      · exact Or.inr (allocator ▸ owed)
      · exact Or.inl old
  | shuffle indices => exact Or.inl member
  | destroy gone => exact Or.inl (mem_of_mem_eraseP member)

variable {Q : AllocatedBuffer H → Prop}

omit [BufferAllocatorBase A H] in
theorem cells_change (i : Fin kNumShards) (others : ∀ j, j ≠ i → w'.shards j = w.shards j ∧ w'.busy j = w.busy j)
    (here : ∀ b ∈ cell (w'.shards i) (w'.busy i), b ∈ cell (w.shards i) (w.busy i) ∨ Q b) (j : Fin kNumShards) :
    ∀ b ∈ cell (w'.shards j) (w'.busy j), b ∈ cell (w.shards j) (w.busy j) ∨ Q b := by
  rcases eq_or_ne j i with rfl | different
  · exact here
  · obtain ⟨shard, busy⟩ := others j different
    rw [shard, busy]
    exact fun b member => Or.inl member

omit [BufferAllocatorBase A H] in
theorem cells_put {i : Fin kNumShards} {put : Option (PutTask H)}
    (shards : w'.shards = w.shards) (busy : w'.busy = Function.update w.busy i put)
    (gained : ∀ b ∈ putBag put, b ∈ putBag (w.busy i) ∨ Q b) (j : Fin kNumShards) :
    ∀ b ∈ cell (w'.shards j) (w'.busy j), b ∈ cell (w.shards j) (w.busy j) ∨ Q b := by
  refine cells_change i (fun j different => ⟨congrFun shards j, others_update busy j different⟩) ?_ j
  intro b member
  rw [cell, shards, busy, update_self] at member
  rcases mem_add.mp member with entry | held
  · exact Or.inl (mem_add.mpr (Or.inl entry))
  · exact (gained b held).imp (fun old => mem_add.mpr (Or.inr old)) id

theorem cells_insert {i : Fin kNumShards} {task : PutTask H} {replicas : List (Replica H)}
    (put : w.busy i = some task) (phase : task.phase = .inserting replicas) :
    ∀ b ∈ cell ((w.putInsert i task replicas).1.shards i) ((w.putInsert i task replicas).1.busy i),
      b ∈ cell (w.shards i) (w.busy i) := by
  have owned : putBag (w.busy i) = (replicas.flatMap Replica.buffers : Multiset (AllocatedBuffer H)) := by
    rw [put, putBag, elim_some, phase]
    rfl
  intro b member
  rw [cell, (putInsert_world w i task replicas).1, update_self] at member
  rcases mem_add.mp member with entry | none
  swap
  · exact absurd none (notMem_zero b)
  rw [cell, owned, mem_add]
  unfold putInsert at entry
  simp only at entry
  split at entry
  · rename_i missing
    change (w.shards i).lookup task.key = none at missing
    simp only [setPut, update_self, Table.total_insert_new _ missing] at entry
    exact (mem_add.mp entry).symm
  · exact Or.inl entry

/-- What a shard owns after a turn it owned before, or it comes from an allocator in use. -/
theorem turn_cells (x : Sound p w) (turn : Turn p w e w') (j : Fin kNumShards) :
    ∀ b ∈ cell (w'.shards j) (w'.busy j), b ∈ cell (w.shards j) (w.busy j) ∨ w.isValid b.allocator = true := by
  cases turn with
  | quiet same shards =>
    rw [shards, same.busy]
    exact fun b member => Or.inl member
  | reordered i t perm same shards =>
    refine cells_change i (fun j different => ⟨others_update shards j different, by rw [same.busy]⟩) ?_ j
    rw [cell, cell, shards, same.busy, update_self, Table.total_perm _ perm]
    exact fun b member => Or.inl member
  | critical i free t gs swept shards heap locks =>
    obtain ⟨busy, here⟩ := cell_critical free swept shards locks
    refine cells_change i (fun j different => ⟨others_update shards j different, busy j different⟩) ?_ j
    rw [here]
    exact fun b member => Or.inl (mem_add.mpr (Or.inr member))
  | lock i task busy phase unlocked after =>
    have moved : w'.busy = update w.busy i (some { task with phase := .allocating [] (allocateReplicas
        ⟨w.segments.allocators, w.segments.allocatorsByName, task.config⟩ task.sliceLengths) }) := by rw [after]; rfl
    refine cells_put (by rw [after]; rfl) moved (fun b none => ?_) j
    exact absurd none (notMem_zero b)
  | call i task held op next busy phase choice heap answer performed after =>
    obtain ⟨-, -, sound⟩ := x.inFlight.put i task busy
    rw [phase] at sound
    obtain ⟨-, owed, -⟩ := sound
    have owned : putBag (w.busy i) = held := by
      rw [busy, putBag, elim_some, phase]
      rfl
    have moved : w'.busy = update w.busy i
        (some { task with phase := .allocating (op.track held answer) (next answer) }) := by rw [after]; rfl
    refine cells_put (by rw [after]; rfl) moved ?_ j
    rw [owned]
    exact perform_track performed owed
  | unlock i task held result busy phase after =>
    obtain ⟨put, released⟩ := putUnlock_released x busy phase
    rw [← after] at released
    refine cells_put released.shards released.busy ?_ j
    rw [released.owned]
    exact fun b member => Or.inl member
  | insert i choice task replicas asked busy phase after =>
    subst after
    obtain ⟨ended, -, -, others⟩ := putInsert_world w i task replicas
    refine cells_change i (fun j different => ⟨others j different, others_update ended j different⟩) ?_ j
    exact fun b member => Or.inl (cells_insert busy phase b member)

end Buffers

/-! The sweep of an unmount, and what it leaves clean. -/

def World.Clean (w : World A H) (a : Nat) (i : Fin kNumShards) : Prop :=
  ∀ b ∈ cell (w.shards i) (w.busy i), b.allocator ≠ a

section Sweep
variable {p : Params} {w w' : World A H} {e : Event} {a n : Nat} {id : UUID}

omit [BufferAllocatorBase A H] in
/-- A sweep goes on, clears the shard it has come to, or has been through all of them. -/
theorem sweeps_turn (turn : TaskTurn p w w') (sweeps : w.Sweeps id n) :
    w'.Sweeps id n ∨ (∃ below : n < kNumShards, Cleared w w' ⟨n, below⟩ ∧ w'.Sweeps id (n + 1)) ∨ kNumShards ≤ n := by
  cases sweeps with
  | unmount task client dec listed =>
    have kept (same : w'.tasks.lookup task = w.tasks.lookup task) : w'.Sweeps id n :=
      .unmount task client dec (same.trans listed)
    cases turn with
    | same tasks => exact Or.inl (kept (by rw [tasks]))
    | spawned other started unused fresh tasks =>
      have different : task ≠ other := by
        rintro rfl
        cases listed.symm.trans unused
      exact Or.inl (kept (by rw [tasks, lookup_insert_ne different]))
    | moved other before after found moves tasks =>
      rcases eq_or_ne task other with rfl | different
      · cases listed.symm.trans found
        cases moves with
        | unmount segment client dec next below cleared =>
          exact Or.inr (Or.inl ⟨below, cleared, .unmount task client dec (by rw [tasks, lookup_insert])⟩)
      · exact Or.inl (kept (by rw [tasks, lookup_insert_ne different]))
    | ended other before found ceased tasks =>
      rcases eq_or_ne task other with rfl | different
      · cases listed.symm.trans found
        exact Or.inr (Or.inr ceased)
      · exact Or.inl (kept (by rw [tasks, lookup_erase_ne different]))
    | watched moves tasks => exact Or.inl (kept (by rw [tasks]))
  | expiry commits client dec phase listed =>
    have kept (same : w'.monitor = w.monitor) : w'.Sweeps id n :=
      .expiry commits client dec (same.trans phase) listed
    cases turn with
    | same tasks monitor => exact Or.inl (kept monitor)
    | spawned other started unused fresh tasks monitor => exact Or.inl (kept monitor)
    | moved other before after found moves tasks monitor => exact Or.inl (kept monitor)
    | ended other before found ceased tasks monitor => exact Or.inl (kept monitor)
    | watched moves =>
      rw [phase] at moves
      generalize after : w'.monitor = next at moves
      cases moves with
      | idle before next none =>
        rw [MonitorPhase.tokens, coe_eq_zero] at none
        rw [none] at listed
        cases listed
      | swept commits n below cleared => exact Or.inr (Or.inl ⟨below, cleared, .expiry commits client dec after listed⟩)
      | finished commits n all => exact Or.inr (Or.inr all)

omit [BufferAllocatorBase A H] in
theorem cleared_clean {i : Fin kNumShards} (cleared : Cleared w w' i) (dead : w.isValid a = false) :
    w'.Clean a i := by
  rintro b member rfl
  rw [cell, cleared.busy, cleared.free, cleared.shards, update_self] at member
  rcases mem_add.mp member with entry | none
  swap
  · exact absurd none (notMem_zero b)
  obtain ⟨key, m, found, inside⟩ := Table.mem_total.mp entry
  obtain ⟨-, none⟩ | ⟨s, before, -, outcome⟩ := Table.lookup_sweep (clearVisit w.isValid) () (w.shards i) key
  · cases none.symm.trans found
  rw [found, clearVisit] at outcome
  split at outcome
  · cases outcome
  cases outcome
  obtain ⟨r, kept, held⟩ := mem_flatMap.mp (mem_coe.mp inside)
  have valid := (mem_clean (m := before)).mp kept
  rw [Replica.hasInvalidMemHandle, List.any_eq_false] at valid
  exact valid.2 b held (by rw [dead]; rfl)

theorem clean_kept {i : Fin kNumShards} (x : Sound p w) (turn : Turn p w e w') (dead : w.isValid a = false)
    (clean : w.Clean a i) : w'.Clean a i := by
  rintro b member rfl
  rcases turn_cells x turn i b member with old | valid
  · exact clean b old rfl
  · cases dead.symm.trans valid

end Sweep

/-! The invariant. -/

structure Traced (w : World A H) : Prop where
  known : ∀ i, ∀ b ∈ cell (w.shards i) (w.busy i), b.allocator < w.heap.objects.length
  gone : ∀ a segment client, w.heap.origin[a]? = some (segment, client) → w.isValid a = false →
    (∃ n, w.Sweeps segment n ∧ ∀ i : Fin kNumShards, i.val < n → w.Clean a i) ∨ ∀ i, w.Clean a i

section Traces
variable {p : Params} {w w' : World A H} {e : Event} {a : Nat}

theorem World.Reachable.run {events : List Event} (reached : Reachable p w)
    (run : Run.run (step p) w events = some w') : Reachable p w' := by
  obtain ⟨before, start⟩ := reached
  refine ⟨before ++ events, ?_⟩
  rw [Run.run_append, start]
  exact run

theorem World.Reachable.step (reached : Reachable p w) (done : w.step p e = some w') : Reachable p w' := by
  have run : Run.run (World.step p) w [e] = some w' := by
    rw [Run.run, done]
    rfl
  exact reached.run run

omit [BufferAllocatorBase A H] in
theorem idle_iff_dead (x : Segmented w) : Idle w.segments.mountedSegments a ↔ w.isValid a = false := by
  rw [← Bool.not_eq_true, isValid, valid_iff_serves x.indexed]
  exact ⟨fun idle ⟨id, s, serves⟩ => idle id s serves, fun none id s serves => none ⟨id, s, serves⟩⟩

omit [BufferAllocatorBase A H] in
theorem valid_known (x : Segmented w) (valid : w.isValid a = true) : a < w.heap.objects.length := by
  obtain ⟨id, s, serves⟩ := (valid_iff_serves x.indexed).mp valid
  exact x.indexed.old serves

theorem Traced.next_known (x : Traced w) (sound : Sound p w) (segmented : Segmented w) (turn : Turn p w e w')
    (i : Fin kNumShards) : ∀ b ∈ cell (w'.shards i) (w'.busy i), b.allocator < w.heap.objects.length := by
  intro b member
  rcases turn_cells sound turn i b member with old | valid
  · exact x.known i b old
  · exact valid_known segmented valid

theorem traced_step (x : Traced w) (reached : Reachable p w) (done : w.step p e = some w') : Traced w' := by
  obtain ⟨r, inside⟩ := step_exec done
  have turn := exec_turn inside
  have segments := exec_segments inside
  have sound := (located_reachable reached).sound
  have segmented := segmented_reachable reached
  have segmented' := segmented_reachable (reached.step done)
  obtain ⟨more, grown⟩ := origin_grows segments
  have known := x.next_known sound segmented turn
  refine ⟨fun i b member => ?_, ?_⟩
  · rw [← segmented'.indexed.parallel, grown, length_append, segmented.indexed.parallel]
    exact Nat.lt_add_right _ (known i b member)
  intro a segment client made dead
  rcases Nat.lt_or_ge a w.heap.objects.length with old | new
  swap
  · exact Or.inr (fun i b member => Nat.ne_of_lt (Nat.lt_of_lt_of_le (known i b member) new))
  rw [grown, getElem?_append_left (segmented.indexed.parallel ▸ old)] at made
  cases before : w.isValid a with
  | true =>
    -- the allocator goes out of use in this turn
    obtain ⟨id, s, serves⟩ := (valid_iff_serves segmented.indexed).mp before
    obtain ⟨client', made'⟩ := segmented.indexed.origin serves
    cases made.symm.trans made'
    have lost := (idle_iff_dead segmented').mpr dead segment s
    exact Or.inl ⟨0, lost_sweeps segmented segments serves lost, fun i below => absurd below (Nat.not_lt_zero _)⟩
  | false =>
    have kept : ∀ i, w.Clean a i → w'.Clean a i := fun i => clean_kept sound turn before
    obtain ⟨n, sweeps, clean⟩ | clean := x.gone a segment client made before
    · obtain sweeps' | ⟨below, cleared, sweeps'⟩ | all := sweeps_turn (exec_tasks inside) sweeps
      · exact Or.inl ⟨n, sweeps', fun i below => kept i (clean i below)⟩
      · refine Or.inl ⟨n + 1, sweeps', fun i reach => ?_⟩
        rcases Nat.lt_succ_iff_lt_or_eq.mp reach with earlier | here
        · exact kept i (clean i earlier)
        · cases Fin.ext (b := ⟨n, below⟩) here
          exact cleared_clean cleared before
      · exact Or.inr (fun i => kept i (clean i (Nat.lt_of_lt_of_le i.isLt all)))
    · exact Or.inr (fun i => kept i (clean i))

omit [BufferAllocatorBase A H] in
theorem traced_start (p : Params) : Traced (start p : World A H) := by
  refine ⟨fun i b member => absurd member (notMem_zero b), ?_⟩
  exact fun a segment client made => (nomatch made)

theorem traced_reachable (reached : Reachable p w) : Traced w := by
  obtain ⟨events, run⟩ := reached
  have both : Reachable p w ∧ Traced w := by
    refine Run.invariant (P := fun w => Reachable p w ∧ Traced w) ?_ ⟨⟨[], rfl⟩, traced_start p⟩ run
    exact fun w e w' x done => ⟨x.1.step done, traced_step x.2 x.1 done⟩
  exact both.2

variable {segment client : UUID}

/-- Once a segment is not mounted, its allocators are out of use and no shard has a buffer of them. -/
theorem unmounted_clean (reached : Reachable p w) (absent : w.segments.mountedSegments.lookup segment = none)
    (made : w.heap.origin[a]? = some (segment, client)) : w.isValid a = false ∧ ∀ i, w.Clean a i := by
  have segmented := segmented_reachable reached
  have dead : w.isValid a = false := by
    refine (idle_iff_dead segmented).mp (fun id s serves => ?_)
    obtain ⟨client', made'⟩ := segmented.indexed.origin serves
    cases made.symm.trans made'
    cases absent.symm.trans serves.1
  refine ⟨dead, ?_⟩
  obtain ⟨n, sweeps, -⟩ | clean := (traced_reachable reached).gone a segment client made dead
  · obtain ⟨client', dec, member⟩ := sweeps.token
    obtain ⟨s, found, -⟩ := segmented.unmounting member
    cases absent.symm.trans found
  · exact clean

theorem clean_run {events : List Event} (reached : Reachable p w) (dead : w.isValid a = false)
    (old : a < w.heap.objects.length) (clean : ∀ i, w.Clean a i) (run : Run.run (step p) w events = some w') :
    ∀ i, w'.Clean a i := by
  have kept : Reachable p w' ∧ w'.isValid a = false ∧ a < w'.heap.objects.length ∧ ∀ i, w'.Clean a i := by
    refine Run.invariant (P := fun w => Reachable p w ∧ w.isValid a = false ∧ a < w.heap.objects.length ∧
      ∀ i, w.Clean a i) ?_ ⟨reached, dead, old, clean⟩ run
    rintro w e w' ⟨reached, dead, old, clean⟩ done
    obtain ⟨r, inside⟩ := step_exec done
    have segmented := segmented_reachable reached
    have segmented' := segmented_reachable (reached.step done)
    obtain ⟨more, grown⟩ := origin_grows (exec_segments inside)
    refine ⟨reached.step done, ?_, ?_, ?_⟩
    · exact (idle_iff_dead segmented').mp (idle_step (exec_segments inside) ((idle_iff_dead segmented).mpr dead) old)
    · rw [← segmented'.indexed.parallel, grown, length_append, segmented.indexed.parallel]
      exact Nat.lt_add_right _ old
    · exact fun i => clean_kept (located_reachable reached).sound (exec_turn inside) dead (clean i)
  exact kept.2.2.2

/-! The end of an unmount. -/

theorem commitAll_erased {m : SegmentManager} {h : Heap A} {commits : List (UUID × UUID × Nat)} {id client : UUID}
    {dec : Nat} (listed : (id, client, dec) ∈ commits) :
    (commitAll (m, h) commits).1.mountedSegments.lookup id = none := by
  induction commits generalizing m h with
  | nil => cases listed
  | cons commit commits ih =>
    rcases mem_cons.mp listed with rfl | later
    · cases found : (commitAll (m, h) ((id, client, dec) :: commits)).1.mountedSegments.lookup id with
      | none => rfl
      | some s => cases (lookup_erase _ _).symm.trans (commitAll_lookup _ _ commits found)
    · exact ih later

/-- The step ends an unmount of the segment with success: by its commit, by the commits of an
expiry, or because the segment is not there. -/
inductive World.Unmounts (p : Params) (w w' : World A H) (segment : UUID) : Prop
  | committed (id : Nat) (client : UUID) (dec next : Nat)
      (task : w.tasks.lookup id = some (.unmount segment client dec next))
      (done : w.exec p (.advance id) = some (w', .void (.ok ())))
  | absent (id : Nat) (client : UUID) (done : w.exec p (.unmountSegment id segment client) = some (w', .void (.ok ())))
  | expired (order : List UUID) (commits : List (UUID × UUID × Nat)) (next : Nat) (client : UUID) (dec : Nat)
      (phase : w.monitor = .sweeping commits next) (listed : (segment, client, dec) ∈ commits)
      (done : w.exec p (.monitor order) = some (w', .silent)) (ceased : w'.monitor = .sleeping)

theorem World.Unmounts.step {segment : UUID} (unmounts : w.Unmounts p w' segment) : ∃ e, w.step p e = some w' := by
  cases unmounts with
  | committed id client dec next task done => exact ⟨_, congrArg (Option.map Prod.fst) done⟩
  | absent id client done => exact ⟨_, congrArg (Option.map Prod.fst) done⟩
  | expired order commits next client dec phase listed done => exact ⟨_, congrArg (Option.map Prod.fst) done⟩

theorem unmounts_absent {segment : UUID} (unmounts : w.Unmounts p w' segment) :
    w'.segments.mountedSegments.lookup segment = none := by
  cases unmounts with
  | committed id client dec next task done =>
    simp only [exec, task, taskAdvance] at done
    split at done
    · obtain ⟨⟨mid, x⟩, -, same⟩ := map_eq_some_iff.mp done
      cases same
    split at done
    · cases done
      exact lookup_erase _ _
    · cases done
  | absent id client done =>
    simp only [exec, unmountSegment] at done
    split at done
    · obtain ⟨missing, outcome⟩ | ⟨s, -, -, outcome⟩ | ⟨s, -, -, outcome⟩ := w.segments.prepareUnmountSegment_cases segment
      · simp only [outcome] at done
        cases done
        exact missing
      · simp only [outcome] at done
        cases done
      · simp only [outcome] at done
        cases done
    · cases done
  | expired order commits next client dec phase listed done ceased =>
    simp only [exec, monitorAdvance, phase] at done
    split at done
    · obtain ⟨⟨mid, x⟩, -, same⟩ := map_eq_some_iff.mp done
      cases same
      cases ceased
    split at done
    · cases done
      exact commitAll_erased listed
    · cases done

/-- After an unmount has succeeded no entry has a buffer of an allocator that was ever made for the
segment until then, and no later step brings one back. -/
theorem unmount_leaves_no_replica {w'' : World A H} {segment client : UUID} {events : List Event}
    (reached : World.Reachable p w) (unmounts : w.Unmounts p w' segment)
    (made : w'.heap.origin[a]? = some (segment, client)) (run : Run.run (World.step p) w' events = some w'') :
    ∀ i key m, w''.entry i key = some m → ∀ r ∈ m.replicas, ∀ b ∈ r.buffers, b.allocator ≠ a := by
  obtain ⟨e, done⟩ := unmounts.step
  have reached' := reached.step done
  obtain ⟨dead, clean⟩ := unmounted_clean reached' (unmounts_absent unmounts) made
  have old : a < w'.heap.objects.length := by
    rw [← (segmented_reachable reached').indexed.parallel]
    exact (List.getElem?_eq_some_iff.mp made).1
  intro i key m found r listed b held
  refine clean_run reached' dead old clean run i b (mem_add.mpr (Or.inl ?_))
  exact Table.mem_total.mpr ⟨key, m, found, mem_coe.mpr (mem_flatMap.mpr ⟨r, listed, held⟩)⟩

/-! An unmount that no put holds up comes to its end. -/

theorem clearShard_idle {i : Fin kNumShards} (free : w.busy i = none) :
    ∃ shards heap, w.clearShard i = some ({ w with shards := shards, heap := heap }, ()) ∧
      heap.origin = w.heap.origin := by
  let result := Table.sweep (clearVisit w.isValid) () (w.shards i)
  refine ⟨update w.shards i result.2.1, w.heap.collectAll w.isValid result.2.2, ?_, ?_⟩
  · rw [clearShard, onShard, free]
    rfl
  · exact congrArg Prod.fst (w.heap.collectAll_index w.isValid result.2.2)

theorem sweep_run {id : Nat} {dec n k : Nat} (task : w.tasks.lookup id = some (.unmount segment client dec n))
    (idle : ∀ i, w.busy i = none) (fits : n + k ≤ kNumShards) :
    ∃ shards heap tasks, Run.run (step p) w (replicate k (.advance id)) =
        some { w with shards := shards, heap := heap, tasks := tasks } ∧ heap.origin = w.heap.origin ∧
      tasks.lookup id = some (.unmount segment client dec (n + k)) := by
  induction k generalizing w n with
  | zero => exact ⟨w.shards, w.heap, w.tasks, rfl, rfl, task⟩
  | succ k ih =>
    have below : n < kNumShards := by omega
    obtain ⟨shards, heap, cleared, origin⟩ := clearShard_idle (idle ⟨n, below⟩)
    have done : w.step p (.advance id) = some { w with
        shards := shards, heap := heap, tasks := w.tasks.insert id (.unmount segment client dec (n + 1)) } := by
      simp only [step, exec, task, taskAdvance, dif_pos below, cleared]
      rfl
    obtain ⟨shards', heap', tasks', rest, origin', task'⟩ := ih (w := { w with
      shards := shards, heap := heap, tasks := w.tasks.insert id (.unmount segment client dec (n + 1)) })
      (lookup_insert _) idle (by omega)
    refine ⟨shards', heap', tasks', ?_, origin'.trans origin, ?_⟩
    · rw [List.replicate_succ, Run.run, done]
      exact rest
    · rw [task']
      congr 2
      omega

/-- From the prepare to the commit, with nothing else in between. -/
theorem unmount_run {id : Nat} {dec : Nat} (task : w.tasks.lookup id = some (.unmount segment client dec 0))
    (idle : ∀ i, w.busy i = none) (free : w.segmentFree = true) :
    ∃ mid shards heap tasks, Run.run (step p) w (replicate kNumShards (.advance id)) = some mid ∧
      mid.Unmounts p { w with
        segments := (w.segments.commitUnmountSegment w.heap segment client dec).1
        shards := shards, heap := heap, tasks := tasks } segment ∧ heap.origin = w.heap.origin := by
  obtain ⟨shards, heap, tasks, run, origin, task'⟩ := sweep_run (p := p) (k := kNumShards) task idle (by omega)
  have done : exec p { w with shards := shards, heap := heap, tasks := tasks } (.advance id) =
      some ({ w with
        segments := (w.segments.commitUnmountSegment heap segment client dec).1
        shards := shards, heap := (w.segments.commitUnmountSegment heap segment client dec).2
        tasks := tasks.erase id }, .void (.ok ())) := by
    simp only [exec, task', taskAdvance, dif_neg (show ¬0 + kNumShards < kNumShards by omega)]
    exact if_pos free
  exact ⟨_, shards, _, tasks.erase id, run, .committed id client dec (0 + kNumShards) task' done, origin⟩

end Traces

namespace Sample

def unmounting (w : State) : Option (UUID × UUID × Nat × Nat) :=
  match w.tasks.lookup 0 with
  | some (.unmount segment client dec next) => some (segment, client, dec, next)
  | _ => none

theorem unmounting_task {w : State} {segment client : UUID} {dec next : Nat}
    (seen : unmounting w = some (segment, client, dec, next)) :
    w.tasks.lookup 0 = some (.unmount segment client dec next) := by
  unfold unmounting at seen
  split at seen
  · rename_i found
    cases seen
    exact found
  · cases seen

end Sample

open Sample in
/-- A put that allocated before the prepare inserts after it, and its entry is swept with the rest. -/
theorem unmount_sweeps_late_insert : ∃ w w' : State,
    World.Reachable params w ∧ w.Unmounts params w' segmentA.id ∧
      w'.heap.origin[0]? = some (segmentA.id, clientA) ∧
      ∀ i key m, w'.entry i key = some m → ∀ r ∈ m.replicas, ∀ b ∈ r.buffers, b.allocator ≠ 0 := by
  have outcome : (Run.run (step params) (start params : State) (mount segmentA clientA ++ place "k" "a" ++
      [.unmountSegment 0 segmentA.id clientA, .putAdvance shard []])).bind (fun w => some (decide (
        (w.entry shard "k").map (fun m => m.buffers.map AllocatedBuffer.allocator) = some [0] ∧
        w.heap.origin = [(segmentA.id, clientA)] ∧ unmounting w = some (segmentA.id, clientA, 1048576, 0) ∧
        (∀ i, (w.busy i).isNone = true) ∧ w.segmentFree = true))) = some true := by decide +kernel
  obtain ⟨w, reached, observed⟩ := reached_of_outcome outcome
  obtain ⟨-, origin, task, idle, free⟩ := of_decide_eq_true (some.inj observed)
  obtain ⟨mid, shards, heap, tasks, run, unmounts, same⟩ :=
    unmount_run (p := params) (unmounting_task task) (fun i => isNone_iff_eq_none.mp (idle i)) free
  have made : heap.origin[0]? = some (segmentA.id, clientA) := by
    rw [same, origin]
    rfl
  exact ⟨mid, _, reached.run run, unmounts, made,
    unmount_leaves_no_replica (reached.run run) unmounts made (show Run.run (step params) _ [] = some _ from rfl)⟩

end Mooncake.Master
