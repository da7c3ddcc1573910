import Mooncake.Master.Drops
import Mooncake.Master.Ledger

/-! The ledger and the puts in flight along a run. A put keeps the mutex of its shard from
its first critical section to its last; what it may rely on in between is `InFlight`. -/
namespace Mooncake.Master
open Program Option Function List
variable {A H : Type} [BufferAllocatorBase A H] {p : Params} {w w' : World A H} {e : Event}

structure Sound (p : Params) (w : World A H) : Prop where
  ledger : Ledger w
  inFlight : InFlight p w

omit [BufferAllocatorBase A H] in
theorem sound_start (p : Params) : Sound p (World.start p : World A H) := ⟨ledger_start p, inFlight_start p⟩

theorem disk_buffers (replicas : List (Replica H)) (q : Bool) (path : String) (size : Nat) :
    (replicas ++ if q then [(⟨.disk path size, .processing⟩ : Replica H)] else []).flatMap Replica.buffers =
      replicas.flatMap Replica.buffers := by
  rw [flatMap_append]
  cases q with
  | false => exact append_nil _
  | true => exact append_nil _

theorem disk_processing {replicas : List (Replica H)} (writing : ∀ r ∈ replicas, r.status = .processing) (q : Bool)
    (path : String) (size : Nat) :
    ∀ r ∈ replicas ++ if q then [(⟨.disk path size, .processing⟩ : Replica H)] else [], r.status = .processing := by
  intro r member
  rcases mem_append.mp member with old | disk
  · exact writing r old
  · cases q with
    | false => cases disk
    | true =>
      rw [mem_singleton.mp disk]

structure Released (w w' : World A H) (i : Fin kNumShards) (task : PutTask H) (put' : Option (PutTask H)) : Prop where
  shards : w'.shards = w.shards
  busy : w'.busy = Function.update w.busy i put'
  heap : w'.heap = w.heap
  readers : w'.segmentReaders = w.segmentReaders.erase i
  owned : putBag put' = putBag (w.busy i)
  phase : ∀ task', put' = some task' → task'.key = task.key ∧ task'.phase.Sound w'.isValid False

variable {result : Except ErrorCode (List (Replica H))} {i : Fin kNumShards} {task : PutTask H}
    {held : List (AllocatedBuffer H)}

omit [BufferAllocatorBase A H] in
theorem putUnlock_released (x : Sound p w) (put : w.busy i = some task)
    (phase : task.phase = .allocating held (.done result)) :
    ∃ put', Released w (w.putUnlock p i task result).1 i task put' := by
  obtain ⟨-, -, sound⟩ := x.inFlight.put i task put
  rw [phase] at sound
  obtain ⟨-, placed⟩ := sound
  have owned : putBag (w.busy i) = held := by
    rw [put, putBag, elim_some, phase]
    rfl
  unfold World.putUnlock
  simp only
  split
  · exact ⟨none, rfl, rfl, rfl, rfl, placed.symm.trans owned.symm, fun _ none => by cases none⟩
  · exact ⟨none, rfl, rfl, rfl, rfl, placed.symm.trans owned.symm, fun _ none => by cases none⟩
  · obtain ⟨owns, some_replica, fresh⟩ := placed
    refine ⟨_, rfl, rfl, rfl, rfl, ?_, ?_⟩
    · rw [owned, owns]
      exact congrArg Multiset.ofList (disk_buffers _ _ _ _)
    · intro task' same
      cases same
      exact ⟨rfl, fun no => no, append_ne_nil_of_left_ne_nil some_replica _,
        disk_processing (fun r member => (fresh r member).1) _ _ _⟩

theorem putInsert_world (w : World A H) (i : Fin kNumShards) (task : PutTask H) (replicas : List (Replica H)) :
    (w.putInsert i task replicas).1.busy = update w.busy i none ∧
      (w.putInsert i task replicas).1.segmentReaders = w.segmentReaders ∧
      (w.putInsert i task replicas).1.mounting = w.mounting ∧
      ∀ j, j ≠ i → (w.putInsert i task replicas).1.shards j = w.shards j := by
  unfold World.putInsert
  simp only
  split
  · exact ⟨rfl, rfl, rfl, fun j different => update_of_ne different _ _⟩
  · exact ⟨rfl, rfl, rfl, fun _ _ => rfl⟩

section
variable {t : Shard H} (x : Sound p w) (turn : SegmentTurn w w')
include x turn

theorem sound_quiet (same : w.SameStore w') (shards : w'.shards = w.shards) : Sound p w' := by
  refine ⟨x.ledger.same (bag_congr shards same.busy) same.live same.nextBuffer, ?_⟩
  exact x.inFlight.keep turn same.busy same.readers (fun i key _ => by rw [shards])

theorem sound_reordered (i : Fin kNumShards) (perm : t.entries.Perm (w.shards i).entries) (same : w.SameStore w')
    (shards : w'.shards = update w.shards i t) : Sound p w' := by
  have bag : w'.bag = w.bag := by
    refine bag_same_cell i (fun j different => ⟨others_update shards j different, by rw [same.busy]⟩) ?_
    rw [cell, cell, shards, same.busy, update_self, Table.total_perm _ perm]
  refine ⟨x.ledger.same bag same.live same.nextBuffer, ?_⟩
  refine x.inFlight.keep turn same.busy same.readers (fun j key _ => ?_)
  rcases eq_or_ne j i with rfl | different
  · rw [shards, update_self]
    exact AList.perm_lookup perm
  · rw [shards, update_of_ne different]

theorem sound_critical (free : w.busy i = none) {gs : List (Garbage H)} (swept : Swept p w e (w.shards i) t gs)
    (shards : w'.shards = update w.shards i t) (heap : w'.heap = w.heap.collectAll w.isValid gs)
    (locks : Locks p w e w' i) (readers : w'.segmentReaders = w.segmentReaders) : Sound p w' := by
  refine ⟨ledger_critical x.ledger free swept shards heap locks, ?_⟩
  have idle : i ∉ w'.segmentReaders := by
    rw [readers]
    exact x.inFlight.idle i free
  rcases locks with same | ⟨key, sliceLengths, config, -, busy, home, empty⟩
  · refine x.inFlight.keep turn same readers (fun j key locked => ?_)
    have different : j ≠ i := by
      rintro rfl
      exact locked free
    rw [shards, update_of_ne different]
  · refine x.inFlight.update turn i _ busy (others_update shards) (fun j _ => by rw [readers])
      (readers ▸ x.inFlight.single) (fun mounting => readers ▸ exclusive_kept x.inFlight turn mounting) ?_
      (fun none => (nomatch none))
    intro task same
    cases same
    exact ⟨home, empty, idle⟩

variable (put : w.busy i = some task)
include put

theorem sound_lock (phase : task.phase = .locked) (unlocked : w.mounting = none)
    (after : w' = { w.setPut i (some { task with phase := .allocating [] (allocateReplicas
      ⟨w.segments.allocators, w.segments.allocatorsByName, task.config⟩ task.sliceLengths) }) with
      segmentReaders := i :: w.segmentReaders }) :
    Sound p w' := by
  obtain ⟨home, empty, waiting⟩ := x.inFlight.put i task put
  rw [phase] at waiting
  subst after
  have owned : putBag (w.busy i) = 0 := by
    rw [put, putBag, elim_some, phase]
    rfl
  refine ⟨ledger_put x.ledger rfl rfl owned.symm rfl rfl, ?_⟩
  refine x.inFlight.update turn i _ rfl (fun _ _ => rfl) ?_ (nodup_cons.mpr ⟨waiting, x.inFlight.single⟩)
    (fun mounting => absurd unlocked mounting) ?_ (fun none => by cases none)
  · intro j different
    exact mem_cons.trans (or_iff_right different)
  · intro task' same
    cases same
    refine ⟨home, empty, mem_cons_self, (allocateReplicas_owns _ _).relax ?_ ?_⟩
    · intro held op owed
      cases op with
      | allocate a size => exact names_valid w.segments task.config owed
      | getSegmentName a => exact owed
      | getLargestFreeRegion a => exact owed
      | shuffle indices => exact owed
      | destroy b => exact owed
    · intro held op answer held' ensured
      cases op with
      | allocate a size => exact ensured
      | getSegmentName a => exact ensured
      | getLargestFreeRegion a => exact ensured
      | shuffle indices => exact ensured
      | destroy b => exact ensured

theorem sound_call {op : AllocOp H} {next : op.Answer → AllocProgram H (Except ErrorCode (List (Replica H)))}
    (phase : task.phase = .allocating held (.call op next)) {choice : List Nat} {heap : Heap A}
    {answer : op.Answer} (performed : w.heap.perform w.isValid choice op = some (heap, answer))
    (after : w' = { w.setPut i (some
      { task with phase := .allocating (op.track held answer) (next answer) }) with heap := heap }) :
    Sound p w' := by
  obtain ⟨home, empty, sound⟩ := x.inFlight.put i task put
  rw [phase] at sound
  obtain ⟨reading, owed, rest⟩ := sound
  have mine : (held : Multiset (AllocatedBuffer H)) ≤ w.bag := by
    refine le_trans ?_ (cell_le_bag w i)
    rw [cell, put, putBag, elim_some, phase]
    exact le_add_self
  obtain ⟨ensured, called⟩ := perform_called performed owed (x.ledger.object_inj mine)
  subst after
  refine ⟨ledger_call x.ledger rfl put (by rw [phase]; rfl) rfl rfl called, ?_⟩
  refine x.inFlight.update turn i _ rfl (fun _ _ => rfl) (fun _ _ => Iff.rfl) x.inFlight.single
    x.inFlight.exclusive ?_ (fun none => by cases none)
  intro task' same
  cases same
  exact ⟨home, empty, reading, rest answer _ ensured⟩

theorem sound_unlock (phase : task.phase = .allocating held (.done result))
    (after : w' = (w.putUnlock p i task result).1) : Sound p w' := by
  obtain ⟨put', released⟩ := putUnlock_released x put phase
  rw [← after] at released
  have free : i ∉ w'.segmentReaders := by
    rw [released.readers]
    exact x.inFlight.single.not_mem_erase
  refine ⟨ledger_put x.ledger released.shards released.busy released.owned (by rw [released.heap])
    (by rw [released.heap]), ?_⟩
  refine x.inFlight.update turn i put' released.busy (fun j _ => congrFun released.shards j) ?_
    (released.readers ▸ x.inFlight.single.erase i) ?_ ?_ (fun _ => free)
  · intro j different
    rw [released.readers]
    exact mem_erase_of_ne different
  · intro mounting
    rw [released.readers, exclusive_kept x.inFlight turn mounting]
    rfl
  · intro task' same
    obtain ⟨home, empty, -⟩ := x.inFlight.put i task put
    obtain ⟨key, sound⟩ := released.phase task' same
    rw [key, released.shards]
    exact ⟨home, empty, sound.congr (iff_false_intro free) (fun no => no.elim)⟩

theorem sound_insert {replicas : List (Replica H)} (phase : task.phase = .inserting replicas)
    (after : w' = (w.putInsert i task replicas).1) : Sound p w' := by
  obtain ⟨-, -, sound⟩ := x.inFlight.put i task put
  rw [phase] at sound
  subst after
  obtain ⟨busy, readers, mounting, others⟩ := putInsert_world w i task replicas
  refine ⟨ledger_insert x.ledger put phase, ?_⟩
  refine x.inFlight.update turn i none busy others (fun j _ => by rw [readers]) (readers ▸ x.inFlight.single) ?_
    (fun _ none => (nomatch none)) (fun _ => by rw [readers]; exact sound.1)
  rw [mounting, readers]
  exact x.inFlight.exclusive

end

theorem sound_step (x : Sound p w) (turn : Turn p w e w') (segments : SegmentTurn w w') : Sound p w' := by
  cases turn with
  | quiet same shards => exact sound_quiet x segments same shards
  | reordered i t perm same shards => exact sound_reordered x segments i perm same shards
  | critical i free t gs swept shards heap locks nextObject readers =>
    exact sound_critical x segments free swept shards heap locks readers
  | lock i task busy phase unlocked after => exact sound_lock x segments busy phase unlocked after
  | call i task held op next busy phase choice heap answer performed after =>
    exact sound_call x segments busy phase performed after
  | unlock i task held result busy phase after => exact sound_unlock x segments busy phase after
  | insert i choice task replicas asked busy phase after => exact sound_insert x segments busy phase after

theorem step_exec {w w' : World A H} (done : w.step p e = some w') : ∃ r, w.exec p e = some (w', r) := by
  obtain ⟨⟨mid, r⟩, inside, same⟩ := map_eq_some_iff.mp done
  cases same
  exact ⟨r, inside⟩

structure Located (p : Params) (w : World A H) : Prop where
  sound : Sound p w
  home : ∀ i key m, w.entry i key = some m → p.getShardIndex key = i
  older : ∀ i key m, w.entry i key = some m → m.object < w.nextObject

omit [BufferAllocatorBase A H] in
theorem located_start (p : Params) : Located p (World.start p : World A H) :=
  ⟨sound_start p, fun _ _ _ found => (nomatch found), fun _ _ _ found => (nomatch found)⟩

theorem located_step (x : Located p w) (turn : Turn p w e w') (segments : SegmentTurn w w') : Located p w' := by
  refine ⟨sound_step x.sound turn segments, ?_, ?_⟩
  · intro i key m' found
    obtain ⟨m, before, -⟩ | ⟨choice, task, replicas, -, put, -, rfl, -⟩ := turn_origin turn found
    · exact x.home i key m before
    · exact (x.sound.inFlight.put i task put).1
  · intro i key m' found
    obtain ⟨m, before, effect⟩ | ⟨choice, task, replicas, -, -, -, -, next, rfl⟩ := turn_origin turn found
    · rw [(effect.inherits rfl).object]
      exact Nat.lt_of_lt_of_le (x.older i key m before) (turn_nextObject turn)
    · rw [next]
      exact Nat.lt_succ_self _

theorem located_kept (w : World A H) (e : Event) (w' : World A H) (x : Located p w) (done : w.step p e = some w') :
    Located p w' := by
  obtain ⟨r, inside⟩ := step_exec done
  exact located_step x (World.exec_turn inside) (World.exec_segments inside)

/-- In every state of every run each live buffer has one owner, and each entry is at home. -/
theorem located_reachable (reached : World.Reachable p w) : Located p w := by
  obtain ⟨events, run⟩ := reached
  exact Run.invariant located_kept (located_start p) run

end Mooncake.Master
