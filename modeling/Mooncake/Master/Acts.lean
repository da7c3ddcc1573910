import Mooncake.Master.Entries

/-! What an event does, said once for all events: the state after it, and the guard under which it happens. What
follows from that for a part of the state is in the modules after this one. -/
namespace Mooncake.Master

open Function Option
variable {A H : Type}

structure Cleared (w w' : World A H) (i : Fin kNumShards) : Prop where
  free : w.busy i = none
  busy : w'.busy = w.busy
  shards : w'.shards = update w.shards i (Table.sweep (clearVisit w.isValid) () (w.shards i)).2.1

inductive Eviction.Moves (H : Type) (p : Params) (e : Eviction) : Eviction → Prop
  | first (i : Nat) (t : Shard H) (phase : e.phase = .firstPass i) :
      Eviction.Moves H p e { (e.firstPassShard p.ceilTimes p.allowEvictSoftPinnedObjects t).1 with
        phase := .firstPass (i + 1) }
  | plan : Eviction.Moves H p e { e with phase := e.planSecondPass p.ceilTimes }
  | passA (i next : Nat) (targetTimeout n n' count : Int) (phase : e.phase = .secondPassA i targetTimeout n) :
      Eviction.Moves H p e { e with evictedCount := count, phase := .secondPassA next targetTimeout n' }
  | passB (next : Nat) (softTargetTimeout n' count : Int) :
      Eviction.Moves H p e { e with evictedCount := count, phase := .secondPassB next softTargetTimeout n' }
  | finish : Eviction.Moves H p e { e with phase := .finished }

def Task.Fresh (w : World A H) : Task → Prop
  | .unmount _ _ _ next => next = 0
  | .removeByRegex _ next _ => next = 0
  | .removeAll now next _ => now = w.clock ∧ next = 0
  | .replicaListByRegex _ next _ => next = 0
  | .evict state => ∃ target lowerbound startIdx, state = .make w.clock target lowerbound startIdx

inductive Task.Moves (p : Params) (w w' : World A H) : Task → Task → Prop
  | unmount (segment client : UUID) (dec next : Nat) (below : next < kNumShards) (cleared : Cleared w w' ⟨next, below⟩) :
      Task.Moves p w w' (.unmount segment client dec next) (.unmount segment client dec (next + 1))
  | removeByRegex (found : String → Bool) (next removed removed' : Nat) :
      Task.Moves p w w' (.removeByRegex found next removed) (.removeByRegex found (next + 1) removed')
  | removeAll (now : Int) (next removed removed' : Nat) :
      Task.Moves p w w' (.removeAll now next removed) (.removeAll now (next + 1) removed')
  | replicaListByRegex (found : String → Bool) (next : Nat) (results results' : List (String × List ReplicaDescriptor)) :
      Task.Moves p w w' (.replicaListByRegex found next results) (.replicaListByRegex found (next + 1) results')
  | evict (state state' : Eviction) (moves : state.Moves H p state') : Task.Moves p w w' (.evict state) (.evict state')

/-- The segment, the client of the request and the size of an unmount in progress. -/
def Task.tokens : Task → Multiset (UUID × UUID × Nat)
  | .unmount segment client decCapacity _ => {(segment, client, decCapacity)}
  | _ => 0

theorem Task.Moves.tokens {p : Params} {w w' : World A H} {task task' : Task} (moves : task.Moves p w w' task') :
    task'.tokens = task.tokens := by
  cases moves <;> rfl

/-- The event neither ends a mount nor asks for an unmount. -/
def Event.Plain : Event → Prop
  | .mountFinish | .unmountSegment _ _ _ => False
  | _ => True

variable [BufferAllocatorBase A H]

def World.cut (w : World A H) (i : Fin kNumShards) (out : Shard H × List (Garbage H)) : World A H :=
  { w with shards := update w.shards i out.1, heap := w.heap.collectAll w.isValid out.2 }

inductive StoreAct (p : Params) (w : World A H) : Event → World A H → Prop
  | still (e : Event) (plain : e.Plain) : StoreAct p w e w
  | tick (nanos : Nat) : StoreAct p w (.tick nanos) { w with clock := w.clock + nanos }
  | rehash (i : Fin kNumShards) (order : List String) (t : Shard H) (perm : t.entries.Perm (w.shards i).entries) :
      StoreAct p w (.rehash i order) { w with shards := update w.shards i t }
  | request (e : Event) (plain : e.Plain) (i : Fin kNumShards) (free : w.busy i = none) (out : Shard H × List (Garbage H))
      (handled : Handled p w e (w.shards i) out) : StoreAct p w e (w.cut i out)
  | reserve (key : String) (sliceLengths : List Nat) (config : ReplicateConfig) (free : w.busy (p.getShardIndex key) = none)
      (out : Shard H × List (Garbage H))
      (handled : Handled p w (.putStart key sliceLengths config) (w.shards (p.getShardIndex key)) out)
      (empty : ∀ m, out.1.lookup key = some m → m.replicas = []) :
      StoreAct p w (.putStart key sliceLengths config)
        ((w.cut (p.getShardIndex key) out).setPut (p.getShardIndex key) (some ⟨key, sliceLengths, config, .locked⟩))
  | lock (i : Fin kNumShards) (choice : List Nat) (task : PutTask H) (busy : w.busy i = some task)
      (phase : task.phase = .locked) (unlocked : w.mounting = none) :
      StoreAct p w (.putAdvance i choice) { w.setPut i (some { task with phase := .allocating [] (allocateReplicas
        ⟨w.segments.allocators, w.segments.allocatorsByName, task.config⟩ task.sliceLengths) }) with
          segmentReaders := i :: w.segmentReaders }
  | call (i : Fin kNumShards) (choice : List Nat) (task : PutTask H) (held : List (AllocatedBuffer H)) (op : AllocOp H)
      (next : op.Answer → AllocProgram H (Except ErrorCode (List (Replica H)))) (busy : w.busy i = some task)
      (phase : task.phase = .allocating held (.call op next)) (heap : Heap A) (answer : op.Answer)
      (performed : w.heap.perform w.isValid choice op = some (heap, answer)) :
      StoreAct p w (.putAdvance i choice) { w.setPut i (some { task with
        phase := .allocating (op.track held answer) (next answer) }) with heap := heap }
  | unlock (i : Fin kNumShards) (choice : List Nat) (task : PutTask H) (held : List (AllocatedBuffer H))
      (result : Except ErrorCode (List (Replica H))) (busy : w.busy i = some task)
      (phase : task.phase = .allocating held (.done result)) :
      StoreAct p w (.putAdvance i choice) (w.putUnlock p i task result).1
  | insert (i : Fin kNumShards) (choice : List Nat) (task : PutTask H) (replicas : List (Replica H))
      (busy : w.busy i = some task) (phase : task.phase = .inserting replicas) :
      StoreAct p w (.putAdvance i choice) (w.putInsert i task replicas).1
  | spawn (e : Event) (plain : e.Plain) (id : Nat) (task : Task) (unused : w.tasks.lookup id = none) (fresh : task.Fresh w)
      (none : task.tokens = 0) : StoreAct p w e (w.setTask id task)
  | move (id : Nat) (task task' : Task) (listed : w.tasks.lookup id = some task) (i : Fin kNumShards)
    (free : w.busy i = none)
      (out : Shard H × List (Garbage H)) (handled : Handled p w (.advance id) (w.shards i) out)
      (moves : task.Moves p w ((w.cut i out).setTask id task') task') :
      StoreAct p w (.advance id) ((w.cut i out).setTask id task')
  | plan (id : Nat) (state state' : Eviction) (listed : w.tasks.lookup id = some (.evict state))
      (moves : state.Moves H p state') : StoreAct p w (.advance id) (w.setTask id (.evict state'))
  | close (id : Nat) (task : Task) (listed : w.tasks.lookup id = some task) (none : task.tokens = 0) (needEviction : Bool) :
      StoreAct p w (.advance id) { w.endTask id with needEviction := needEviction }
  | wake (order : List UUID) (was : w.monitor = .sleeping) : StoreAct p w (.monitor order)
    { w with monitor := .draining w.clock }
  | sweep (order : List UUID) (commits : List (UUID × UUID × Nat)) (next : Nat) (below : next < kNumShards)
      (was : w.monitor = .sweeping commits next) (free : w.busy ⟨next, below⟩ = none)
      (handled : Handled p w (.monitor order) (w.shards ⟨next, below⟩)
        (Table.sweep (clearVisit w.isValid) () (w.shards ⟨next, below⟩)).2) :
      StoreAct p w (.monitor order) { w.cut ⟨next, below⟩
        (Table.sweep (clearVisit w.isValid) () (w.shards ⟨next, below⟩)).2 with
        monitor := .sweeping commits (next + 1) }

inductive Act (p : Params) (w : World A H) : Event → World A H → Reply → Prop
  | store (e : Event) (w' : World A H) (r : Reply) (act : StoreAct p w e w') : Act p w e w' r
  | refuse (id : Nat) (segment client : UUID) (r : Reply)
      (unasked : ∀ s, w.segments.mountedSegments.lookup segment = some s → s.status = .unmounting) :
      Act p w (.unmountSegment id segment client) w r
  | ping (client : UUID) (r : Reply) :
      Act p w (.ping client true) { w with clientPingQueue := w.clientPingQueue ++ [client] } r
  | begin (e : Event) (plain : e.Plain) (task : MountTask) (client : UUID)
      (named : (∃ segment, task = .mount segment client) ∨ ∃ segments, task = .reMount segments client)
      (free : w.segmentFree = true) :
      Act p w e { w with clientPingQueue := w.clientPingQueue ++ [client], mounting := some task } .silent
  | mounted (segment : Segment) (client : UUID) (was : w.mounting = some (.mount segment client)) (r : Reply)
      (answer : r = .void (.ok ()) → (w.segments.mountSegment w.heap segment client).2.2 = .ok ∨
        (w.segments.mountSegment w.heap segment client).2.2 = .segmentAlreadyExists) :
      Act p w .mountFinish { w with
        segments := (w.segments.mountSegment w.heap segment client).1
        heap := (w.segments.mountSegment w.heap segment client).2.1, mounting := none } r
  | reMounted (segments : List Segment) (client : UUID) (was : w.mounting = some (.reMount segments client))
      (code : (w.segments.reMountSegment w.heap client segments).2.2 = .ok) (heap : Heap A)
      (after : heap = { (w.segments.reMountSegment w.heap client segments).2.1 with
        metrics := { (w.segments.reMountSegment w.heap client segments).2.1.metrics with
          activeClients := (w.segments.reMountSegment w.heap client segments).2.1.metrics.activeClients + 1 } }) :
      Act p w .mountFinish { w with
        segments := (w.segments.reMountSegment w.heap client segments).1
        heap := heap, mounting := none, okClient := insert client w.okClient } (.void (.ok ()))
  | rejected (segments : List Segment) (client : UUID) (was : w.mounting = some (.reMount segments client))
    (code : ErrorCode) :
      Act p w .mountFinish { w with
        segments := (w.segments.reMountSegment w.heap client segments).1
        heap := (w.segments.reMountSegment w.heap client segments).2.1, mounting := none } (.void (.error code))
  | prepared (id : Nat) (segment client : UUID) (s : MountedSegment) (free : w.segmentFree = true)
      (unused : w.tasks.lookup id = none) (found : w.segments.mountedSegments.lookup segment = some s)
      (status : s.status ≠ .unmounting) :
      Act p w (.unmountSegment id segment client) ({ w with segments := w.segments.dropAllocator segment s }.setTask id
        (.unmount segment client s.segment.size 0)) .silent
  | committed (id : Nat) (segment client : UUID) (dec next : Nat) (free : w.segmentFree = true)
      (listed : w.tasks.lookup id = some (.unmount segment client dec next)) (all : kNumShards ≤ next) :
      Act p w (.advance id) { w.endTask id with
        segments := (w.segments.commitUnmountSegment w.heap segment client dec).1
        heap := (w.segments.commitUnmountSegment w.heap segment client dec).2 } (.void (.ok ()))
  | drained (order : List UUID) (now : Int) (client : UUID) (rest : List UUID) (deadline : Int)
      (was : w.monitor = .draining now) (queue : w.clientPingQueue = client :: rest) :
      Act p w (.monitor order) { w with clientPingQueue := rest, clientTtl := w.clientTtl.insert client deadline } .silent
  | collected (order : List UUID) (now : Int) (was : w.monitor = .draining now) (ttl : Table UUID Int) (late : List UUID)
      (moved : ∀ client, (w.clientTtl.lookup client).isSome = true → (ttl.lookup client).isSome = true ∨ client ∈ late) :
      Act p w (.monitor order) { w with
        clientTtl := ttl, monitor := if late.isEmpty then .sleeping else .expiring late } .silent
  | expired (order clients : List UUID) (was : w.monitor = .expiring clients) (free : w.segmentFree = true)
    (activeClients : BitVec 64) :
      Act p w (.monitor order) { w with
        okClient := w.okClient \ clients.toFinset
        segments := (World.expireClients clients (w.segments, [])).1
        heap := { w.heap with metrics := { w.heap.metrics with activeClients := activeClients } }
        monitor := if (World.expireClients clients (w.segments, [])).2.isEmpty then .sleeping
          else .sweeping (World.expireClients clients (w.segments, [])).2 0 } .silent
  | finished (order : List UUID) (commits : List (UUID × UUID × Nat)) (next : Nat) (all : kNumShards ≤ next)
      (free : w.segmentFree = true) (was : w.monitor = .sweeping commits next) :
      Act p w (.monitor order) { w with
        segments := (World.commitAll (w.segments, w.heap) commits).1
        heap := (World.commitAll (w.segments, w.heap) commits).2, monitor := .sleeping } .silent

namespace World
variable {p : Params} {w w' : World A H} {e : Event} {r : Reply}

variable {i : Fin kNumShards} {key : String}

theorem onShard_eq {τ : Type} {body : Shard H → τ × Shard H × List (Garbage H)} {mid : World A H} {x : τ}
    (done : w.onShard i body = some (mid, x)) :
    w.busy i = none ∧ x = (body (w.shards i)).1 ∧ mid = w.cut i (body (w.shards i)).2 := by
  unfold onShard at done
  split at done
  · cases done
  · rename_i free
    have same := some.inj done
    refine ⟨?_, (congrArg Prod.snd same).symm, (congrArg Prod.fst same).symm⟩
    simpa using free

theorem onShard_map {τ : Type} {body : Shard H → τ × Shard H × List (Garbage H)}
    {after : World A H × τ → World A H × Reply} (done : (w.onShard i body).map after = some (w', r)) :
    w.busy i = none ∧ after (w.cut i (body (w.shards i)).2, (body (w.shards i)).1) = (w', r) := by
  obtain ⟨⟨mid, x⟩, inside, same⟩ := map_eq_some_iff.mp done
  obtain ⟨free, rfl, rfl⟩ := onShard_eq inside
  exact ⟨free, same⟩

theorem request_entry {ρ : Type} {missing : ρ} {use : ObjectMetadata H → Outcome H ρ} {reply : ρ → Reply}
    (done : w.request p key missing use reply = some (w', r)) :
    r = reply (accessEntry w.isValid missing use (w.entry (p.getShardIndex key) key)).1 ∧
      w'.entry (p.getShardIndex key) key =
        (accessEntry w.isValid missing use (w.entry (p.getShardIndex key) key)).2.1 := by
  obtain ⟨-, same⟩ := onShard_map done
  cases same
  refine ⟨rfl, ?_⟩
  simp only [entry, cut, update_self]
  exact atKey_lookup key _ _

theorem act_request {ρ : Type} {missing : ρ} {use : ObjectMetadata H → Outcome H ρ} {reply : ρ → Reply}
    (done : w.request p key missing use reply = some (w', r)) (plain : e.Plain)
    (handled : ∀ t, Handled p w e t (atKey key (accessEntry w.isValid missing use) t).2) : Act p w e w' r := by
  obtain ⟨free, same⟩ := onShard_map done
  cases same
  exact .store _ _ _ (.request e plain _ free _ (handled _))

theorem act_putStart {sliceLengths : List Nat} {config : ReplicateConfig}
    (done : w.putStart p key sliceLengths config = some (w', r)) :
    StoreAct p w (.putStart key sliceLengths config) w' := by
  unfold putStart at done
  split at done
  · cases done
    exact .still _ trivial
  split at done
  · cases done
    exact .still _ trivial
  obtain ⟨free, same⟩ := onShard_map done
  dsimp only at same
  split at same
  · rename_i empty
    cases same
    refine .reserve key sliceLengths config free _ (handled_findFree rfl) (fun m found => ?_)
    unfold findFree atKey at found empty
    cases was : (w.shards (p.getShardIndex key)).lookup key with
    | none =>
      simp only [was, elim_none, AList.lookup_erase] at found
      cases found
    | some m' =>
      simp only [was, elim_some, AList.lookup_insert] at found empty
      cases found
      exact List.isEmpty_iff.mp empty
  · cases same
    exact .request (.putStart key sliceLengths config) trivial _ free _ (handled_findFree rfl)

theorem act_putAdvance {choice : List Nat} (done : w.putAdvance p i choice = some (w', r)) :
    StoreAct p w (.putAdvance i choice) w' := by
  unfold putAdvance at done
  split at done
  · cases done
  rename_i task busy
  split at done
  · rename_i phase
    split at done
    · cases done
    · rename_i unlocked
      cases done
      exact .lock i choice task busy phase (by simpa using unlocked)
  · rename_i held op next phase
    obtain ⟨⟨heap, answer⟩, performed, same⟩ := map_eq_some_iff.mp done
    cases same
    exact .call i choice task held op next busy phase heap answer performed
  · rename_i held result phase
    obtain rfl := congrArg Prod.fst (some.inj done)
    exact .unlock i choice task held result busy phase
  · rename_i replicas phase
    obtain rfl := congrArg Prod.fst (some.inj done)
    exact .insert i choice task replicas busy phase

variable {id : Nat} {task : Task}

omit [BufferAllocatorBase A H] in
theorem spawn_eq (done : w.spawn id task = some (w', r)) :
    w.tasks.lookup id = none ∧ w' = w.setTask id task := by
  unfold spawn at done
  split at done
  · rename_i unused
    cases done
    exact ⟨isNone_iff_eq_none.mp unused, rfl⟩
  · cases done

theorem act_spawn (done : w.spawn id task = some (w', r)) (plain : e.Plain) (fresh : task.Fresh w)
    (none : task.tokens = 0) : Act p w e w' r := by
  obtain ⟨unused, rfl⟩ := spawn_eq done
  exact .store _ _ _ (.spawn e plain id task unused fresh none)

theorem act_evictAdvance {state : Eviction} (listed : w.tasks.lookup id = some (.evict state))
    (done : w.evictAdvance p id state = some (w', r)) : StoreAct p w (.advance id) w' := by
  unfold evictAdvance at done
  simp only at done
  split at done
  · rename_i i phase
    split at done
    · obtain ⟨free, same⟩ := onShard_map done
      cases same
      exact .move id _ _ listed _ free _ (handled_firstPass listed) (.evict _ _ (.first i _ phase))
    · cases done
      exact .plan id state _ listed .plan
  · rename_i i timeout n phase
    split at done
    · obtain ⟨free, same⟩ := onShard_map done
      cases same
      exact .move id _ _ listed _ free _ (handled_secondPassA listed phase _)
        (.evict _ _ (.passA i (i + 1) timeout n _ _ phase))
    · cases done
      exact .plan id state _ listed .finish
  · rename_i i timeout n phase
    split at done
    · obtain ⟨free, same⟩ := onShard_map done
      cases same
      exact .move id _ _ listed _ free _ (handled_secondPassB listed _) (.evict _ _ (.passB (i + 1) timeout _ _))
    · cases done
      exact .plan id state _ listed .finish
  · cases done
    exact .close id _ listed rfl _

theorem act_taskAdvance (listed : w.tasks.lookup id = some task) (done : w.taskAdvance p id task = some (w', r)) :
    Act p w (.advance id) w' r := by
  cases task with
  | unmount segment client dec next =>
    simp only [taskAdvance] at done
    split at done
    · rename_i below
      obtain ⟨free, same⟩ := onShard_map done
      cases same
      exact .store _ _ _ (.move id _ _ listed _ free _ (handled_clear (.unmount id segment client dec next rfl listed))
        (.unmount segment client dec next below ⟨free, rfl, rfl⟩))
    split at done
    · rename_i all free
      cases done
      exact .committed id segment client dec next free listed (Nat.le_of_not_lt all)
    · cases done
  | removeByRegex found next removed =>
    simp only [taskAdvance] at done
    split at done
    · obtain ⟨free, same⟩ := onShard_map done
      cases same
      exact .store _ _ _ (.move id _ _ listed _ free _ (handled_removeByRegex listed) (.removeByRegex found next removed _))
    · cases done
      exact .store _ _ _ (.close id _ listed rfl _)
  | removeAll now next removed =>
    simp only [taskAdvance] at done
    split at done
    · obtain ⟨free, same⟩ := onShard_map done
      cases same
      exact .store _ _ _ (.move id _ _ listed _ free _ (handled_removeAll listed) (.removeAll now next removed _))
    · cases done
      exact .store _ _ _ (.close id _ listed rfl _)
  | replicaListByRegex found next results =>
    simp only [taskAdvance] at done
    split at done
    · obtain ⟨free, same⟩ := onShard_map done
      cases same
      exact .store _ _ _ (.move id _ _ listed _ free _ (handled_replicaList listed)
        (.replicaListByRegex found next results _))
    · cases done
      exact .store _ _ _ (.close id _ listed rfl _)
  | evict state => exact .store _ _ _ (act_evictAdvance listed done)

theorem act_mountFinish (done : w.mountFinish = some (w', r)) : Act p w .mountFinish w' r := by
  unfold mountFinish at done
  split at done
  · cases done
  · rename_i segment client was
    simp only at done
    split at done
    · rename_i code
      cases done
      exact .mounted segment client was _ (fun _ => Or.inl code)
    · rename_i code
      cases done
      exact .mounted segment client was _ (fun _ => Or.inr code)
    · cases done
      exact .mounted segment client was _ (fun answer => (nomatch answer))
  · rename_i segments client was
    simp only at done
    split at done
    · rename_i code
      cases done
      exact .reMounted segments client was code _ rfl
    · cases done
      exact .rejected segments client was _

theorem act_unmountSegment {segment client : UUID} (done : w.unmountSegment id segment client = some (w', r)) :
    Act p w (.unmountSegment id segment client) w' r := by
  unfold unmountSegment at done
  split at done
  · rename_i guard
    rw [Bool.and_eq_true] at guard
    obtain ⟨missing, outcome⟩ | ⟨s, found, leaving, outcome⟩ | ⟨s, found, status, outcome⟩ :=
      w.segments.prepareUnmountSegment_cases segment
    · rw [outcome] at done
      cases done
      exact .refuse id segment client _ (fun s found => nomatch missing.symm.trans found)
    · rw [outcome] at done
      cases done
      refine .refuse id segment client _ (fun s' found' => ?_)
      cases found.symm.trans found'
      exact leaving
    · rw [outcome] at done
      cases done
      exact .prepared id segment client s guard.1 (isNone_iff_eq_none.mp guard.2) found status
  · cases done

theorem act_monitorAdvance {order : List UUID} (done : w.monitorAdvance p order = some (w', r)) :
    Act p w (.monitor order) w' r := by
  unfold monitorAdvance at done
  split at done
  · rename_i was
    cases done
    exact .store _ _ _ (.wake order was)
  · rename_i now was
    split at done
    · rename_i client rest queue
      cases done
      exact .drained order now client rest _ was queue
    · split at done
      · rename_i distinct
        split at done
        · rename_i all
          cases done
          refine .collected order now was _ _ (fun client known => ?_)
          obtain ⟨deadline, found⟩ := isSome_iff_exists.mp known
          rw [← Table.lookup_reorder w.clientTtl distinct all] at found
          refine Table.sweep_records (R := fun expired client => client ∈ expired) _ ?_ ?_ [] _ found
          · intro expired client deadline dropped
            split at dropped
            · rename_i late
              rw [if_pos late]
              exact List.mem_append_right _ (List.mem_singleton_self client)
            · cases dropped
          · intro expired client deadline other member
            split
            · exact List.mem_append_left _ member
            · exact member
        · cases done
      · cases done
  · rename_i clients was
    split at done
    · rename_i free
      cases done
      exact .expired order clients was free _
    · cases done
  · rename_i commits next was
    split at done
    · rename_i below
      obtain ⟨free, same⟩ := onShard_map done
      cases same
      exact .store _ _ _ (.sweep order commits next below was free (handled_clear (.expiry order commits next rfl was)))
    split at done
    · rename_i all free
      cases done
      exact .finished order commits next (Nat.le_of_not_lt all) free was
    · cases done

theorem exec_act (done : w.exec p e = some (w', r)) : Act p w e w' r := by
  cases e with
  | tick nanos =>
    cases done
    exact .store _ _ _ (.tick nanos)
  | rehash i order =>
    simp only [exec] at done
    split at done
    · rename_i distinct
      split at done
      · rename_i all
        cases done
        exact .store _ _ _ (.rehash i order _ (Table.reorder_perm _ distinct all))
      · cases done
    · cases done
  | mountSegment segment client pushed =>
    simp only [exec] at done
    split at done
    · rename_i free
      split at done <;> cases done
      · exact .begin (.mountSegment segment client _) trivial _ client (.inl ⟨segment, rfl⟩) free
      · exact .store _ _ _ (.still _ trivial)
    · cases done
  | reMountSegment segments client pushed =>
    simp only [exec] at done
    split at done
    · split at done
      · cases done
        exact .store _ _ _ (.still _ trivial)
      split at done
      · rename_i free
        split at done <;> cases done
        · exact .begin (.reMountSegment segments client _) trivial _ client (.inr ⟨segments, rfl⟩) free
        · exact .store _ _ _ (.still _ trivial)
      · cases done
    · cases done
  | mountFinish => exact act_mountFinish done
  | unmountSegment id segment client => exact act_unmountSegment done
  | ping client pushed =>
    simp only [exec] at done
    split at done
    · split at done
      · rename_i pushed
        subst pushed
        cases done
        exact .ping client _
      · cases done
        exact .store _ _ _ (.still _ trivial)
    · cases done
  | existKey key => exact act_request done trivial (fun _ => handled_existKey rfl)
  | getReplicaList key => exact act_request done trivial (fun _ => handled_getReplicaList rfl)
  | getReplicaListByRegex id pattern =>
    simp only [exec] at done
    split at done
    · cases done
      exact .store _ _ _ (.still _ trivial)
    · exact act_spawn done trivial rfl rfl
  | putStart key sliceLengths config => exact .store _ _ _ (act_putStart done)
  | putAdvance i choice => exact .store _ _ _ (act_putAdvance done)
  | putEnd key type => exact act_request done trivial (fun _ => handled_putEnd rfl)
  | putRevoke key type => exact act_request done trivial (fun _ => handled_putRevoke rfl)
  | remove key => exact act_request done trivial (fun _ => handled_remove rfl)
  | removeByRegex id pattern =>
    simp only [exec] at done
    split at done
    · cases done
      exact .store _ _ _ (.still _ trivial)
    · exact act_spawn done trivial rfl rfl
  | removeAll id => exact act_spawn done trivial ⟨rfl, rfl⟩ rfl
  | batchEvict id target lowerbound startIdx => exact act_spawn done trivial ⟨target, lowerbound, startIdx, rfl⟩ rfl
  | advance id =>
    simp only [exec] at done
    split at done
    · cases done
    · rename_i task listed
      exact act_taskAdvance listed done
  | monitor order => exact act_monitorAdvance done

end World
end Mooncake.Master
