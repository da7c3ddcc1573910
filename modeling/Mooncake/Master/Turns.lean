import Mooncake.Master.Acts

/-! What one event does to the shards, the puts in flight and the buffers, said once for
all events. Everything that is not listed for a kind of turn is unchanged by it. -/
namespace Mooncake.Master
open Function
variable {A H : Type}

structure World.SameStore (w w' : World A H) : Prop where
  busy : w'.busy = w.busy
  live : w'.heap.live = w.heap.live
  nextBuffer : w'.heap.nextBuffer = w.heap.nextBuffer
  nextObject : w'.nextObject = w.nextObject
  readers : w'.segmentReaders = w.segmentReaders

def Locks (p : Params) (w : World A H) (e : Event) (w' : World A H) (i : Fin kNumShards) : Prop :=
  w'.busy = w.busy ∨
    ∃ key sliceLengths config, e = .putStart key sliceLengths config ∧
      w'.busy = update w.busy i (some ⟨key, sliceLengths, config, .locked⟩) ∧
      p.getShardIndex key = i ∧ ∀ m, (w'.shards i).lookup key = some m → m.replicas = []

variable [BufferAllocatorBase A H]

inductive Turn (p : Params) (w : World A H) (e : Event) (w' : World A H) : Prop
  | quiet (same : w.SameStore w') (shards : w'.shards = w.shards)
  | reordered (i : Fin kNumShards) (t : Shard H) (perm : t.entries.Perm (w.shards i).entries)
      (same : w.SameStore w') (shards : w'.shards = update w.shards i t)
  | critical (i : Fin kNumShards) (free : w.busy i = none) (t : Shard H) (gs : List (Garbage H))
      (swept : Swept p w e (w.shards i) t gs) (shards : w'.shards = update w.shards i t)
      (heap : w'.heap = w.heap.collectAll w.isValid gs) (locks : Locks p w e w' i)
      (nextObject : w'.nextObject = w.nextObject) (readers : w'.segmentReaders = w.segmentReaders)
      (segments : w'.segments = w.segments)
  | lock (i : Fin kNumShards) (task : PutTask H) (busy : w.busy i = some task) (phase : task.phase = .locked)
      (unlocked : w.mounting = none)
      (after : w' = { w.setPut i (some { task with phase := .allocating [] (allocateReplicas
        ⟨w.segments.allocators, w.segments.allocatorsByName, task.config⟩ task.sliceLengths) }) with
          segmentReaders := i :: w.segmentReaders })
  | call (i : Fin kNumShards) (task : PutTask H) (held : List (AllocatedBuffer H)) (op : AllocOp H)
      (next : op.Answer → AllocProgram H (Except ErrorCode (List (Replica H)))) (busy : w.busy i = some task)
      (phase : task.phase = .allocating held (.call op next)) (choice : List Nat) (heap : Heap A) (answer : op.Answer)
      (performed : w.heap.perform w.isValid choice op = some (heap, answer))
      (after : w' = { w.setPut i (some { task with phase := .allocating (op.track held answer) (next answer) }) with
        heap := heap })
  | unlock (i : Fin kNumShards) (task : PutTask H) (held : List (AllocatedBuffer H))
      (result : Except ErrorCode (List (Replica H))) (busy : w.busy i = some task)
      (phase : task.phase = .allocating held (.done result)) (after : w' = (w.putUnlock p i task result).1)
  | insert (i : Fin kNumShards) (choice : List Nat) (task : PutTask H) (replicas : List (Replica H))
      (asked : e = .putAdvance i choice) (busy : w.busy i = some task)
      (phase : task.phase = .inserting replicas) (after : w' = (w.putInsert i task replicas).1)

namespace World
variable {p : Params} {w w' : World A H} {e : Event} {r : Reply}

theorem turn_quiet (busy : w'.busy = w.busy) (live : w'.heap.live = w.heap.live)
    (nextBuffer : w'.heap.nextBuffer = w.heap.nextBuffer) (nextObject : w'.nextObject = w.nextObject)
    (readers : w'.segmentReaders = w.segmentReaders) (shards : w'.shards = w.shards) : Turn p w e w' :=
  .quiet ⟨busy, live, nextBuffer, nextObject, readers⟩ shards

theorem turn_store (act : StoreAct p w e w') : Turn p w e w' := by
  cases act with
  | still | tick | spawn | plan | close | wake => exact turn_quiet rfl rfl rfl rfl rfl rfl
  | rehash i order t perm => exact .reordered i t perm ⟨rfl, rfl, rfl, rfl, rfl⟩ rfl
  | request e plain i free out handled =>
    exact .critical i free _ _ handled.swept rfl rfl (Or.inl rfl) rfl rfl rfl
  | reserve key sliceLengths config free out handled empty =>
    refine .critical _ free _ _ handled.swept rfl rfl (Or.inr ⟨key, sliceLengths, config, rfl, rfl, rfl, ?_⟩) rfl rfl rfl
    simpa only [setPut, cut, update_self] using empty
  | lock i choice task busy phase unlocked => exact .lock i task busy phase unlocked rfl
  | call i choice task held op next busy phase heap answer performed =>
    exact .call i task held op next busy phase choice heap answer performed rfl
  | unlock i choice task held result busy phase => exact .unlock i task held result busy phase rfl
  | insert i choice task replicas busy phase => exact .insert i choice task replicas rfl busy phase rfl
  | move id task task' listed i free out handled =>
    exact .critical i free _ _ handled.swept rfl rfl (Or.inl rfl) rfl rfl rfl
  | sweep order commits next below was free handled =>
    exact .critical _ free _ _ handled.swept rfl rfl (Or.inl rfl) rfl rfl rfl

end World

/-! A mount touches no buffer. -/

theorem mountSegment_live (m : SegmentManager) (h : Heap A) (segment : Segment) (client : UUID) :
    (m.mountSegment h segment client).2.1.live = h.live ∧
      (m.mountSegment h segment client).2.1.nextBuffer = h.nextBuffer := by
  obtain ⟨code, -, outcome⟩ | ⟨a, -, outcome⟩ := m.mountSegment_cases h segment client
  · rw [outcome]
    exact ⟨rfl, rfl⟩
  · rw [outcome]
    exact ⟨rfl, rfl⟩

theorem reMountSegment_live (m : SegmentManager) (h : Heap A) (segments : List Segment) (client : UUID) :
    (m.reMountSegment h client segments).2.1.live = h.live ∧
      (m.reMountSegment h client segments).2.1.nextBuffer = h.nextBuffer := by
  refine SegmentManager.reMountSegment_keeps (P := fun _ h' => h'.live = h.live ∧ h'.nextBuffer = h.nextBuffer) client ?_
    segments m h ⟨rfl, rfl⟩
  intro m' h' segment same
  obtain ⟨live, next⟩ := mountSegment_live m' h' segment client
  exact ⟨live.trans same.1, next.trans same.2⟩

theorem commitAll_live (state : SegmentManager × Heap A) (commits : List (UUID × UUID × Nat)) :
    (World.commitAll state commits).2.live = state.2.live ∧
      (World.commitAll state commits).2.nextBuffer = state.2.nextBuffer := by
  induction commits generalizing state with
  | nil => exact ⟨rfl, rfl⟩
  | cons commit commits ih => exact ih _

namespace World
variable {p : Params} {w w' : World A H} {e : Event} {r : Reply}

theorem exec_turn (done : w.exec p e = some (w', r)) : Turn p w e w' := by
  cases exec_act done with
  | store e w' r act => exact turn_store act
  | refuse | ping | begin | prepared | committed | drained | collected | expired => exact turn_quiet rfl rfl rfl rfl rfl rfl
  | mounted segment client =>
    obtain ⟨live, next⟩ := mountSegment_live w.segments w.heap segment client
    exact turn_quiet rfl live next rfl rfl rfl
  | reMounted segments client was code heap after =>
    obtain ⟨live, next⟩ := reMountSegment_live w.segments w.heap segments client
    subst after
    exact turn_quiet rfl live next rfl rfl rfl
  | rejected segments client =>
    obtain ⟨live, next⟩ := reMountSegment_live w.segments w.heap segments client
    exact turn_quiet rfl live next rfl rfl rfl
  | finished order commits =>
    obtain ⟨live, next⟩ := commitAll_live (w.segments, w.heap) commits
    exact turn_quiet rfl live next rfl rfl rfl

end World
end Mooncake.Master
