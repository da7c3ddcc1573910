import Mooncake.Master.Turns

/-! What one event does to the segments and to the unmounts in progress, said once for all
events. `Heap.index` is the part of the heap that the segments depend on. -/
namespace Mooncake.Master
open World
variable {A H : Type} (h : Heap A)

def Heap.index : List (UUID × UUID) × Nat × BitVec 64 :=
  (h.origin, h.objects.length, h.metrics.totalMemCapacity)

section Index
variable [BufferAllocatorBase A H] (valid : Nat → Bool)

theorem Heap.destroy_index (b : AllocatedBuffer H) : (h.destroy valid b).index = h.index := by
  simp only [Heap.index, Heap.destroy]
  split
  · rw [List.length_modify]
  · rfl

theorem Heap.destroyAll_index (bs : List (AllocatedBuffer H)) : (h.destroyAll valid bs).index = h.index := by
  induction bs generalizing h with
  | nil => rfl
  | cons b bs ih => exact (ih (h.destroy valid b)).trans (h.destroy_index valid b)

theorem Heap.collect_index (g : Garbage H) : (h.collect valid g).index = h.index := by
  cases g with
  | replica r => exact h.destroyAll_index valid r.buffers
  | object m => exact (h.uncountObject m).destroyAll_index valid m.buffers

theorem Heap.collectAll_index (gs : List (Garbage H)) : (h.collectAll valid gs).index = h.index := by
  induction gs generalizing h with
  | nil => rfl
  | cons g gs ih => exact (ih (h.collect valid g)).trans (h.collect_index valid g)

theorem Heap.allocate_index (id size : Nat) : (h.allocate id size).1.index = h.index := by
  unfold Heap.allocate
  split
  · rfl
  · simp only
    split <;> simp only [Heap.index, List.length_set]

theorem Heap.perform_index {valid : Nat → Bool} {h h' : Heap A} {choice : List Nat} {op : AllocOp H}
    {answer : op.Answer} (done : h.perform valid choice op = some (h', answer)) : h'.index = h.index := by
  cases op with
  | getSegmentName a =>
    cases done
    rfl
  | getLargestFreeRegion a =>
    cases done
    rfl
  | allocate a size =>
    have same : (h.allocate a size).1 = h' := congrArg Prod.fst (Option.some.inj done)
    rw [← same]
    exact h.allocate_index a size
  | shuffle indices =>
    simp only [Heap.perform] at done
    split at done
    · cases done
      rfl
    · cases done
  | destroy b =>
    cases done
    exact h.destroy_index valid b

end Index

def MonitorPhase.tokens : MonitorPhase → Multiset (UUID × UUID × Nat)
  | .sweeping commits _ => commits
  | _ => 0

def World.tokens (w : World A H) : Multiset (UUID × UUID × Nat) :=
  Table.total (fun _ task => task.tokens) w.tasks + w.monitor.tokens

variable {w : World A H}

theorem setTask_tokens {id : Nat} {task task' : Task} (listed : w.tasks.lookup id = some task)
    (same : task'.tokens = task.tokens) : (w.setTask id task').tokens = w.tokens := by
  simp only [tokens, setTask, Table.total_insert, Table.total_erase _ listed, same]

theorem newTask_tokens {id : Nat} {task : Task} (free : w.tasks.lookup id = none) :
    (w.setTask id task).tokens = task.tokens + w.tokens := by
  simp only [tokens, setTask, Table.total_insert_new _ free, add_assoc]

theorem endTask_tokens {id : Nat} {task : Task} (listed : w.tasks.lookup id = some task) :
    w.tokens = task.tokens + (w.endTask id).tokens := by
  simp only [tokens, endTask, Table.total_erase _ listed, add_assoc]

structure World.SameSegments (w w' : World A H) : Prop where
  segments : w'.segments = w.segments
  index : w'.heap.index = w.heap.index
  mounting : w'.mounting = w.mounting
  tokens : w'.tokens = w.tokens

variable [BufferAllocatorBase A H]

inductive SegmentTurn (w w' : World A H) : Prop
  | same (same : w.SameSegments w')
  | begin (task : MountTask) (free : w.segmentFree = true) (segments : w'.segments = w.segments)
      (index : w'.heap.index = w.heap.index) (mounting : w'.mounting = some task) (tokens : w'.tokens = w.tokens)
  | mounted (segment : Segment) (client : UUID) (was : w.mounting = some (.mount segment client))
      (segments : w'.segments = (w.segments.mountSegment w.heap segment client).1)
      (index : w'.heap.index = (w.segments.mountSegment w.heap segment client).2.1.index)
      (mounting : w'.mounting = none) (tokens : w'.tokens = w.tokens)
  | reMounted (segments : List Segment) (client : UUID) (was : w.mounting = some (.reMount segments client))
      (result : w'.segments = (w.segments.reMountSegment w.heap client segments).1)
      (index : w'.heap.index = (w.segments.reMountSegment w.heap client segments).2.1.index)
      (mounting : w'.mounting = none) (tokens : w'.tokens = w.tokens)
  | prepared (id : Nat) (segment client : UUID) (s : MountedSegment) (free : w.segmentFree = true)
      (unused : w.tasks.lookup id = none) (found : w.segments.mountedSegments.lookup segment = some s)
      (status : s.status ≠ .unmounting)
      (after : w' = { w with segments := w.segments.dropAllocator segment s }.setTask id
        (.unmount segment client s.segment.size 0))
  | committed (id : Nat) (segment client : UUID) (dec next : Nat) (free : w.segmentFree = true)
      (listed : w.tasks.lookup id = some (.unmount segment client dec next)) (all : kNumShards ≤ next)
      (after : w' = { w.endTask id with
        segments := (w.segments.commitUnmountSegment w.heap segment client dec).1
        heap := (w.segments.commitUnmountSegment w.heap segment client dec).2 })
  | expired (clients : List UUID) (was : w.monitor = .expiring clients) (free : w.segmentFree = true)
      (segments : w'.segments = (World.expireClients clients (w.segments, [])).1)
      (index : w'.heap.index = w.heap.index) (mounting : w'.mounting = w.mounting)
      (tasks : w'.tasks = w.tasks)
      (monitor : w'.monitor = if (World.expireClients clients (w.segments, [])).2.isEmpty then .sleeping
        else .sweeping (World.expireClients clients (w.segments, [])).2 0)
  | finished (commits : List (UUID × UUID × Nat)) (next : Nat) (was : w.monitor = .sweeping commits next)
      (all : kNumShards ≤ next) (free : w.segmentFree = true)
      (segments : w'.segments = (World.commitAll (w.segments, w.heap) commits).1)
      (heap : w'.heap = (World.commitAll (w.segments, w.heap) commits).2) (mounting : w'.mounting = w.mounting)
      (tasks : w'.tasks = w.tasks) (monitor : w'.monitor = .sleeping)

namespace World
variable {p : Params} {w w' : World A H} {e : Event} {r : Reply}

omit [BufferAllocatorBase A H] in
theorem putUnlock_segments (i : Fin kNumShards) (task : PutTask H) (result : Except ErrorCode (List (Replica H))) :
    w.SameSegments (w.putUnlock p i task result).1 := by
  unfold putUnlock
  simp only
  split <;> exact ⟨rfl, rfl, rfl, rfl⟩

theorem putInsert_segments (i : Fin kNumShards) (task : PutTask H) (replicas : List (Replica H)) :
    w.SameSegments (w.putInsert i task replicas).1 := by
  unfold putInsert
  simp only
  split
  · exact ⟨rfl, rfl, rfl, rfl⟩
  · exact ⟨rfl, Heap.collect_index _ _ _, rfl, rfl⟩

theorem store_segments (act : StoreAct p w e w') : w.SameSegments w' := by
  cases act with
  | still | tick | rehash | lock => exact ⟨rfl, rfl, rfl, rfl⟩
  | request | reserve => exact ⟨rfl, w.heap.collectAll_index _ _, rfl, rfl⟩
  | call i choice task held op next busy phase heap answer performed => exact ⟨rfl, Heap.perform_index performed, rfl, rfl⟩
  | unlock i choice task held result => exact putUnlock_segments i task result
  | insert i choice task replicas => exact putInsert_segments i task replicas
  | spawn e plain id task unused fresh none =>
    refine ⟨rfl, rfl, rfl, ?_⟩
    rw [newTask_tokens unused, none, zero_add]
  | move id task task' listed i free out handled moves =>
    exact ⟨rfl, w.heap.collectAll_index _ _, rfl, setTask_tokens (w := w) listed moves.tokens⟩
  | plan id state state' listed => exact ⟨rfl, rfl, rfl, setTask_tokens listed rfl⟩
  | close id task listed none =>
    refine ⟨rfl, rfl, rfl, ?_⟩
    rw [endTask_tokens listed, none, zero_add]
    rfl
  | wake order was =>
    refine ⟨rfl, rfl, rfl, ?_⟩
    simp only [tokens, was, MonitorPhase.tokens]
  | sweep order commits next below was =>
    refine ⟨rfl, w.heap.collectAll_index _ _, rfl, ?_⟩
    simp only [tokens, cut, was, MonitorPhase.tokens]

theorem exec_segments (done : w.exec p e = some (w', r)) : SegmentTurn w w' := by
  cases exec_act done with
  | store e w' r act => exact .same (store_segments act)
  | refuse | ping | drained => exact .same ⟨rfl, rfl, rfl, rfl⟩
  | begin e plain task client named free => exact .begin task free rfl rfl rfl rfl
  | mounted segment client was => exact .mounted segment client was rfl rfl rfl rfl
  | reMounted segments client was code heap after => exact .reMounted segments client was rfl (after ▸ rfl) rfl rfl
  | rejected segments client was => exact .reMounted segments client was rfl rfl rfl rfl
  | prepared id segment client s free unused found status =>
    exact .prepared id segment client s free unused found status rfl
  | committed id segment client dec next free listed all => exact .committed id segment client dec next free listed all rfl
  | collected order now was ttl late =>
    refine .same ⟨rfl, rfl, rfl, ?_⟩
    simp only [tokens, was]
    split <;> rfl
  | expired order clients was free => exact .expired clients was free rfl rfl rfl rfl rfl
  | finished order commits next all free was => exact .finished commits next was all free rfl rfl rfl rfl rfl

end World
end Mooncake.Master
