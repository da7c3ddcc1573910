import Mooncake.Master.SegmentTurns

/-! What one event does to the clock, the requests over all shards and the monitor, and what
such a request learns of the shards on its way. -/
namespace Mooncake.Master
variable {A H : Type}

def Task.Over : Task → Prop
  | .unmount _ _ _ next => kNumShards ≤ next
  | _ => True

inductive MonitorMoves (w w' : World A H) : MonitorPhase → MonitorPhase → Prop
  | idle (before after : MonitorPhase) (none : before.tokens = 0) (still : after.tokens = 0) : MonitorMoves
    w w' before after
  | expired (clients : List UUID) :
      MonitorMoves w w' (.expiring clients) (if (World.expireClients clients (w.segments, [])).2.isEmpty then .sleeping
        else .sweeping (World.expireClients clients (w.segments, [])).2 0)
  | swept (commits : List (UUID × UUID × Nat)) (next : Nat) (below : next < kNumShards)
      (cleared : Cleared w w' ⟨next, below⟩) : MonitorMoves w w' (.sweeping commits next) (.sweeping commits (next + 1))
  | finished (commits : List (UUID × UUID × Nat)) (next : Nat) (all : kNumShards ≤ next) :
      MonitorMoves w w' (.sweeping commits next) .sleeping

inductive TaskTurn (p : Params) (w w' : World A H) : Prop
  | same (tasks : w'.tasks = w.tasks) (monitor : w'.monitor = w.monitor) (clock : w.clock ≤ w'.clock)
  | spawned (id : Nat) (task : Task) (unused : w.tasks.lookup id = none) (fresh : task.Fresh w)
      (tasks : w'.tasks = w.tasks.insert id task) (monitor : w'.monitor = w.monitor) (clock : w'.clock = w.clock)
  | moved (id : Nat) (task task' : Task) (listed : w.tasks.lookup id = some task) (moves : task.Moves p w w' task')
      (tasks : w'.tasks = w.tasks.insert id task') (monitor : w'.monitor = w.monitor) (clock : w'.clock = w.clock)
  | ended (id : Nat) (task : Task) (listed : w.tasks.lookup id = some task) (ceased : task.Over)
      (tasks : w'.tasks = w.tasks.erase id) (monitor : w'.monitor = w.monitor) (clock : w'.clock = w.clock)
  | watched (moves : MonitorMoves w w' w.monitor w'.monitor) (tasks : w'.tasks = w.tasks) (clock : w'.clock = w.clock)

namespace World
variable [BufferAllocatorBase A H] {p : Params} {w w' : World A H} {e : Event} {r : Reply}

theorem store_tasks (act : StoreAct p w e w') : TaskTurn p w w' := by
  cases act with
  | still | rehash | request | reserve | lock | call => exact .same rfl rfl (le_refl _)
  | tick nanos => exact .same rfl rfl (Int.le_add_of_nonneg_right (Int.natCast_nonneg nanos))
  | unlock i choice task held result =>
    unfold putUnlock
    split <;> exact .same rfl rfl (le_refl _)
  | insert i choice task replicas =>
    unfold putInsert
    simp only
    split <;> exact .same rfl rfl (le_refl _)
  | spawn e plain id task unused fresh => exact .spawned id task unused fresh rfl rfl rfl
  | move id task task' listed i free out handled moves => exact .moved id task task' listed moves rfl rfl rfl
  | plan id state state' listed moves => exact .moved id _ _ listed (.evict state state' moves) rfl rfl rfl
  | close id task listed none =>
    refine .ended id task listed ?_ rfl rfl rfl
    cases task with
    | unmount => exact absurd none (Multiset.singleton_ne_zero _)
    | removeByRegex | removeAll | replicaListByRegex | evict => trivial
  | wake order was => exact .watched (was ▸ .idle _ _ rfl rfl) rfl rfl
  | sweep order commits next below was free => exact .watched (was ▸ .swept commits next below ⟨free, rfl, rfl⟩) rfl rfl

theorem exec_tasks (done : w.exec p e = some (w', r)) : TaskTurn p w w' := by
  cases exec_act done with
  | store e w' r act => exact store_tasks act
  | refuse | ping | begin | mounted | reMounted | rejected => exact .same rfl rfl (le_refl _)
  | prepared id segment client s free unused => exact .spawned id (.unmount segment client _ 0) unused rfl rfl rfl rfl
  | committed id segment client dec next free listed all => exact .ended id _ listed all rfl rfl rfl
  | drained order now client rest deadline was => exact .watched (was ▸ .idle _ _ rfl rfl) rfl rfl
  | collected order now was ttl late =>
    refine .watched (was ▸ .idle _ _ rfl ?_) rfl rfl
    split <;> rfl
  | expired order clients was => exact .watched (was ▸ .expired clients) rfl rfl
  | finished order commits next all free was => exact .watched (was ▸ .finished commits next all) rfl rfl

end World
end Mooncake.Master
