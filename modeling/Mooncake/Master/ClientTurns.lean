import Mooncake.Master.SegmentSystem

/-! What one event does to the clients: the ping queue, the deadlines of the monitor, the
clients it has found expired, `ok_client_`, and the segments mounted for them. -/
namespace Mooncake.Master
open SegmentManager
variable {A H : Type}

def MountTask.client : MountTask → UUID
  | .mount _ client => client
  | .reMount _ client => client

def MonitorPhase.expiredClients : MonitorPhase → List UUID
  | .expiring clients => clients
  | _ => []

/-- The phase after the deadlines have been looked at. -/
theorem late_phase (late : List UUID) : (if late.isEmpty then MonitorPhase.sleeping else .expiring late).tokens = 0 ∧
    (if late.isEmpty then MonitorPhase.sleeping else .expiring late).expiredClients = late := by
  cases late <;> exact ⟨rfl, rfl⟩

theorem Event.Plain.ne_mountFinish {e : Event} (plain : e.Plain) : e ≠ .mountFinish := by
  rintro rfl
  exact plain

structure World.SameClients (w w' : World A H) : Prop where
  segments : w.SameSegments w'
  okClient : w'.okClient = w.okClient
  queue : w'.clientPingQueue = w.clientPingQueue
  ttl : w'.clientTtl = w.clientTtl
  expired : w'.monitor.expiredClients = w.monitor.expiredClients

variable [BufferAllocatorBase A H]

namespace World
variable {p : Params} {w w' : World A H} {e : Event}

theorem store_clients (act : StoreAct p w e w') : w.SameClients w' ∧ e.Plain := by
  have segments := store_segments act
  cases act with
  | still e plain | request e plain | spawn e plain => exact ⟨⟨segments, rfl, rfl, rfl, rfl⟩, plain⟩
  | tick | rehash | reserve | lock | call | move | plan | close => exact ⟨⟨segments, rfl, rfl, rfl, rfl⟩, trivial⟩
  | unlock =>
    refine ⟨⟨segments, ?_, ?_, ?_, ?_⟩, trivial⟩ <;> (unfold putUnlock; simp only; split <;> rfl)
  | insert =>
    refine ⟨⟨segments, ?_, ?_, ?_, ?_⟩, trivial⟩ <;> (unfold putInsert; simp only; split <;> rfl)
  | wake order was | sweep order commits next below was =>
    refine ⟨⟨segments, rfl, rfl, rfl, ?_⟩, trivial⟩
    rw [was]
    rfl

end World
end Mooncake.Master
