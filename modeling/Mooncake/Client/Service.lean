import Mooncake.Master.Allotment
import Mooncake.Client.Finalize

/-! The master behind the client. What `MasterClient` answers comes from a master in some state
that it can be in, or says that the call failed. -/
namespace Mooncake.Client
open Master (ErrorCode HandedOut ReplicaDescriptor ReplicateConfig World)

/-- The sizes that `BatchPutStart` of the master asks for: one buffer for all slices on the path
for one node. The sum is a `size_t`. -/
def allocSliceLens (config : ReplicateConfig) (sliceLens : List Nat) : List Nat :=
  if config.preferAllocInSameNode then [sliceLens.foldl (fun sum n => (sum + n) % 2 ^ 64) 0] else sliceLens

def EndAnswered (result : Except ErrorCode Unit) : Prop :=
  ∃ (A H : Type) (_ : Master.BufferAllocatorBase A H) (p : Master.Params) (w w' : World A H) (key : String),
    w.exec p (.putEnd key .memory) = some (w', .void result)

def ListAnswered (replicas : List ReplicaDescriptor) : Prop :=
  ∃ (A H : Type) (_ : Master.BufferAllocatorBase A H) (p : Master.Params) (w w' : World A H) (key : String),
    w.exec p (.getReplicaList key) = some (w', .replicas (.ok replicas))

structure MasterClient.Served (m : MasterClient) : Prop where
  startSize : ∀ keys lengths config, (m.batchPutStart keys lengths config).length = keys.length
  endSize : ∀ keys, (m.batchPutEnd keys).length = keys.length
  revokeSize : ∀ keys, (m.batchPutRevoke keys).length = keys.length
  started : ∀ key lengths config replicas, m.putStart key lengths config = .ok replicas →
    HandedOut key lengths config replicas
  batchStarted : ∀ keys lengths config (i : Nat) replicas,
    (m.batchPutStart keys lengths config)[i]? = some (.ok replicas) →
      ∃ key sliceLens preferredSegment, keys[i]? = some key ∧ lengths[i]? = some sliceLens ∧
        HandedOut key (allocSliceLens config sliceLens) { config with preferredSegment := preferredSegment } replicas
  ended : ∀ keys, ∀ result ∈ m.batchPutEnd keys, result = .error .rpcFail ∨ EndAnswered result

theorem EndAnswered.ne_exists {result : Except ErrorCode Unit} (answered : EndAnswered result) :
    result ≠ .error .objectAlreadyExists := by
  obtain ⟨A, H, _, p, w, w', key, done⟩ := answered
  obtain ⟨same, -⟩ := World.request_entry done
  rw [Master.Reply.void.injEq] at same
  rw [same]
  unfold Master.accessEntry
  split
  · nofun
  · simp only
    split
    · nofun
    · nofun

variable {replicas : List ReplicaDescriptor}

theorem ListAnswered.complete (answered : ListAnswered replicas) :
    replicas ≠ [] ∧ ∀ r ∈ replicas, r.status = .complete := by
  obtain ⟨A, H, _, p, w, w', key, done⟩ := answered
  obtain ⟨same, -⟩ := World.request_entry done
  rw [Master.Reply.replicas.injEq] at same
  unfold Master.accessEntry at same
  split at same
  · cases same
  next m _ =>
    simp only at same
    split at same
    · cases same
    · unfold Master.ObjectMetadata.getReplicaList at same
      split at same
      · cases same
      next some_complete =>
        cases Except.ok.inj same
        refine ⟨by simpa using some_complete, fun r member => ?_⟩
        obtain ⟨replica, listed, rfl⟩ := List.mem_map.mp member
        have complete : replica.status = .complete := by simpa using (List.mem_filter.mp listed).2
        unfold Master.Replica.getDescriptor
        split <;> exact complete

theorem handedOut_memory {key : String} {sizes : List Nat} {config : ReplicateConfig}
    (handed : HandedOut key sizes config replicas) :
    ∃ handle more status rest, replicas = .memory (handle :: more) status :: rest := by
  obtain ⟨slices, memory, disk, rfl, some_replica, -, sized, -⟩ := handed.allotment
  cases memory with
  | nil => exact absurd rfl some_replica
  | cons r others =>
    obtain ⟨handles, rfl, sizes⟩ := sized r List.mem_cons_self
    cases handles with
    | nil => exact absurd sizes.symm slices
    | cons handle more => exact ⟨handle, more, _, _, rfl⟩

theorem MasterClient.Served.sound {m : MasterClient} (served : m.Served) : m.Sound where
  startSize := served.startSize
  endSize := served.endSize
  revokeSize := served.revokeSize
  startMemory := by
    intro keys lengths config replicas started
    obtain ⟨i, inside, at_i⟩ := List.getElem_of_mem started
    obtain ⟨key, sliceLens, preferred, -, -, handed⟩ :=
      served.batchStarted keys lengths config i replicas (List.getElem?_eq_some_iff.mpr ⟨inside, at_i⟩)
    exact handedOut_memory handed
  endError := by
    intro keys answered
    rcases served.ended keys _ answered with failed | ended
    · cases failed
    · exact ended.ne_exists rfl

end Mooncake.Client
