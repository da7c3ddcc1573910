import Mooncake.P2PStore.Listed

/-! What a change of the stored payload leaves of the other stores. -/
namespace Mooncake.P2PStore

/-! ## A payload after an update -/

structure Revises (i : String) (payload payload' : Payload) : Prop where
  width : payload'.maxShardSize = payload.maxShardSize
  sizeList : payload'.sizeList = payload.sizeList
  lengths : payload'.shards.map Shard.length = payload.shards.map Shard.length
  places : ∀ (k : Nat) (shard' : Shard), payload'.shards[k]? = some shard' → ∃ shard, payload.shards[k]? = some shard ∧
    ∀ location, location.segmentName ≠ i → (location ∈ shard'.gold → location ∈ shard.gold) ∧
      (location ∈ shard'.replicaList → location ∈ shard.replicaList)

theorem revises_removal (i : String) (removal : Removal) (payload : Payload) :
    Revises i payload (removal.apply i payload) := by
  cases removal with
  | unregister =>
    refine ⟨rfl, rfl, by simp [Removal.apply, Payload.clearGold], fun k shard' at_ => ?_⟩
    obtain ⟨shard, found, rfl⟩ := shard_clearGold at_
    exact ⟨shard, found, fun _ _ => ⟨fun none => (by cases none), id⟩⟩
  | deleteReplica =>
    refine ⟨rfl, rfl, by simp [Removal.apply, Payload.dropReplicas], fun k shard' at_ => ?_⟩
    obtain ⟨shard, found, gold, replicas⟩ := shard_dropReplicas at_
    exact ⟨shard, found, fun location _ => ⟨(gold ▸ ·), fun member => (replicas location member).1⟩⟩

theorem revises_appendReplicas {i : String} {a n : Nat} {payload payload' : Payload}
    (appended : payload.appendReplicas i [(a, n)] = some payload') : Revises i payload payload' := by
  obtain ⟨width, sizeList, lengths, places⟩ := appendReplicas_spec appended
  refine ⟨width, sizeList, lengths, fun k shard' at_ => ?_⟩
  obtain ⟨shard, found, gold, replicas⟩ := places k shard' at_
  refine ⟨shard, found, fun location other => ⟨(gold ▸ ·), fun member => ?_⟩⟩
  rcases replicas location member with old | new
  · exact old
  · obtain ⟨_, _, rfl⟩ := replicaLocations_single new
    exact absurd rfl other

/-! ## etcd after a step of the store `i` -/

structure Etcd.Moves (i : String) (etcd etcd' : Etcd) : Prop where
  revision : etcd.revision ≤ etcd'.revision
  versions : etcd.versions ≤ etcd'.versions
  fresh : ∀ s', etcd'.stored = some s' → etcd.revision < s'.revision
  version : ∀ s', etcd'.stored = some s' → etcd.versions ≤ s'.version.number ∨
    ∃ s, etcd.stored = some s ∧ s'.version = s.version ∧ s'.payload.maxShardSize = s.payload.maxShardSize ∧
      s'.payload.sizeList = s.payload.sizeList
  places : ∀ s', etcd'.stored = some s' → ∀ (k : Nat) (shard' : Shard) (content : List UInt8),
    s'.payload.shards[k]? = some shard' → s'.version.contents[k]? = some content → ∀ location, location.segmentName ≠ i →
    location ∈ shard'.locations → ∃ s shard, etcd.stored = some s ∧ s.payload.shards[k]? = some shard ∧
      s.version.contents[k]? = some content ∧ (location ∈ shard'.gold → location ∈ shard.gold) ∧
      (location ∈ shard'.replicaList → location ∈ shard.replicaList)

variable {etcd etcd' : Etcd} {i j : String} {st : Store} {version : Version} {m n a : Nat} {payload : Payload}

variable {revision : Nat}

theorem Etcd.update_true (updated : etcd.update payload revision = (true, etcd')) :
    ∃ s, etcd.stored = some s ∧ s.revision = revision ∧ etcd'.revision = etcd.revision + 1 ∧
      etcd'.versions = etcd.versions ∧
      etcd'.stored = if payload.isEmpty then none
        else some { s with payload := payload, revision := etcd.revision + 1 } := by
  unfold update at updated
  split at updated
  · cases updated
  next s stored =>
    split at updated
    next same =>
      cases updated
      exact ⟨s, stored, same, rfl, rfl, rfl⟩
    · cases updated

theorem Etcd.update_false (updated : etcd.update payload revision = (false, etcd')) : etcd' = etcd := by
  unfold update at updated
  split at updated
  · cases updated
    rfl
  · split at updated
    · cases updated
    · cases updated
      rfl

theorem Etcd.stored_update_true {s s' : Stored}
    (stored : etcd'.stored =
      if payload.isEmpty then none else some { s with payload := payload, revision := etcd.revision + 1 })
    (at_ : etcd'.stored = some s') : s' = { s with payload := payload, revision := etcd.revision + 1 } := by
  rw [stored] at at_
  split at at_
  · cases at_
  · exact (Option.some.inj at_).symm

theorem Etcd.moves_update
    (revises : ∀ s, etcd.stored = some s → s.revision = revision → Revises i s.payload payload)
    (updated : etcd.update payload revision = (true, etcd')) : etcd.Moves i etcd' := by
  obtain ⟨s, before, same, revisions, versions, stored⟩ := update_true updated
  have revised := revises s before same
  refine ⟨by omega, by omega, fun s' at_ => ?_, fun s' at_ => ?_,
    fun s' at_ k shard' content there here location other _ => ?_⟩
  · rw [stored_update_true stored at_]
    exact Nat.lt_succ_self _
  · cases stored_update_true stored at_
    exact .inr ⟨s, before, rfl, revised.width, revised.sizeList⟩
  · cases stored_update_true stored at_
    obtain ⟨shard, found, kept⟩ := revised.places k shard' there
    exact ⟨s, shard, before, found, here, (kept location other).1, (kept location other).2⟩

theorem Etcd.fine_update (fine : etcd.Fine)
    (revises : ∀ s, etcd.stored = some s → s.revision = revision → Revises i s.payload payload)
    (updated : etcd.update payload revision = (true, etcd')) : etcd'.Fine := by
  obtain ⟨s, before, same, revisions, versions, stored⟩ := update_true updated
  have revised := revises s before same
  intro s' at_
  cases stored_update_true stored at_
  obtain ⟨_, number, shaped⟩ := fine s before
  exact ⟨revisions ▸ Nat.le_refl _, versions ▸ number, shaped.of_lengths revised.width revised.sizeList revised.lengths⟩

/-! ## The other stores -/

theorem Current.moves {P : Payload → Prop} (current : Current etcd revision P) (moves : etcd.Moves i etcd') :
    Current etcd' revision P :=
  ⟨Nat.le_trans current.1 moves.revision, fun s' at_ same => absurd (moves.fresh s' at_) (by have := current.1; omega)⟩

theorem Knows.moves (knows : Knows etcd version m n) (moves : etcd.Moves i etcd') : Knows etcd' version m n := by
  refine ⟨Nat.lt_of_lt_of_le knows.number moves.versions, knows.positive, knows.lengths, fun s' at_ same => ?_⟩
  rcases moves.version s' at_ with new | ⟨s, before, versions, width, sizeList⟩
  · have old := knows.number
    omega
  · rw [versions] at same ⊢
    rw [width, sizeList]
    exact knows.same s before same

theorem GetOk.moves {read : Option Version} {phase : GetPhase} (ok : GetOk etcd j st a n read phase)
    (moves : etcd.Moves i etcd') : GetOk etcd' j st a n read phase := by
  cases phase with
  | reading => trivial
  | downloading payload revision d =>
    obtain ⟨v, m, same, knows, describes, current, rest⟩ := ok
    exact ⟨v, m, same, knows.moves moves, describes, current.moves moves, rest⟩
  | rechecking payload revision =>
    obtain ⟨v, m, same, knows, describes, current, rest⟩ := ok
    exact ⟨v, m, same, knows.moves moves, describes, current.moves moves, rest⟩
  | updating payload revision =>
    obtain ⟨v, m, same, knows, current, rest⟩ := ok
    exact ⟨v, m, same, knows.moves moves, current.moves moves, rest⟩
  | rereading =>
    obtain ⟨v, m, same, knows, rest⟩ := ok
    exact ⟨v, m, same, knows.moves moves, rest⟩
  | abandoned e d => exact ok
  | finished outcome => exact ok

theorem CallOk.moves {call : CallState} (ok : CallOk etcd j st call) (moves : etcd.Moves i etcd') :
    CallOk etcd' j st call := by
  cases call with
  | writing removal params payload revision => exact ⟨ok.1, ok.2.1, ok.2.2.moves moves⟩
  | getting buffers phase version =>
    obtain ⟨free, a, n, same, ok⟩ := ok
    exact ⟨free, a, n, same, ok.moves moves⟩
  | _ => exact ok

theorem StoreOk.moves (ok : StoreOk etcd j st) (other : j ≠ i) (moves : etcd.Moves i etcd') : StoreOk etcd' j st := by
  refine ⟨ok.session, ok.calls.imp id fun ⟨c, call, single, fine⟩ => ⟨c, call, single, fine.moves moves⟩, ok.kept,
    fun s' at_ k shard' content there here => ⟨fun location member segment => ?_, fun location member segment => ?_⟩⟩
  · obtain ⟨s, shard, before, found, same, gold, _⟩ := moves.places s' at_ k shard' content there here location
      (segment ▸ other) (List.mem_append_right _ member)
    exact (ok.listed s before k shard content found same).1 location (gold member) segment
  · obtain ⟨s, shard, before, found, same, _, replicas⟩ := moves.places s' at_ k shard' content there here location
      (segment ▸ other) (List.mem_append_left _ member)
    exact (ok.listed s before k shard content found same).2 location (replicas member) segment

end Mooncake.P2PStore
