import Mooncake.P2PStore.Downloads

/-! When `GetReplica` copies the whole payload and nothing else. -/
namespace Mooncake.P2PStore

open Function List Option

def Serves (segments : Segments) (payload : Payload) (contents : List (List UInt8)) : Prop :=
  ∀ (k : Nat) (shard : Shard) (content : List UInt8), payload.shards[k]? = some shard →
    contents[k]? = some content →
    ∀ location ∈ shard.locations, Extent.read (segments location.segmentName) location.offset
      shard.length = content

/-! ## A payload as it was registered -/

section Registered
variable {name localServerName : String} {m k : Nat} {registered : List (Nat × Nat)} {shard : Shard}
  {bytes : Memory}

theorem mem_bufferShards {buffer : Nat × Nat} (positive : 0 < m)
    (member : shard ∈ Payload.bufferShards localServerName m buffer) :
    ∃ offset, shard = ⟨min m (buffer.2 - offset), [⟨localServerName, buffer.1 + offset⟩], []⟩ ∧
      offset < buffer.2 := by
  obtain ⟨offset, inside, rfl⟩ := mem_map.mp member
  exact ⟨offset, rfl, Strides.lt_of_mem_strides positive inside⟩

theorem shard_registered (positive : 0 < m)
    (at_ : (Payload.register localServerName name m registered).shards[k]? = some shard) :
    ∃ buffer ∈ registered, ∃ offset < buffer.2,
      shard = ⟨min m (buffer.2 - offset), [⟨localServerName, buffer.1 + offset⟩], []⟩ := by
  obtain ⟨buffer, member, inside⟩ := mem_flatMap.mp (mem_of_getElem? at_)
  obtain ⟨offset, same, below⟩ := mem_bufferShards positive inside
  exact ⟨buffer, member, offset, below, same⟩

theorem serves_register (bytes : Memory) (localServerName name : String) (m : Nat)
    (registered : List (Nat × Nat)) :
    Serves (fun _ => bytes) (Payload.register localServerName name m registered)
      (shardContents bytes m registered) := by
  intro k shard content at_ there location listed
  have together : (shardContents bytes m registered)[k]? =
      ((Payload.register localServerName name m registered).shards[k]?).map
        (fun shard => (shard.gold.head?.map fun location =>
          Extent.read bytes location.offset shard.length).getD []) := by
    rw [← List.getElem?_map]
    congr 1
    simp only [shardContents, Payload.register, map_flatMap]
    refine flatMap_congr fun buffer _ => ?_
    simp [Payload.bufferShards, Strides.tiles, Strides.tile, comp_def]
  rw [at_, there] at together
  have value := some.inj together
  obtain ⟨buffer, _, inside⟩ := mem_flatMap.mp (mem_of_getElem? at_)
  obtain ⟨offset, _, rfl⟩ := mem_map.mp inside
  cases mem_singleton.mp listed
  exact value.symm

end Registered

def Honest (segments : Segments) (m : Nat) (registered : List (Nat × Nat)) (bytes : Memory) : GetInput → Prop
  | .got (.ok (some (payload, _))) =>
    Describes payload m (registered.map Prod.snd) ∧ Serves segments payload (shardContents bytes m registered)
  | _ => True

def Within (buffers : List (Nat × Nat)) (a : Nat) : Prop :=
  ∃ buffer ∈ buffers, buffer.1 ≤ a ∧ a < buffer.1 + buffer.2

def Copied (memory bytes : Memory) (buffers registered : List (Nat × Nat)) : Prop :=
  ∀ (i : Nat) (buffer source : Nat × Nat), buffers[i]? = some buffer → registered[i]? = some source →
    Extent.read memory buffer.1 buffer.2 = Extent.read bytes source.1 source.2

/-- `Register` adds these buffers to the registered memory, which refuses those that overlap without being the
same. -/
def Registrable (registered : List (Nat × Nat)) : Prop :=
  registered.Pairwise (fun v w => v = w ∨ Extent.Apart v w)

def beginGet (buffers : List (Nat × Nat)) (contained : Bool) (memory : Memory) : Getting :=
  ⟨.start contained (buffers.map Prod.fst) (buffers.map Prod.snd), memory⟩

/-- Whatever the other side answers and in whatever order the goroutines run: nothing is written outside of the
destination, no index is out of range, and if the sizes are those of the payload and there is no error, the
destination holds the payload. -/
def GetReplicaCopies (m : Nat) (sizes : List Nat) (buffers : List (Nat × Nat)) : Prop :=
  ∀ (registered : List (Nat × Nat)) (bytes : Memory) (segments : Segments) (localServerName : String)
    (contained : Bool)
    (memory : Memory) (inputs : List GetInput) (g : Getting),
    Registrable registered → registered.map Prod.snd = sizes →
      (∀ input ∈ inputs, Honest segments m registered bytes input) →
    Run.run (Getting.step segments localServerName buffers) (beginGet buffers contained memory)
      inputs = some g →
    (∀ a, ¬ Within buffers a → g.memory a = memory a) ∧ g.phase.outcome ≠ some .indexOutOfRange ∧
      (buffers.map Prod.snd = sizes → g.phase.outcome = some (.returned none) →
        Copied g.memory bytes buffers registered)

/-- The destination has no more shards than the payload; each shard goes to the first buffer that is longer than
all shards before it and does not run over the end of the destination; and if the sizes are those of the
payload, it is a single shard. -/
structure Suited (m : Nat) (sizes : List Nat) (buffers : List (Nat × Nat)) : Prop where
  enough : (shardLengths m (buffers.map Prod.snd)).length ≤ (shardLengths m sizes).length
  inside : ∀ k length buffer, (shardLengths m sizes)[k]? = some length →
    Download.target buffers m k = some buffer →
    ∀ b < length, Within buffers (buffer.1 + k * m + b)
  single : buffers.map Prod.snd = sizes → ∃ size ≤ m, sizes = [size]

section Correct
variable {m : Nat} {sizes : List Nat} {buffers registered : List (Nat × Nat)} {bytes memory : Memory}
  {segments : Segments}
  {localServerName : String} {payload : Payload} {d d' : Download} {g g' : Getting} {input : GetInput}

theorem Describes.length_shards (describes : Describes payload m sizes) :
    payload.shards.length = (shardLengths m sizes).length := by
  rw [← describes.lengths, length_map]

theorem Describes.length_at (describes : Describes payload m sizes) {k : Nat} {shard : Shard}
    (at_ : payload.shards[k]? = some shard) : (shardLengths m sizes)[k]? = some shard.length := by
  rw [← describes.lengths, List.getElem?_map, at_]
  rfl

theorem length_replicaLocations (localServerName : String) (m : Nat) (buffers : List (Nat × Nat)) :
    (Payload.replicaLocations localServerName m buffers).length =
      (shardLengths m (buffers.map Prod.snd)).length := by
  simp [Payload.replicaLocations, Download.length_shardLengths, length_flatMap, comp_def]

theorem update_eq (localServerName : String) (describes : Describes payload m sizes)
    (enough : (shardLengths m (buffers.map Prod.snd)).length ≤ (shardLengths m sizes).length) (revision : Nat) :
    ∃ payload', GetPhase.update localServerName buffers payload revision = .updating payload' revision := by
  rw [← describes.length_shards, ← describes.width, ← length_replicaLocations localServerName] at enough
  obtain ⟨shards, appended⟩ := appendLocations_isSome enough
  exact ⟨{ payload with shards := shards }, by simp [GetPhase.update, Payload.appendReplicas, appended]⟩

theorem length_take_shardLengths (m : Nat) (buffers : List (Nat × Nat)) (i : Nat) :
    (shardLengths m ((buffers.take i).map Prod.snd)).length ≤
      (shardLengths m (buffers.map Prod.snd)).length := by
  have whole : buffers.map Prod.snd = (buffers.take i).map Prod.snd ++ (buffers.drop i).map Prod.snd := by
    rw [← map_append, take_append_drop]
  rw [whole, Download.length_shardLengths, Download.length_shardLengths, map_append, sum_append]
  exact Nat.le_add_right _ _

variable {rest : List (Nat × Nat)} {size addr : Nat} {task : Task}

theorem spawn_suited (suited : Suited m sizes buffers) (describes : Describes payload m sizes)
    (positive : 0 < m)
    (planned : d.Planned payload buffers) (next : d.rest = (addr, size) :: rest) :
    ∃ d', d.spawn payload addr size rest = some d' := by
  have room := planned.room (describes.width ▸ positive) next
  have fewer := length_take_shardLengths payload.maxShardSize buffers (d.buffer + 1)
  have shards := describes.length_shards
  have enough := suited.enough
  rw [← describes.width] at enough shards
  exact Download.spawn_isSome addr rest (by omega)

theorem task_within (suited : Suited m sizes buffers) (describes : Describes payload m sizes)
    (planned : d.Planned payload buffers) {k : Nat} (at_ : d.tasks[k]? = some task) {b : Nat}
    (inside : b < task.shard.length) : Within buffers (task.source + b) := by
  obtain ⟨shard, buffer, target, _, source⟩ := planned.tasks k task at_
  rw [describes.width] at target source
  rw [source]
  exact suited.inside k _ buffer (describes.length_at shard) target b inside

/-! ### A payload of one shard -/

theorem getElem?_single {α : Type} {x y : α} {i : Nat} (at_ : [x][i]? = some y) : i = 0 ∧ y = x := by
  cases i with
  | zero => exact ⟨rfl, (some.inj at_).symm⟩
  | succ i => cases at_

theorem shardLengths_single (some : 0 < size) (short : size ≤ m) : shardLengths m [size] = [size] := by
  simp [shardLengths, Strides.tiles_single some short]

theorem shardContents_single (some : 0 < size) (short : size ≤ m) :
    shardContents bytes m [(addr, size)] = [Extent.read bytes addr size] := by
  simp [shardContents, Strides.tiles_single some short]

structure Lone (buffers registered : List (Nat × Nat)) (bytes memory : Memory) (d : Download) : Prop where
  copied : d.phase 0 ≠ .running → d.err 0 = none → Copied memory bytes buffers registered
  reported : d.phase 0 = .done → d.errChan = none → d.err 0 = none

structure Fetches (segments : Segments) (m : Nat) (registered buffers : List (Nat × Nat))
    (bytes memory : Memory)
    (payload : Payload) (d : Download) : Prop where
  describes : Describes payload m (registered.map Prod.snd)
  serves : Serves segments payload (shardContents bytes m registered)
  planned : d.Planned payload buffers
  lone : buffers.map Prod.snd = registered.map Prod.snd → Lone buffers registered bytes memory d

theorem Fetches.start (describes : Describes payload m (registered.map Prod.snd))
    (serves : Serves segments payload (shardContents bytes m registered)) :
    Fetches segments m registered buffers bytes memory payload (.start buffers) :=
  ⟨describes, serves, .start payload buffers,
    fun _ => ⟨fun started => absurd rfl started, fun done => nomatch done⟩⟩

section
variable (fetches : Fetches segments m registered buffers bytes memory payload d)
include fetches

theorem Fetches.spawn (positive : 0 < m) (next : d.rest = (addr, size) :: rest)
    (spawned : d.spawn payload addr size rest = some d') :
    Fetches segments m registered buffers bytes memory payload d' := by
  refine ⟨fetches.describes, fetches.serves,
    fetches.planned.spawn (fetches.describes.width ▸ positive) next spawned, fun same => ?_⟩
  obtain ⟨tasks, _, rfl⟩ := map_eq_some_iff.mp spawned
  exact ⟨(fetches.lone same).copied, (fetches.lone same).reported⟩

variable (suited : Suited m (registered.map Prod.snd) buffers)
  (nonempty : ∀ size ∈ registered.map Prod.snd, 0 < size)
include suited nonempty

theorem Fetches.alone (same : buffers.map Prod.snd = registered.map Prod.snd) {k : Nat}
    (at_ : d.tasks[k]? = some task) :
    k = 0 ∧ task.buffer = 0 ∧ ∃ addr source size, 0 < size ∧ size ≤ m ∧ buffers = [(addr, size)] ∧
      registered = [(source, size)] ∧
      task.source = addr ∧ task.shard.length = size ∧ payload.shards[0]? = some task.shard := by
  obtain ⟨size, short, all⟩ := suited.single same
  have some : 0 < size := nonempty size (all ▸ mem_singleton.mpr rfl)
  obtain ⟨⟨addr, _⟩, one, ⟨⟩⟩ := map_eq_singleton_iff.mp (same.trans all)
  obtain ⟨⟨source, _⟩, other, ⟨⟩⟩ := map_eq_singleton_iff.mp all
  obtain ⟨shard, buffer, _, place, source'⟩ := fetches.planned.tasks k task at_
  have length := fetches.describes.length_at shard
  rw [all, shardLengths_single some short] at length
  obtain ⟨rfl, value⟩ := getElem?_single length
  rw [one] at place
  obtain ⟨zero, rfl⟩ := getElem?_single place
  refine ⟨rfl, zero, addr, source, _, some, short, one, other, ?_, value, shard⟩
  rw [source', Nat.zero_mul, Nat.add_zero]

theorem Fetches.transferred {k random : Nat} {attempts : Nat → Attempt} {memory' : Memory}
    (next : d.transferred segments memory k random attempts = some (d', memory')) :
    Fetches segments m registered buffers bytes memory' payload d' ∧ ∀ a, ¬ Within buffers a →
      memory' a = memory a := by
  unfold Download.transferred at next
  split at next
  next task at_ running =>
    cases result : performTransfer segments task.source task.shard random attempts memory with
    | mk err after =>
      simp only [result] at next
      cases next
      refine ⟨⟨fetches.describes, fetches.serves, fetches.planned.kept _ _ _, fun same => ?_⟩,
        fun a outside => ?_⟩
      · obtain ⟨rfl, zero, addr, source, size, some, short, one, other, place, length, shard⟩ :=
          fetches.alone suited nonempty same at_
        refine ⟨fun _ fine => ?_, fun done => ?_⟩
        · rw [zero] at fine
          have fine : err = none := (update_self 0 err d.err).symm.trans fine
          rw [fine] at result
          obtain ⟨_, location, _, _, found, copied⟩ := performTransfer_ok result
          have listed := Shard.mem_locations_of_getLocation found
          have content : (shardContents bytes m registered)[0]? =
            Option.some (Extent.read bytes source size) := by
            rw [other, shardContents_single some short]
            rfl
          rw [fetches.serves 0 task.shard _ shard content location listed, place, length] at copied
          intro i buffer source' at₁ at₂
          rw [one] at at₁
          rw [other] at at₂
          rw [(getElem?_single at₁).2, (getElem?_single at₂).2]
          exact copied
        · cases (update_self 0 TaskPhase.stored d.phase).symm.trans done
      · have apart : a < task.source ∨ task.source + task.shard.length ≤ a := by
          by_contra inside
          refine outside ?_
          have within := task_within suited fetches.describes fetches.planned at_
            (show a - task.source < task.shard.length by omega)
          rwa [Nat.add_sub_cancel' (by omega)] at within
        have unchanged :
            (performTransfer segments task.source task.shard random attempts memory).2 a = memory a :=
          performTransfer_outside random attempts apart
        rwa [result] at unchanged
  · cases next

theorem Fetches.checked {k : Nat}
    (next : d.checked k = some d') : Fetches segments m registered buffers bytes memory payload d' := by
  unfold Download.checked at next
  split at next
  next task at_ stored =>
    cases next
    refine ⟨fetches.describes, fetches.serves, fetches.planned.kept _ _ _, fun same => ?_⟩
    obtain ⟨rfl, zero, _⟩ := fetches.alone suited nonempty same at_
    refine ⟨fun _ fine => (fetches.lone same).copied (by rw [stored]; decide) fine, fun _ silent => ?_⟩
    simp only at silent
    rw [zero] at silent
    cases reported : d.errChan with
    | none => rwa [reported] at silent
    | some e =>
      rw [reported] at silent
      cases silent
  · cases next

/-- A download that has come to its end without an error has copied a payload of one shard. -/
theorem Fetches.copied (waited : d.waited = true) (silent : d.errChan = none)
    (same : buffers.map Prod.snd = registered.map Prod.snd) : Copied memory bytes buffers registered := by
  obtain ⟨none_left, all⟩ := Bool.and_eq_true_iff.mp waited
  obtain ⟨size, short, single⟩ := suited.single same
  have some : 0 < size := nonempty size (single ▸ mem_singleton.mpr rfl)
  obtain ⟨buffer, member, length⟩ := mem_map.mp (show size ∈ buffers.map Prod.snd by rw [same, single]; simp)
  have past := fetches.planned.past_all (List.isEmpty_iff.mp none_left) member
  have started : 0 < d.tasks.length := by
    refine Nat.pos_of_ne_zero fun zero => ?_
    rw [zero, Nat.zero_mul] at past
    omega
  have done : d.phase 0 = .done := of_decide_eq_true (all_eq_true.mp all 0 (mem_range.mpr started))
  have lone := fetches.lone same
  exact lone.copied (by rw [done]; decide) (lone.reported done silent)

end

/-! ### The whole call -/

/-- What holds in each phase of a call for a suited destination. -/
def Fine (segments : Segments) (m : Nat) (registered buffers : List (Nat × Nat)) (bytes memory : Memory) :
    GetPhase → Prop
  | .reading => True
  | .downloading payload _ d => Fetches segments m registered buffers bytes memory payload d
  | .rechecking payload _ => Describes payload m (registered.map Prod.snd) ∧
      Serves segments payload (shardContents bytes m registered) ∧
      (buffers.map Prod.snd = registered.map Prod.snd → Copied memory bytes buffers registered)
  | .updating _ _ | .rereading =>
    buffers.map Prod.snd = registered.map Prod.snd → Copied memory bytes buffers registered
  | .abandoned _ d => ∃ payload, Fetches segments m registered buffers bytes memory payload d
  | .finished outcome => outcome ≠ .indexOutOfRange ∧
      (outcome = .returned none → buffers.map Prod.snd = registered.map Prod.snd →
        Copied memory bytes buffers registered)

theorem Fine.step {memory₀ : Memory} (suited : Suited m (registered.map Prod.snd) buffers) (positive : 0 < m)
    (sizes : ∀ size ∈ registered.map Prod.snd, 0 < size) (honest : Honest segments m registered bytes input)
    (fine : Fine segments m registered buffers bytes g.memory g.phase)
    (kept : ∀ a, ¬ Within buffers a → g.memory a = memory₀ a)
    (next : g.step segments localServerName buffers input = some g') :
    Fine segments m registered buffers bytes g'.memory g'.phase ∧ ∀ a, ¬ Within buffers a →
      g'.memory a = memory₀ a := by
  unfold Getting.step at next
  cases input with
  | got reply =>
    simp only at next
    split at next
    next phase =>
      rw [phase] at fine
      split at next
      · cases next
        exact ⟨⟨nofun, nofun⟩, kept⟩
      · cases next
        exact ⟨⟨nofun, nofun⟩, kept⟩
      next payload revision =>
        cases next
        exact ⟨.start honest.1 honest.2, kept⟩
    next payload revision phase =>
      rw [phase] at fine
      split at next
      · cases next
        exact ⟨⟨nofun, nofun⟩, kept⟩
      · cases next
        exact ⟨⟨nofun, nofun⟩, kept⟩
      · split at next
        · cases next
          obtain ⟨payload', updating⟩ := update_eq localServerName fine.1 suited.enough revision
          simp only [updating]
          exact ⟨fine.2.2, kept⟩
        · cases next
          exact ⟨.start fine.1 fine.2.1, kept⟩
    next phase =>
      rw [phase] at fine
      split at next
      · cases next
        exact ⟨⟨nofun, nofun⟩, kept⟩
      · cases next
        exact ⟨⟨nofun, nofun⟩, kept⟩
      next payload revision =>
        cases next
        obtain ⟨payload', updating⟩ := update_eq localServerName honest.1 suited.enough revision
        simp only [updating]
        exact ⟨fine, kept⟩
    · cases next
  | added err =>
    simp only at next
    split at next
    next payload revision d phase =>
      rw [phase] at fine
      split at next
      · cases next
      next e _ =>
        cases next
        exact ⟨⟨payload, fine⟩, kept⟩
      next addr size rest at_ =>
        obtain ⟨d', spawned⟩ := spawn_suited suited fine.describes positive fine.planned at_
        simp only [spawned] at next
        cases next
        exact ⟨fine.spawn positive at_ spawned, kept⟩
    · cases next
  | transferred k random attempts =>
    simp only at next
    split at next
    next payload revision d phase =>
      rw [phase] at fine
      obtain ⟨⟨d', memory'⟩, transferred, rfl⟩ := map_eq_some_iff.mp next
      obtain ⟨after, outside⟩ := fine.transferred suited sizes transferred
      exact ⟨after, fun a apart => (outside a apart).trans (kept a apart)⟩
    next e d phase =>
      rw [phase] at fine
      obtain ⟨payload, fine⟩ := fine
      obtain ⟨⟨d', memory'⟩, transferred, rfl⟩ := map_eq_some_iff.mp next
      obtain ⟨after, outside⟩ := fine.transferred suited sizes transferred
      exact ⟨⟨payload, after⟩, fun a apart => (outside a apart).trans (kept a apart)⟩
    · cases next
  | checked k =>
    simp only at next
    split at next
    next payload revision d phase =>
      rw [phase] at fine
      obtain ⟨d', checked, rfl⟩ := map_eq_some_iff.mp next
      exact ⟨fine.checked suited sizes checked, kept⟩
    next e d phase =>
      rw [phase] at fine
      obtain ⟨payload, fine⟩ := fine
      obtain ⟨d', checked, rfl⟩ := map_eq_some_iff.mp next
      exact ⟨⟨payload, fine.checked suited sizes checked⟩, kept⟩
    · cases next
  | waited =>
    simp only at next
    split at next
    next payload revision d phase =>
      rw [phase] at fine
      split at next
      next waited =>
        split at next
        · cases next
          exact ⟨⟨nofun, nofun⟩, kept⟩
        next silent =>
          cases next
          exact ⟨⟨fine.describes, fine.serves, fine.copied suited sizes waited silent⟩, kept⟩
      · cases next
    · cases next
  | updated reply =>
    simp only at next
    split at next
    next payload revision phase =>
      rw [phase] at fine
      split at next
      · cases next
        exact ⟨⟨nofun, nofun⟩, kept⟩
      · cases next
        exact ⟨⟨nofun, fun _ => fine⟩, kept⟩
      · cases next
        exact ⟨fine, kept⟩
    · cases next

theorem GetPhase.eq_finished {phase : GetPhase} {outcome : Outcome} (out : phase.outcome = some outcome)
    (clean : ∀ e, outcome ≠ .returned (some e)) : phase = .finished outcome := by
  cases phase with
  | finished outcome' => rw [some.inj out]
  | abandoned e d => exact absurd (some.inj out).symm (clean e)
  | _ => cases out

/-- A suited destination gets the payload and nothing else. -/
theorem copies_of_suited (positive : 0 < m) (some : ∀ size ∈ sizes, 0 < size)
    (suited : Suited m sizes buffers) :
    GetReplicaCopies m sizes buffers := by
  intro registered bytes segments localServerName contained memory inputs g _ cut honest run
  subst cut
  have start : Fine segments m registered buffers bytes memory (beginGet buffers contained memory).phase := by
    unfold beginGet GetPhase.start
    split
    · exact ⟨nofun, nofun⟩
    · split
      · exact ⟨nofun, nofun⟩
      · trivial
  obtain ⟨fine, kept⟩ := Run.guarded_invariant
    (P := fun g => Fine segments m registered buffers bytes g.memory g.phase ∧ ∀ a, ¬ Within buffers a →
      g.memory a = memory a)
    (fun _ _ _ before honest next => Fine.step suited positive some honest before.1 before.2 next)
      ⟨start, fun _ _ => rfl⟩ run
    (Run.guarded_of_forall _ honest)
  refine ⟨kept, fun out => ?_, fun same returned => ?_⟩
  · rw [GetPhase.eq_finished out nofun] at fine
    exact fine.1 rfl
  · rw [GetPhase.eq_finished returned nofun] at fine
    exact fine.2 rfl same

end Correct

end Mooncake.P2PStore
