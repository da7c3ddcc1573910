import Mooncake.P2PStore.GetReplica

/-! What the goroutines of `doGetReplica` write, and where. -/
namespace Mooncake.P2PStore

open Option List Strides

/-! ## One transfer -/

section Transfer
variable {segments : Segments} {source : Nat} {shard : Shard} {random : Nat} {attempts : Nat → Attempt}
  {memory memory' : Memory}

theorem leave_outside {length a : Nat} {residue : Nat → Option UInt8} (outside : a < source ∨ source + length ≤ a) :
    leave memory source length residue a = memory a := if_neg (by omega)

theorem transferLoop_outside {a rounds retryCount : Nat} (outside : a < source ∨ source + shard.length ≤ a) :
    (transferLoop segments source shard random attempts rounds retryCount memory).memory a = memory a := by
  induction rounds generalizing retryCount memory with
  | zero => rfl
  | succ rounds ih =>
    unfold transferLoop
    split
    · rfl
    · rfl
    · rfl
    · exact leave_outside outside
    · exact leave_outside outside
    · exact ih.trans (leave_outside outside)
    · show Extent.write memory source _ a = memory a
      unfold Extent.write
      split
      · rw [getElem?_eq_none (by rw [Extent.length_read]; omega), getD_none]
      · rfl

theorem performTransfer_outside {a : Nat} (random : Nat) (attempts : Nat → Attempt)
    (outside : a < source ∨ source + shard.length ≤ a) :
    (performTransfer segments source shard random attempts memory).2 a = memory a := transferLoop_outside outside

theorem transferLoop_ok {rounds retryCount : Nat}
    (ok : (transferLoop segments source shard random attempts rounds retryCount memory).err = none) :
    ∃ r location, retryCount ≤ r ∧ r < retryCount + rounds ∧ attempts r = .completed ∧
      shard.getLocation random r = some location ∧
      Extent.read (transferLoop segments source shard random attempts rounds retryCount memory).memory source shard.length =
        Extent.read (segments location.segmentName) location.offset shard.length := by
  induction rounds generalizing retryCount memory with
  | zero => cases ok
  | succ rounds ih =>
    unfold transferLoop at ok ⊢
    split at ok
    · cases ok
    · cases ok
    · cases ok
    · cases ok
    · cases ok
    · obtain ⟨r, location, low, high, completed, found, copied⟩ := ih ok
      exact ⟨r, location, by omega, by omega, completed, found, copied⟩
    next location completed found =>
      refine ⟨retryCount, location, Nat.le_refl _, by omega, completed, found, ?_⟩
      have written := Extent.read_write memory source
        (Extent.read (segments location.segmentName) location.offset shard.length)
      rwa [Extent.length_read] at written

theorem performTransfer_ok
    (ok : performTransfer segments source shard random attempts memory = (none, memory')) :
    ∃ r location, r < max 3 shard.count ∧ attempts r = .completed ∧ shard.getLocation random r = some location ∧
      Extent.read memory' source shard.length =
        Extent.read (segments location.segmentName) location.offset shard.length := by
  obtain ⟨r, location, _, high, completed, found, copied⟩ := transferLoop_ok (congrArg Prod.fst ok)
  rw [show (transferLoop segments source shard random attempts _ 0 memory).memory =
    memory' from congrArg Prod.snd ok] at copied
  exact ⟨r, location, by omega, completed, found, copied⟩

theorem performTransfer_completed (location : Location) (found : shard.getLocation random 0 = some location) :
    performTransfer segments source shard random (fun _ => .completed) memory =
      (none, Extent.write memory source (Extent.read (segments location.segmentName) location.offset shard.length)) := by
  unfold performTransfer
  obtain ⟨rounds, more⟩ := Nat.exists_eq_add_one_of_ne_zero (by omega : max 3 shard.count ≠ 0)
  rw [more, transferLoop]
  simp only [found]

theorem performTransfer_unallocated :
    performTransfer segments source shard random (fun _ => .unallocated) memory = (some .transferEngine, memory) := by
  unfold performTransfer
  obtain ⟨rounds, more⟩ := Nat.exists_eq_add_one_of_ne_zero (by omega : max 3 shard.count ≠ 0)
  rw [more, transferLoop]

end Transfer

/-! ## Where the tasks of a download are -/

namespace Download

section Launch
variable {shards : List Shard} {buffer addr taskID : Nat} {offsets : List Nat} {tasks : List Task}

theorem launch_isSome (buffer addr : Nat) (enough : taskID + offsets.length ≤ shards.length) :
    ∃ tasks, launch shards buffer addr taskID offsets = some tasks := by
  induction offsets generalizing taskID with
  | nil => exact ⟨[], rfl⟩
  | cons offset offsets ih =>
    rw [length_cons] at enough
    have later : taskID + 1 + offsets.length ≤ shards.length := by omega
    obtain ⟨tasks, rest⟩ := ih later
    have inside : taskID < shards.length := by omega
    exact ⟨⟨buffer, addr + offset, shards[taskID]⟩ :: tasks, by
      simp only [launch, getElem?_eq_getElem inside, rest, map_some]⟩

theorem launch_spec (launched : launch shards buffer addr taskID offsets = some tasks) :
    tasks.length = offsets.length ∧ ∀ k task, tasks[k]? = some task →
      ∃ offset shard, offsets[k]? = some offset ∧ shards[taskID + k]? = some shard ∧
        task = ⟨buffer, addr + offset, shard⟩ := by
  induction offsets generalizing taskID tasks with
  | nil =>
    cases launched
    exact ⟨rfl, fun _ _ none => (nomatch none)⟩
  | cons offset offsets ih =>
    unfold launch at launched
    split at launched
    · cases launched
    next shard found =>
      obtain ⟨rest, later, rfl⟩ := map_eq_some_iff.mp launched
      obtain ⟨count, places⟩ := ih later
      refine ⟨congrArg (· + 1) count, fun k task at_ => ?_⟩
      cases k with
      | zero =>
        cases at_
        exact ⟨offset, shard, rfl, found, rfl⟩
      | succ k =>
        obtain ⟨offset', shard', here, there, same⟩ := places k task at_
        exact ⟨offset', shard', here, by rwa [Nat.add_right_comm] at there, same⟩

end Launch

variable {payload : Payload} {buffers : List (Nat × Nat)} {d d' : Download}

theorem transferred_eq {k : Nat} {task : Task} (segments : Segments) (memory : Memory) (random : Nat)
    (attempts : Nat → Attempt) (at_ : d.tasks[k]? = some task) (running : d.phase k = .running) :
    d.transferred segments memory k random attempts =
      some ({ d with
        phase := Function.update d.phase k .stored
        err := Function.update d.err task.buffer
          (performTransfer segments task.source task.shard random attempts memory).1 },
        (performTransfer segments task.source task.shard random attempts memory).2) := by
  simp only [transferred, at_, running]

theorem spawn_isSome {size : Nat} (addr : Nat) (rest : List (Nat × Nat))
    (enough : d.taskID + (strides size payload.maxShardSize d.offset).length ≤ payload.shards.length) :
    ∃ d', d.spawn payload addr size rest = some d' := by
  obtain ⟨tasks, launched⟩ := launch_isSome d.buffer addr enough
  simp only [spawn, launched, map_some]
  exact ⟨_, rfl⟩

/-- The destination of the shard with this number, in the order of the loops: the first buffer that is longer
than all shards before it. -/
def target (buffers : List (Nat × Nat)) (m k : Nat) : Option (Nat × Nat) :=
  buffers.find? (fun buffer => k * m < buffer.2)

theorem lt_of_target {m k : Nat} {buffer : Nat × Nat} (found : target buffers m k = some buffer) :
    k * m < buffer.2 := by
  have longer := find?_some found
  simpa using longer

structure Planned (payload : Payload) (buffers : List (Nat × Nat)) (d : Download) : Prop where
  rest : d.rest = buffers.drop d.buffer
  offset : d.offset = d.taskID * payload.maxShardSize
  count : d.tasks.length = d.taskID
  past : ∀ buffer ∈ buffers.take d.buffer, buffer.2 ≤ d.offset
  bounded : d.taskID ≤ (shardLengths payload.maxShardSize ((buffers.take d.buffer).map Prod.snd)).length
  tasks : ∀ k task, d.tasks[k]? = some task → payload.shards[k]? = some task.shard ∧
    ∃ buffer, target buffers payload.maxShardSize k = some buffer ∧ buffers[task.buffer]? = some buffer ∧
      task.source = buffer.1 + k * payload.maxShardSize

theorem Planned.kept (planned : d.Planned payload buffers)
    (phase : Nat → TaskPhase) (err : Nat → Option Err) (errChan : Option Err) :
    Planned payload buffers { d with phase := phase, err := err, errChan := errChan } :=
  ⟨planned.rest, planned.offset, planned.count, planned.past, planned.bounded, planned.tasks⟩

/-- Once every buffer has been cut, its end is behind the last shard. -/
theorem Planned.past_all {buffer : Nat × Nat} (planned : d.Planned payload buffers) (none_left : d.rest = [])
    (member : buffer ∈ buffers) : buffer.2 ≤ d.tasks.length * payload.maxShardSize := by
  have whole : buffers.take d.buffer = buffers := by
    rw [planned.rest] at none_left
    exact take_of_length_le (drop_eq_nil_iff.mp none_left)
  rw [planned.count, ← planned.offset]
  exact planned.past buffer (whole.symm ▸ member)

theorem Planned.start (payload : Payload) (buffers : List (Nat × Nat)) :
    Planned payload buffers (.start buffers) where
  rest := rfl
  offset := by simp [Download.start]
  count := rfl
  past := fun _ none => (nomatch none)
  bounded := Nat.zero_le _
  tasks := fun _ _ none => (nomatch none)

theorem length_shardLengths (m : Nat) (sizes : List Nat) :
    (shardLengths m sizes).length = (sizes.map fun size => (strides size m 0).length).sum := by
  simp [shardLengths, tiles, length_flatMap, Function.comp_def]

theorem Planned.room (planned : Planned payload buffers d) (positive : 0 < payload.maxShardSize) {addr size : Nat}
    {rest : List (Nat × Nat)} (next : d.rest = (addr, size) :: rest) :
    d.taskID + (strides size payload.maxShardSize d.offset).length ≤
      (shardLengths payload.maxShardSize ((buffers.take (d.buffer + 1)).map Prod.snd)).length := by
  have here : buffers.take (d.buffer + 1) = buffers.take d.buffer ++ [(addr, size)] := by
    have found : buffers[d.buffer]? = some (addr, size) := by
      have first := congrArg head? (planned.rest.symm.trans next)
      rwa [head?_drop] at first
    rw [take_add_one, found]
    rfl
  have fewer : (strides size payload.maxShardSize (0 + d.taskID * payload.maxShardSize)).length ≤
      (strides size payload.maxShardSize 0).length := length_strides_le positive d.taskID
  rw [Nat.zero_add, ← planned.offset] at fewer
  have before := planned.bounded
  rw [length_shardLengths] at before ⊢
  rw [here, map_append, map_append, sum_append]
  simp only [map_cons, map_nil, sum_cons, sum_nil]
  omega

theorem Planned.spawn (planned : Planned payload buffers d) (positive : 0 < payload.maxShardSize)
    {addr size : Nat} {rest : List (Nat × Nat)} (next : d.rest = (addr, size) :: rest)
    (spawned : d.spawn payload addr size rest = some d') : Planned payload buffers d' := by
  obtain ⟨tasks, launched, rfl⟩ := map_eq_some_iff.mp spawned
  obtain ⟨count, places⟩ := launch_spec launched
  have drop := planned.rest.symm.trans next
  have found : buffers[d.buffer]? = some (addr, size) := by
    have first := congrArg head? drop
    rwa [head?_drop] at first
  have reached : size ≤ d.offset + (strides size payload.maxShardSize d.offset).length * payload.maxShardSize :=
    le_add_length_strides positive
  refine ⟨?_, ?_, ?_, fun buffer member => ?_, planned.room positive next, fun k task at_ => ?_⟩
  · show rest = buffers.drop (d.buffer + 1)
    rw [← drop_drop, drop]
    rfl
  · show d.offset + _ * _ = (d.taskID + _) * _
    rw [planned.offset, Nat.add_mul]
  · show (d.tasks ++ tasks).length = d.taskID + _
    rw [length_append, planned.count, count]
  · show buffer.2 ≤ d.offset + _
    have inside : buffer ∈ buffers.take (d.buffer + 1) := member
    rw [take_add_one, found] at inside
    rcases mem_append.mp inside with old | new
    · exact Nat.le_trans (planned.past buffer old) (Nat.le_add_right _ _)
    · cases mem_singleton.mp new
      exact reached
  · have place : (d.tasks ++ tasks)[k]? = some task := at_
    by_cases old : k < d.tasks.length
    · rw [getElem?_append_left old] at place
      exact planned.tasks k task place
    · rw [getElem?_append_right (by omega)] at place
      obtain ⟨offset, shard, here, there, rfl⟩ := places _ task place
      obtain ⟨value, below⟩ := getElem?_strides positive here
      have number : d.taskID + (k - d.tasks.length) = k := by rw [← planned.count]; omega
      have product : offset = k * payload.maxShardSize := by
        rw [value, planned.offset, ← Nat.add_mul, number]
      rw [number] at there
      refine ⟨there, (addr, size), ?_, found, by rw [product]⟩
      -- all buffers before this one end before the offset
      have split : buffers = buffers.take d.buffer ++ (addr, size) :: rest := by rw [← drop, take_append_drop]
      have late : ∀ buffer ∈ buffers.take d.buffer, ¬ k * payload.maxShardSize < buffer.2 := fun buffer member => by
        have past := planned.past buffer member
        omega
      unfold target
      rw [split, find?_append, find?_eq_none.mpr (fun buffer member => by simpa using late buffer member),
        none_or, find?_cons_of_pos (by simpa [← product] using below)]

end Download

end Mooncake.P2PStore
