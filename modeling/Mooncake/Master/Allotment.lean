import Mooncake.Master.Puts

/-! What `PutStart` hands out: in memory one buffer for each slice, of its size, in every
replica; on disk one file of the size of the value. -/
namespace Mooncake.Master
open Program List

section Strategy
variable {H : Type}

def sizing : Contract (AllocOp H) AllocOp.Answer Unit where
  requires _ _ := True
  ensures _
    | .allocate _ size, answer, _ => ∀ b, (answer : Option (AllocatedBuffer H)) = some b → b.size = size
    | _, _, _ => True

theorem sizing_free (s : Unit) (op : AllocOp H) : (sizing (H := H)).requires s op := trivial

def OfSize (size : Nat) (_ : Unit) (buffer : Option (AllocatedBuffer H)) : Prop :=
  ∀ b, buffer = some b → b.size = size

theorem allocateFirst_sized (size : Nat) (ids : List Nat) :
    Meets sizing (OfSize (H := H) size) () (allocateFirst size ids) := by
  induction ids with
  | nil => exact fun _ none => nomatch none
  | cons a rest ih =>
    refine (meets_perform (Q := OfSize size) trivial (fun _ _ sized => sized)).bind ?_
    rintro ⟨⟩ answer sized
    cases answer with
    | some b => exact sized
    | none => exact ih

theorem tryRandomAllocate_sized (ids : List Nat) (size : Nat) (excluded : List String) :
    Meets sizing (OfSize (H := H) size) () (tryRandomAllocate ids size excluded) := by
  refine (meets_true sizing_free (eligibleAllocators size excluded ids)).bind ?_
  rintro ⟨⟩ eligible -
  split
  · exact meets_pure (fun _ none => nomatch none)
  · refine (meets_true sizing_free (shuffle eligible)).bind ?_
    rintro ⟨⟩ order -
    exact allocateFirst_sized size _

variable {p : Placement}

theorem allocateSingleBuffer_sized (size : Nat) (excluded : List String) :
    Meets sizing (OfSize (H := H) size) () (allocateSingleBuffer p size excluded) := by
  unfold allocateSingleBuffer
  simp only
  split
  · refine (allocateFirst_sized size _).bind ?_
    rintro ⟨⟩ answer sized
    cases answer with
    | some b => exact sized
    | none => exact tryRandomAllocate_sized _ size excluded
  · exact tryRandomAllocate_sized _ size excluded

theorem allocateSlice_sized (size replicaNum : Nat) (used : List String) :
    Meets sizing (fun _ (bs : List (AllocatedBuffer H)) => bs.length ≤ replicaNum ∧ ∀ b ∈ bs, b.size = size) ()
      (allocateSlice p size replicaNum used) := by
  induction replicaNum generalizing used with
  | zero => exact ⟨Nat.le_refl 0, fun b none => nomatch none⟩
  | succ n ih =>
    refine (allocateSingleBuffer_sized size used).bind ?_
    rintro ⟨⟩ answer sized
    cases answer with
    | none => exact ⟨Nat.zero_le _, fun b none => nomatch none⟩
    | some b =>
      refine (meets_true sizing_free (getSegmentName b.allocator)).bind ?_
      rintro ⟨⟩ name -
      refine (ih (name :: used)).bind ?_
      rintro ⟨⟩ bs ⟨short, others⟩
      exact meets_pure ⟨Nat.succ_le_succ short, forall_mem_cons.mpr ⟨sized b rfl, others⟩⟩

theorem allocateSlices_sized (sizes before : List Nat) (count limit : Nat) (groups : List (List (AllocatedBuffer H)))
    (all : groups.length = count) (some_group : 0 < count) (short : count ≤ limit)
    (filled : ∀ bs ∈ groups, bs.map (·.size) = before) :
    Meets sizing (fun _ result => ∀ groups, result = .ok groups → groups ≠ [] ∧ groups.length ≤ limit ∧
        ∀ bs ∈ groups, bs.map (·.size) = before ++ sizes) () (allocateSlices p sizes count groups) := by
  induction sizes generalizing before count groups with
  | nil =>
    refine meets_pure ?_
    rintro _ ⟨⟩
    refine ⟨?_, all ▸ short, by simpa using filled⟩
    rintro rfl
    rw [← all] at some_group
    cases some_group
  | cons size sizes ih =>
    refine (allocateSlice_sized size count []).bind ?_
    rintro ⟨⟩ bs ⟨fewer, sized⟩
    split
    · refine (meets_true sizing_free (destroyBuffers groups.flatten)).bind ?_
      rintro ⟨⟩ - -
      exact meets_pure (fun _ wrong => nomatch wrong)
    · rename_i found
      have some_buffer : 0 < bs.length := length_pos_iff.mpr (by simpa using found)
      refine (meets_true sizing_free (destroyBuffers _)).bind ?_
      rintro ⟨⟩ - -
      rw [append_cons]
      refine ih (before ++ [size]) bs.length _ ?_ some_buffer (Nat.le_trans fewer short) ?_
      · rw [length_zipWith, all, Nat.min_eq_right fewer]
      · intro group member
        rw [← map_uncurry_zip_eq_zipWith] at member
        obtain ⟨⟨buffers, b⟩, zipped, rfl⟩ := mem_map.mp member
        obtain ⟨old, new⟩ := of_mem_zip zipped
        simp [Function.uncurry, filled buffers old, sized b new]

/-- Replicas in memory as a put of the given sizes gets them. -/
def Replicated (limit : Nat) (sizes : List Nat) (replicas : List (Replica H)) : Prop :=
  sizes ≠ [] ∧ replicas ≠ [] ∧ replicas.length ≤ limit ∧
    ∀ r ∈ replicas, ∃ buffers, r = ⟨.memory buffers, .processing⟩ ∧ buffers.map (·.size) = sizes

theorem allocateReplicas_sized (p : Placement) (sizes : List Nat) :
    Meets sizing (fun _ result => ∀ replicas, result = .ok replicas → Replicated p.config.replicaNum sizes replicas) ()
      (allocateReplicas (H := H) p sizes) := by
  unfold allocateReplicas
  split
  · rename_i accepted
    simp only [validateInput, Bool.and_eq_true, decide_eq_true_eq, Bool.not_eq_true', isEmpty_eq_false_iff]
      at accepted
    refine (allocateSlices_sized sizes [] _ _ _ length_replicate (Nat.pos_of_ne_zero accepted.1.1)
      (Nat.le_refl _) (fun bs member => by rw [eq_of_mem_replicate member]; rfl)).bind ?_
    rintro ⟨⟩ result filled
    cases result with
    | error e => exact meets_pure (fun _ wrong => by cases wrong)
    | ok groups =>
      obtain ⟨some_group, short, sized⟩ := filled groups rfl
      refine meets_pure ?_
      rintro _ ⟨⟩
      refine ⟨accepted.1.2, by simpa using some_group, by simpa using short, fun r member => ?_⟩
      obtain ⟨buffers, listed, rfl⟩ := mem_map.mp member
      exact ⟨buffers, rfl, sized buffers listed⟩
  · exact meets_pure (fun _ wrong => by cases wrong)

end Strategy

section Run
variable {A H : Type} [BufferAllocatorBase A H] {p : Params} {w w' : World A H} {e : Event}

def PutTask.Complete (task : PutTask H) (replicas : List (Replica H)) : Prop :=
  ∃ memory disk, replicas = memory ++ disk ∧ Replicated task.config.replicaNum task.sliceLengths memory ∧
    ∀ r ∈ disk, ∃ path, r = ⟨.disk path task.totalLength, .processing⟩

def PutTask.Sized (task : PutTask H) : Prop :=
  match task.phase with
  | .locked => True
  | .allocating _ program => Meets sizing (fun _ result => ∀ replicas, result = .ok replicas →
      Replicated task.config.replicaNum task.sliceLengths replicas) () program
  | .inserting replicas => task.Complete replicas

def World.Sized (w : World A H) : Prop := ∀ i task, w.busy i = some task → task.Sized

theorem perform_sized {valid : Nat → Bool} {h h' : Heap A} {choice : List Nat} {op : AllocOp H} {answer : op.Answer}
    (done : h.perform valid choice op = some (h', answer)) : sizing.ensures () op answer () := by
  cases op with
  | allocate a size =>
    have result : (h.allocate a size).2 = answer := congrArg Prod.snd (Option.some.inj done)
    intro b granted
    obtain ⟨failed, -⟩ | ⟨b', found, -, -, size, -⟩ := allocate_cases (H := H) h a size
    · rw [← result, failed] at granted
      cases granted
    · rw [← result, found] at granted
      cases granted
      exact size
  | getSegmentName a => trivial
  | getLargestFreeRegion a => trivial
  | shuffle indices => trivial
  | destroy b => trivial

omit [BufferAllocatorBase A H] in
theorem World.Sized.update (x : w.Sized) {i : Fin kNumShards} {put : Option (PutTask H)}
    (busy : w'.busy = Function.update w.busy i put) (sized : ∀ task, put = some task → task.Sized) : w'.Sized := by
  intro j task found
  rw [busy, Function.update_apply] at found
  split at found
  · exact sized task found
  · exact x j task found

theorem sized_step (x : w.Sized) (turn : Turn p w e w') : w'.Sized := by
  cases turn with
  | quiet same shards =>
    intro i task found
    exact x i task (same.busy ▸ found)
  | reordered i t perm same shards =>
    intro i task found
    exact x i task (same.busy ▸ found)
  | critical i free t gs swept shards heap locks nextObject readers segments =>
    rcases locks with busy | ⟨key, sliceLengths, config, -, busy, -, -⟩
    · intro i task found
      exact x i task (busy ▸ found)
    · refine x.update busy ?_
      rintro task ⟨⟩
      trivial
  | lock i task busy phase unlocked after =>
    subst after
    refine x.update rfl ?_
    rintro task' ⟨⟩
    exact allocateReplicas_sized ⟨w.segments.allocators, w.segments.allocatorsByName, task.config⟩ task.sliceLengths
  | call i task held op next busy phase choice heap answer performed after =>
    subst after
    refine x.update rfl ?_
    rintro task' ⟨⟩
    have before := x i task busy
    simp only [PutTask.Sized, phase] at before
    exact before.2 answer () (perform_sized performed)
  | unlock i task held result busy phase after =>
    subst after
    have before := x i task busy
    simp only [PutTask.Sized, phase] at before
    unfold World.putUnlock
    simp only
    split
    · exact x.update rfl (fun _ none => nomatch none)
    · exact x.update rfl (fun _ none => nomatch none)
    · rename_i replicas
      refine x.update rfl ?_
      rintro task' ⟨⟩
      refine ⟨replicas, _, rfl, before replicas rfl, fun r member => ?_⟩
      split at member
      · exact ⟨_, mem_singleton.mp member⟩
      · cases member
  | insert i choice task replicas asked busy phase after =>
    subst after
    have freed : (w.putInsert i task replicas).1.busy = Function.update w.busy i none := by
      unfold World.putInsert
      simp only
      split <;> rfl
    exact x.update freed (fun _ none => nomatch none)

theorem sized_reachable (reached : World.Reachable p w) : w.Sized := by
  obtain ⟨events, run⟩ := reached
  refine Run.invariant (fun w e w' x done => ?_) ?_ run
  · obtain ⟨r, inside⟩ := step_exec done
    exact sized_step x (World.exec_turn inside)
  · exact fun _ _ busy => nomatch busy

structure Allotment (limit : Nat) (sizes : List Nat) (replicas : List ReplicaDescriptor) : Prop where
  slices : sizes ≠ []
  shape : ∃ memory disk, replicas = memory ++ disk ∧ memory ≠ [] ∧ memory.length ≤ limit ∧
    (∀ r ∈ memory, ∃ handles, r = .memory handles .processing ∧ handles.map (·.size) = sizes) ∧
    ∀ r ∈ disk, ∃ path, r = .disk path (sizes.sum % 2 ^ 64) .processing

theorem describe_complete {task : PutTask H} {replicas : List (Replica H)} (complete : task.Complete replicas)
    (valid : Nat → Bool) (h : Heap A) :
    Allotment task.config.replicaNum task.sliceLengths (replicas.map (fun r => r.getDescriptor valid h)) := by
  obtain ⟨memory, disk, rfl, ⟨slices, some_replica, short, sized⟩, files⟩ := complete
  refine ⟨slices, _, _, map_append, by simpa using some_replica, by simpa using short, ?_, ?_⟩
  · intro r member
    obtain ⟨replica, listed, rfl⟩ := mem_map.mp member
    obtain ⟨buffers, rfl, sizes⟩ := sized replica listed
    refine ⟨buffers.map (h.bufferDescriptor valid), rfl, ?_⟩
    rw [← sizes, map_map]
    rfl
  · intro r member
    obtain ⟨replica, listed, rfl⟩ := mem_map.mp member
    obtain ⟨path, rfl⟩ := files replica listed
    exact ⟨path, congrArg (ReplicaDescriptor.disk path · .processing) (totalLength_eq task)⟩

/-- A `PutStart` that the master answers with replicas has been given them for its slices. -/
theorem putStart_allotment (reached : World.Reachable p w) {i : Fin kNumShards} {choice : List Nat} {task : PutTask H}
    {replicas : List ReplicaDescriptor} (busy : w.busy i = some task)
    (answered : w.exec p (.putAdvance i choice) = some (w', .replicas (.ok replicas))) :
    Allotment task.config.replicaNum task.sliceLengths replicas := by
  have sized := sized_reachable reached i task busy
  simp only [World.exec, World.putAdvance, busy] at answered
  cases phase : task.phase with
  | locked =>
    simp only [phase] at answered
    split at answered
    · cases answered
    · cases answered
  | allocating held program =>
    cases program with
    | call op next =>
      simp only [phase] at answered
      obtain ⟨⟨heap, answer⟩, -, same⟩ := Option.map_eq_some_iff.mp answered
      cases same
    | done result =>
      simp only [phase, World.putUnlock, Option.some.injEq] at answered
      split at answered <;> cases answered
  | inserting registered =>
    simp only [PutTask.Sized, phase] at sized
    simp only [phase, World.putInsert, Option.some.injEq] at answered
    have described := describe_complete sized w.isValid w.heap
    split at answered
    · cases answered
      exact described
    · cases answered
      exact described

end Run

/-- Some master, in a state that it can be in, answers the put of a key with these replicas. -/
def HandedOut (key : String) (sizes : List Nat) (config : ReplicateConfig) (replicas : List ReplicaDescriptor) :
    Prop :=
  ∃ (A H : Type) (_ : BufferAllocatorBase A H) (p : Params) (w w' : World A H) (i : Fin kNumShards) (choice : List Nat)
    (phase : PutPhase H), World.Reachable p w ∧ w.busy i = some ⟨key, sizes, config, phase⟩ ∧
      w.exec p (.putAdvance i choice) = some (w', .replicas (.ok replicas))

theorem HandedOut.allotment {key : String} {sizes : List Nat} {config : ReplicateConfig}
    {replicas : List ReplicaDescriptor} (handed : HandedOut key sizes config replicas) :
    Allotment config.replicaNum sizes replicas := by
  obtain ⟨A, H, _, p, w, w', i, choice, phase, reached, busy, answered⟩ := handed
  exact putStart_allotment reached busy answered

end Mooncake.Master
