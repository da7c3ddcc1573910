import Mooncake.Master.DiskPath
import Mooncake.Master.Puts

/-! The disk replica of an object: `PutStart` makes one at most, with the path of the key and
the size of the object, and nothing but a `PutRevoke` of it takes it out of an entry. -/
namespace Mooncake.Master

open ObjectMetadata Function
variable {A H : Type}

def Replica.file? (r : Replica H) : Option (String × Nat) :=
  match r.data with
  | .memory _ => none
  | .disk filePath objectSize => some (filePath, objectSize)

def ObjectMetadata.files (m : ObjectMetadata H) : List (String × Nat) := m.replicas.filterMap Replica.file?

def putFiles (p : Params) (key : String) (size : Nat) : List (String × Nat) :=
  if p.useDiskReplica then [(p.resolvePath key, size)] else []

section Entry
variable {m m' : ObjectMetadata H}

theorem file?_memory {r : Replica H} (memory : r.type = .memory) : r.file? = none := by
  obtain ⟨data, status⟩ := r
  cases data with
  | memory buffers => rfl
  | disk path size => cases memory

theorem files_filter {m m' : ObjectMetadata H} {q : Replica H → Bool} (kept : m'.replicas = m.replicas.filter q)
    (memory : ∀ r, q r = false → r.type = .memory) : m'.files = m.files := by
  rw [files, files, kept, List.filterMap_filter]
  congr 1
  funext r
  cases spared : q r with
  | true => rfl
  | false => exact (file?_memory (memory r spared)).symm

theorem clean_files (valid : Nat → Bool) (m : ObjectMetadata H) : (m.clean valid).files = m.files := by
  refine files_filter rfl ?_
  intro r stale
  obtain ⟨data, status⟩ := r
  cases data with
  | memory buffers => rfl
  | disk path size => cases stale

theorem mark_files (m : ObjectMetadata H) (type : ReplicaType) : (m.markReplicas type).files = m.files := by
  rw [files, files, markReplicas, List.filterMap_map]
  congr 1
  funext r
  have data : (if r.type = type then r.markComplete else r).data = r.data := by
    unfold Replica.markComplete
    split
    · split <;> rfl
    · rfl
  simp only [comp_apply, Replica.file?, data]

theorem erase_files (m : ObjectMetadata H) (type : ReplicaType) :
    (m.eraseReplica type).1.files = if type = .disk then [] else m.files := by
  cases type with
  | memory => exact files_filter rfl (fun r erased => by simpa using erased)
  | disk =>
    refine List.filterMap_eq_nil_iff.mpr (fun r member => ?_)
    obtain ⟨data, status⟩ := r
    cases data with
    | memory buffers => rfl
    | disk path size => exact absurd rfl (mem_eraseReplica.mp member).2

end Entry

variable [BufferAllocatorBase A H] {p : Params} {w w' : World A H} {e : Event} {key : String}

omit [BufferAllocatorBase A H] in
/-- What an effect leaves alone: the recorded size, and the disk replicas unless they are revoked. -/
theorem Effect.files {m m' : ObjectMetadata H} (effect : Effect p w e key m (some m')) :
    m'.diskReplicaSize = m.diskReplicaSize ∧
      (m'.files = m.files ∨ e = .putRevoke key .disk ∧ (m.clean w.isValid).hasDiffRepStatus .processing .disk = none ∧
        ((m.clean w.isValid).dropReplicas .disk).1 = some m' ∧ m'.files = []) := by
  generalize left : some m' = out at effect
  cases effect with
  | kept =>
    cases left
    exact ⟨rfl, Or.inl rfl⟩
  | cleaned =>
    cases left
    exact ⟨rfl, Or.inl (clean_files w.isValid m)⟩
  | leased =>
    cases left
    exact ⟨rfl, Or.inl (clean_files w.isValid m)⟩
  | listed =>
    cases left
    exact ⟨rfl, Or.inl rfl⟩
  | ended type =>
    cases left
    exact ⟨rfl, Or.inl ((mark_files _ type).trans (clean_files w.isValid m))⟩
  | revoked type asked writing =>
    have same := dropReplicas_some left.symm
    cases type with
    | memory =>
      rw [same]
      exact ⟨rfl, Or.inl ((erase_files _ .memory).trans (clean_files w.isValid m))⟩
    | disk =>
      refine ⟨by rw [same]; rfl, Or.inr ⟨asked, writing, rfl, ?_⟩⟩
      rw [same]
      exact erase_files _ .disk
  | evicted =>
    rw [dropReplicas_some left.symm]
    exact ⟨rfl, Or.inl (erase_files m .memory)⟩
  | emptied => cases left
  | removed => cases left
  | matched => cases left
  | swept => cases left

structure Filed (p : Params) (key : String) (m : ObjectMetadata H) : Prop where
  recorded : m.diskReplicaSize = if p.useDiskReplica then m.size else 0
  bounded : m.size < 2 ^ 64
  files : m.files = putFiles p key m.size ∨ m.files = []

structure DiskState (p : Params) (w : World A H) : Prop where
  located : Located p w
  put : ∀ i task replicas, w.busy i = some task → task.phase = .inserting replicas →
    replicas.filterMap Replica.file? = putFiles p task.key task.totalLength
  entry : ∀ i key m, w.entry i key = some m → Filed p key m

omit [BufferAllocatorBase A H] in
theorem totalLength_lt (task : PutTask H) : task.totalLength < 2 ^ 64 := by
  rw [totalLength_eq]
  exact Nat.mod_lt _ (by decide)

omit [BufferAllocatorBase A H] in
theorem sum_diskSize (reps : List (Replica H)) :
    (reps.map (fun r => r.data.diskSize)).sum = ((reps.filterMap Replica.file?).map Prod.snd).sum := by
  induction reps with
  | nil => rfl
  | cons r reps ih =>
    obtain ⟨data, status⟩ := r
    cases data with
    | memory buffers => exact (Nat.zero_add _).trans ih
    | disk path size => exact congrArg (size + ·) ih

omit [BufferAllocatorBase A H] in
theorem filed_make {task : PutTask H} {replicas : List (Replica H)} (object : Nat)
    (files : replicas.filterMap Replica.file? = putFiles p task.key task.totalLength) :
    Filed p task.key (.make object task.totalLength replicas task.config.withSoftPin) := by
  refine ⟨?_, totalLength_lt task, Or.inl files⟩
  have recorded : (make object task.totalLength replicas task.config.withSoftPin).diskReplicaSize =
      ((putFiles p task.key task.totalLength).map Prod.snd).sum % 2 ^ 64 := by
    rw [make, foldl_mod_eq (by decide) _ (by decide), sum_diskSize, files, Nat.zero_add]
  rw [recorded, putFiles]
  cases p.useDiskReplica with
  | false => rfl
  | true => exact Nat.mod_eq_of_lt (totalLength_lt task)

omit [BufferAllocatorBase A H] in
theorem filed_effect {m m' : ObjectMetadata H} (x : Filed p key m) (effect : Effect p w e key m (some m')) :
    Filed p key m' := by
  obtain ⟨recorded, files⟩ := effect.files
  have size := (effect.inherits rfl).size
  refine ⟨by rw [recorded, size, x.recorded], size ▸ x.bounded, ?_⟩
  rcases files with same | ⟨-, -, -, none⟩
  · rw [same, size]
    exact x.files
  · exact Or.inr none

/-- What a put is about to insert has the file of its key. -/
def OwnFiles (p : Params) (put : Option (PutTask H)) : Prop :=
  ∀ task replicas, put = some task → task.phase = .inserting replicas →
    replicas.filterMap Replica.file? = putFiles p task.key task.totalLength

omit [BufferAllocatorBase A H] in
theorem putUnlock_files (x : Sound p w) {i : Fin kNumShards} {task : PutTask H} {held : List (AllocatedBuffer H)}
    {result : Except ErrorCode (List (Replica H))} (put : w.busy i = some task)
    (phase : task.phase = .allocating held (.done result)) :
    ∃ put', (w.putUnlock p i task result).1.busy = update w.busy i put' ∧ OwnFiles p put' := by
  obtain ⟨-, -, sound⟩ := x.inFlight.put i task put
  rw [phase] at sound
  obtain ⟨-, placed⟩ := sound
  unfold World.putUnlock
  simp only
  split
  · exact ⟨none, rfl, fun _ _ none => (nomatch none)⟩
  · exact ⟨none, rfl, fun _ _ none => (nomatch none)⟩
  · rename_i memory
    obtain ⟨-, -, fresh⟩ := placed
    have none : memory.filterMap Replica.file? = [] :=
      List.filterMap_eq_nil_iff.mpr (fun r member => file?_memory (fresh r member).2.1)
    refine ⟨_, rfl, ?_⟩
    rintro task' replicas same inserting
    cases same
    cases inserting
    rw [List.filterMap_append, none, putFiles]
    cases p.useDiskReplica with
    | false => rfl
    | true => rfl

theorem diskState_put (x : DiskState p w) (turn : Turn p w e w') : ∀ j, OwnFiles p (w'.busy j) := by
  have update {i : Fin kNumShards} {put : Option (PutTask H)} (changed : w'.busy = update w.busy i put)
      (here : OwnFiles p put) : ∀ j, OwnFiles p (w'.busy j) := by
    rw [changed]
    exact (forall_update_iff w.busy fun _ => OwnFiles p).mpr ⟨here, fun j _ => x.put j⟩
  cases turn with
  | quiet same => exact same.busy ▸ x.put
  | reordered i t perm same => exact same.busy ▸ x.put
  | critical i free t gs swept shards heap locks =>
    rcases locks with same | ⟨k, sliceLengths, config, -, changed, -⟩
    · exact same ▸ x.put
    · exact update changed (fun _ _ same phase => by cases same; cases phase)
  | lock i task busy phase unlocked after =>
    have changed : w'.busy = Function.update w.busy i (some { task with phase := .allocating [] (allocateReplicas
        ⟨w.segments.allocators, w.segments.allocatorsByName, task.config⟩ task.sliceLengths) }) := by rw [after]; rfl
    exact update changed (fun _ _ same phase => by cases same; cases phase)
  | call i task held op next busy phase choice heap answer performed after =>
    have changed : w'.busy = Function.update w.busy i
        (some { task with phase := .allocating (op.track held answer) (next answer) }) := by rw [after]; rfl
    exact update changed (fun _ _ same phase => by cases same; cases phase)
  | unlock i task held result busy phase after =>
    obtain ⟨put', changed, files⟩ := putUnlock_files x.located.sound busy phase
    exact update (after ▸ changed) files
  | insert i choice task replicas asked busy phase after =>
    have changed : w'.busy = Function.update w.busy i none := by
      rw [after]
      exact (putInsert_world w i task replicas).1
    exact update changed (fun _ _ none => (nomatch none))

theorem diskState_kept (w : World A H) (e : Event) (w' : World A H) (x : DiskState p w)
    (done : w.step p e = some w') : DiskState p w' := by
  obtain ⟨r, inside⟩ := step_exec done
  have turn := World.exec_turn inside
  refine ⟨located_kept w e w' x.located done, diskState_put x turn, ?_⟩
  intro i key m' found
  obtain ⟨m, before, effect⟩ | ⟨choice, task, replicas, -, busy, phase, rfl, -, rfl⟩ := turn_origin turn found
  · exact filed_effect (x.entry i key m before) effect
  · exact filed_make w.nextObject (x.put i task replicas busy phase)

omit [BufferAllocatorBase A H] in
theorem diskState_start (p : Params) : DiskState p (World.start p : World A H) :=
  ⟨located_start p, fun _ _ _ none => (nomatch none), fun _ _ _ found => (nomatch found)⟩

end Mooncake.Master
