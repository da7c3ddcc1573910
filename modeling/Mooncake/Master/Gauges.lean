import Mooncake.Master.Accounts
import Mooncake.Master.DiskReplicas
import Mooncake.Master.Lease

/-! The gauges against the state. Three of them are exact in every state. The fourth counts the
disk size that an object was made with, so it is exact until a `PutRevoke` takes the disk
replica out of an object that stays. -/
namespace Mooncake.Master

open Finset World Table
variable {A H : Type}

def ObjectMetadata.fileBytes (m : ObjectMetadata H) : BitVec 64 := (m.files.map (fun f => BitVec.ofNat 64 f.2)).sum

@[irreducible] def World.putBytes (w : World A H) : BitVec 64 := ∑ i, bytes (putBag (w.busy i))

structure World.Gauged (w : World A H) : Prop where
  allocatedMemSize : w.heap.metrics.allocatedMemSize = w.sumEntries (fun m => bytes m.bag) + w.putBytes
  keyCount : w.heap.metrics.keyCount = w.sumEntries (fun _ => 1)
  softPinKeyCount : w.heap.metrics.softPinKeyCount = w.sumEntries (fun m => if m.softPinTimeout.isSome then 1 else 0)
  allocatedFileSize : w.heap.metrics.allocatedFileSize = w.sumEntries ObjectMetadata.fileBytes

/-- `PutRevoke` takes the disk replica out of an object that stays. -/
def World.revokesDisk (p : Params) (w : World A H) : Event → Bool
  | .putRevoke key .disk =>
    (w.entry (p.getShardIndex key) key).any (fun m =>
      ((m.clean w.isValid).hasDiffRepStatus .processing .disk).isNone && !m.files.isEmpty &&
        ((m.clean w.isValid).dropReplicas .disk).1.isSome)
  | _ => false

/-! Sums over the entries. -/

theorem total_hom {μ ν : Type} [AddCommMonoid μ] [AddCommMonoid ν] (f : μ →+ ν) (weight : ObjectMetadata H → μ)
    (t : Shard H) : f (total (fun _ m => weight m) t) = total (fun _ m => f (weight m)) t := by
  unfold total
  rw [map_list_sum, List.map_map]
  rfl

theorem sumEntries_hom {μ ν : Type} [AddCommMonoid μ] [AddCommMonoid ν] (f : μ →+ ν) (weight : ObjectMetadata H → μ)
    (w : World A H) : f (w.sumEntries weight) = w.sumEntries (fun m => f (weight m)) := by
  unfold sumEntries
  rw [map_sum]
  exact sum_congr rfl (fun i _ => total_hom f weight (w.shards i))

theorem bytes_bag (w : World A H) : bytes w.bag = w.sumEntries (fun m => bytes m.bag) + w.putBytes := by
  unfold bag sumEntries putBytes
  rw [map_sum, ← sum_add_distrib]
  refine sum_congr rfl (fun i _ => ?_)
  rw [cell, map_add, total_hom]

theorem total_congr {μ : Type} [AddCommMonoid μ] {f g : ObjectMetadata H → μ} {t : Shard H}
    (same : ∀ key m, t.lookup key = some m → f m = g m) :
    total (fun _ m => f m) t = total (fun _ m => g m) t := by
  unfold total
  refine congrArg List.sum (List.map_congr_left (fun entry member => ?_))
  exact same entry.1 entry.2 (AList.mem_lookup_iff.mpr member)

variable {w : World A H}

theorem sumEntries_congr {μ : Type} [AddCommMonoid μ] {f g : ObjectMetadata H → μ}
    (same : ∀ i key m, w.entry i key = some m → f m = g m) : w.sumEntries f = w.sumEntries g := by
  unfold sumEntries
  exact sum_congr rfl (fun i _ => total_congr (same i))

theorem sumEntries_except {f g : ObjectMetadata H → BitVec 64} {i : Fin kNumShards} {key : String}
    {m : ObjectMetadata H} (found : w.entry i key = some m)
    (same : ∀ j k m', w.entry j k = some m' → ¬(j = i ∧ k = key) → f m' = g m') :
    w.sumEntries f + g m = w.sumEntries g + f m := by
  have here : total (fun _ m => f m) (w.shards i) + g m = total (fun _ m => g m) (w.shards i) + f m := by
    have rest : total (fun _ m => f m) ((w.shards i).erase key) =
        total (fun _ m => g m) ((w.shards i).erase key) := by
      refine total_congr (fun k m' listed => ?_)
      obtain ⟨other, before⟩ := lookup_erase_eq_some.mp listed
      exact same i k m' before (fun both => other both.2)
    rw [total_erase (fun _ m => f m) found, total_erase (fun _ m => g m) found, rest]
    exact add_right_comm _ _ _ |>.trans (by rw [add_comm (f m) (g m)]; exact add_right_comm _ _ _)
  have others : ∑ j ∈ univ.erase i, total (fun _ m => f m) (w.shards j) =
      ∑ j ∈ univ.erase i, total (fun _ m => g m) (w.shards j) := by
    refine sum_congr rfl (fun j member => total_congr (fun k m' listed => ?_))
    exact same j k m' listed (fun both => (mem_erase.mp member).1 both.1)
  unfold sumEntries
  rw [← add_sum_erase _ (fun j => total (fun _ m => f m) (w.shards j)) (mem_univ i), others,
    ← add_sum_erase _ (fun j => total (fun _ m => g m) (w.shards j)) (mem_univ i),
    add_right_comm, here, add_right_comm]

/-! The disk size of an entry. -/

def World.Whole (w : World A H) : Prop :=
  ∀ i key m, w.entry i key = some m → m.fileBytes = BitVec.ofNat 64 m.diskReplicaSize

/-- Three gauges are exact, and the fourth counts what the objects were made with. -/
theorem gauged_iff (x : Accounted w) :
    w.Gauged ↔ w.sumEntries (fun m => BitVec.ofNat 64 m.diskReplicaSize) = w.sumEntries ObjectMetadata.fileBytes := by
  obtain ⟨memory, counts⟩ := Prod.mk.inj x
  have part : ∀ f : Account →+ BitVec 64, f (w.heap.metrics.keyCount, w.heap.metrics.softPinKeyCount,
      w.heap.metrics.allocatedFileSize) = w.sumEntries (fun m => f m.account) := by
    intro f
    rw [counts]
    exact sumEntries_hom f ObjectMetadata.account w
  have keys := part (AddMonoidHom.fst _ _)
  have pins := part ((AddMonoidHom.fst _ _).comp (AddMonoidHom.snd _ _))
  have files := part ((AddMonoidHom.snd _ _).comp (AddMonoidHom.snd _ _))
  constructor
  · intro gauged
    exact files.symm.trans gauged.allocatedFileSize
  · intro same
    exact ⟨memory.trans (bytes_bag w), keys, pins, files.trans same⟩

section Steps
variable [BufferAllocatorBase A H] {p : Params} {w w' : World A H} {e : Event} {key : String} {m m' : ObjectMetadata H}

omit [BufferAllocatorBase A H] in
theorem whole_put (x : Filed p key m) (files : m.files = putFiles p key m.size) :
    m.fileBytes = BitVec.ofNat 64 m.diskReplicaSize := by
  rw [ObjectMetadata.fileBytes, files, x.recorded, putFiles]
  cases p.useDiskReplica with
  | false => rfl
  | true => exact add_zero _

/-- Where an entry comes from that does not have all its disk replicas any more. -/
theorem whole_origin (x : DiskState p w) (whole : w.Whole) (turn : Turn p w e w') {i : Fin kNumShards}
    (found : w'.entry i key = some m') :
    m'.fileBytes = BitVec.ofNat 64 m'.diskReplicaSize ∨ e = .putRevoke key .disk ∧ w.revokesDisk p e = true := by
  obtain ⟨m, before, effect⟩ | ⟨choice, task, replicas, -, busy, phase, rfl, -, rfl⟩ := turn_origin turn found
  · obtain ⟨recorded, same | ⟨asked, writing, left, none⟩⟩ := effect.files
    · refine Or.inl ?_
      rw [ObjectMetadata.fileBytes, same, recorded]
      exact whole i key m before
    · by_cases empty : m.files = []
      · refine Or.inl ?_
        rw [ObjectMetadata.fileBytes, none, ← empty, recorded]
        exact whole i key m before
      · refine Or.inr ⟨asked, ?_⟩
        rw [← x.located.home i key m before] at before
        simp [asked, revokesDisk, before, writing, left, empty]
  · have files := x.put i task replicas busy phase
    exact Or.inl (whole_put (filed_make w.nextObject files) files)

theorem whole_kept (x : DiskState p w) (whole : w.Whole) (turn : Turn p w e w')
    (spares : w.revokesDisk p e = false) : w'.Whole := by
  intro i key m' found
  refine (whole_origin x whole turn found).resolve_right ?_
  rintro ⟨-, revokes⟩
  cases spares.symm.trans revokes

theorem revokesDisk_entry (x : DiskState p w) {r : Reply} (done : w.exec p e = some (w', r))
    (revokes : w.revokesDisk p e = true) : ∃ key m', e = .putRevoke key .disk ∧
      w'.entry (p.getShardIndex key) key = some m' ∧ m'.fileBytes = 0 ∧ BitVec.ofNat 64 m'.diskReplicaSize ≠ 0 := by
  unfold revokesDisk at revokes
  split at revokes
  swap
  · cases revokes
  rename_i key
  obtain ⟨m, before, conditions⟩ := (Option.any_eq_true _ _).mp revokes
  simp only [Bool.and_eq_true, Bool.not_eq_true', List.isEmpty_eq_false_iff, Option.isNone_iff_eq_none] at conditions
  obtain ⟨⟨writing, some_file⟩, stays⟩ := conditions
  obtain ⟨m', left⟩ := Option.isSome_iff_exists.mp stays
  obtain ⟨some_replica, sized⟩ := dropReplicas_valid left
  have erased := dropReplicas_some left
  have cleaned : (m.clean w.isValid).replicas ≠ [] := by
    intro none
    rw [erased, ObjectMetadata.eraseReplica, none] at some_replica
    exact some_replica rfl
  have after : w'.entry (p.getShardIndex key) key = some m' := by
    rw [(request_entry done).2, before, (accessEntry_of_replicas cleaned _ _).2, ObjectMetadata.putRevoke, writing]
    exact left
  have filed := x.entry _ key m before
  have used : p.useDiskReplica = true := by
    rcases filed.files with same | none
    · rw [same, putFiles] at some_file
      by_contra unused
      simp [unused] at some_file
    · exact absurd none some_file
  refine ⟨key, m', rfl, after, ?_, ?_⟩
  · rw [ObjectMetadata.fileBytes, erased, erase_files]
    rfl
  · have recorded : m'.diskReplicaSize = m'.size := by
      have kept := filed.recorded
      rw [if_pos used] at kept
      rw [erased]
      exact kept
    have bounded : m'.size < 2 ^ 64 := by
      rw [erased]
      exact filed.bounded
    rw [recorded]
    intro zero
    have value := congrArg BitVec.toNat zero
    rw [BitVec.toNat_ofNat, Nat.mod_eq_of_lt bounded] at value
    exact Nat.ne_of_gt sized value

structure Exact (p : Params) (w : World A H) : Prop where
  disk : DiskState p w
  accounted : Accounted w
  whole : w.Whole

omit [BufferAllocatorBase A H] in
theorem exact_start (p : Params) : Exact p (start p : World A H) :=
  ⟨diskState_start p, accounted_start p, fun _ _ _ found => (nomatch found)⟩

theorem exact_kept (w : World A H) (e : Event) (w' : World A H) (x : Exact p w) (spares : w.revokesDisk p e = false)
    (done : w.step p e = some w') : Exact p w' := by
  obtain ⟨r, inside⟩ := step_exec done
  exact ⟨diskState_kept w e w' x.disk done, accounted_exec x.disk.located.sound x.accounted inside,
    whole_kept x.disk x.whole (exec_turn inside) spares⟩

omit [BufferAllocatorBase A H] in
theorem Exact.gauged (x : Exact p w) : w.Gauged := by
  refine (gauged_iff x.accounted).mpr (sumEntries_congr (fun i key m found => ?_))
  exact (x.whole i key m found).symm

theorem gauged_iff_spared (x : Exact p w) (done : w.step p e = some w') : w'.Gauged ↔ w.revokesDisk p e = false := by
  constructor
  · intro gauged
    by_contra revoked
    obtain ⟨r, inside⟩ := step_exec done
    have turn := exec_turn inside
    obtain ⟨key, m', rfl, found, none, counted⟩ := revokesDisk_entry x.disk inside (by simpa using revoked)
    -- the entry is the only one that is counted with more than it has
    have accounted := accounted_exec x.disk.located.sound x.accounted inside
    have home := (diskState_kept w _ w' x.disk done).located.home
    have apart : w'.sumEntries ObjectMetadata.fileBytes + BitVec.ofNat 64 m'.diskReplicaSize =
        w'.sumEntries (fun m => BitVec.ofNat 64 m.diskReplicaSize) + m'.fileBytes := by
      refine sumEntries_except (g := fun m => BitVec.ofNat 64 m.diskReplicaSize) found ?_
      intro j k m'' found' other
      refine (whole_origin x.disk x.whole turn found').resolve_right ?_
      rintro ⟨same, -⟩
      cases same
      exact other ⟨(home j key m'' found').symm, rfl⟩
    rw [(gauged_iff accounted).mp gauged, none, add_zero] at apart
    exact counted (add_eq_left.mp apart)
  · intro spares
    exact (exact_kept w e w' x spares done).gauged

/-- The gauges equal the state in all states of a run exactly if no step of it revokes the disk
replica of an object that stays. -/
theorem gauges_exact_iff_disk_spared {events : List Event}
    (run : Run.run (World.step p) (World.start p) events = some w) :
    Run.Every (World.step p) (fun _ _ w' => w'.Gauged) (World.start p : World A H) events ↔
      Run.Guarded (World.step p) (fun w e => w.revokesDisk p e = false) (World.start p : World A H) events :=
  Run.every_iff_guarded_of_kept exact_kept (fun _ _ _ x done => gauged_iff_spared x done) (exact_start p) run

end Steps

namespace Sample

def diskPut : List Event := mount segmentA clientA ++ put "k" "a"

end Sample

open Sample in
theorem gauges_exact_after_put : ∃ w : State,
    Run.run (World.step diskParams) (World.start diskParams) (diskPut ++ [.putRevoke "k" .memory]) = some w ∧
      Run.Every (World.step diskParams) (fun _ _ w' => w'.Gauged) (World.start diskParams : State)
        (diskPut ++ [.putRevoke "k" .memory]) := by
  have outcome : (Run.run (step diskParams) (start diskParams : State)
      (diskPut ++ [.putRevoke "k" .memory])).isSome = true := by decide +kernel
  obtain ⟨w, run⟩ := Option.isSome_iff_exists.mp outcome
  exact ⟨w, run, (gauges_exact_iff_disk_spared run).mpr (by decide +kernel)⟩

open Sample in
/-- `PutRevoke` of the disk replica leaves an object without one, and the gauge at its size. -/
theorem revoked_disk_still_counted : ∃ w w' : State,
    World.Reachable diskParams w ∧ w.exec diskParams (.putRevoke "k" .disk) = some (w', .void (.ok ())) ∧
      w'.heap.metrics.allocatedFileSize = 1024 ∧ (w'.entry shard "k").map ObjectMetadata.files = some [] ∧
      ¬w'.Gauged := by
  have outcome : (Run.run (step diskParams) (start diskParams : State) diskPut).bind (fun w =>
      (w.exec diskParams (.putRevoke "k" .disk)).map (fun r =>
        decide (r.2 = .void (.ok ()) ∧ r.1.heap.metrics.allocatedFileSize = 1024 ∧
          (r.1.entry shard "k").map ObjectMetadata.files = some [] ∧
          w.revokesDisk diskParams (.putRevoke "k" .disk) = true))) = some true := by decide +kernel
  obtain ⟨w, run, seen⟩ := Option.bind_eq_some_iff.mp outcome
  obtain ⟨⟨w', reply⟩, done, observed⟩ := Option.map_eq_some_iff.mp seen
  obtain ⟨answer, gauge, files, revokes⟩ := of_decide_eq_true observed
  rw [show reply = .void (.ok ()) from answer] at done
  have spared : Run.Guarded (step diskParams) (fun w e => w.revokesDisk diskParams e = false)
      (start diskParams : State) diskPut := by decide +kernel
  have exact_before : Exact diskParams w := Run.guarded_invariant exact_kept (exact_start diskParams) run spared
  have stepped : w.step diskParams (.putRevoke "k" .disk) = some w' := by
    rw [step, done]
    rfl
  refine ⟨w, w', ⟨diskPut, run⟩, done, gauge, files, fun gauged => ?_⟩
  cases revokes.symm.trans ((gauged_iff_spared exact_before stepped).mp gauged)

end Mooncake.Master
