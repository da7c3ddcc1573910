import Mooncake.Master.Registration

/-! The bulk requests against the requests for one key. A request for one key drops stale
replicas before it looks at the rest; the bulk requests read the entries as they stand. -/
namespace Mooncake.Master

open Option List ObjectMetadata World
variable {A H : Type} [BufferAllocatorBase A H]

def World.listSingle (p : Params) (w : World A H) (key : String) : Option (List ReplicaDescriptor) :=
  match w.exec p (.getReplicaList key) with
  | some (_, .replicas (.ok list)) => some list
  | _ => none

def World.removesSingle (p : Params) (w : World A H) (key : String) : Bool :=
  match w.exec p (.remove key) with
  | some (_, .void (.ok _)) => true
  | _ => false

variable (m : ObjectMetadata H)

omit [BufferAllocatorBase A H] in
def ObjectMetadata.leases : Int × Option Int := (m.leaseTimeout, m.softPinTimeout)

/-- One shard of `GetReplicaListByRegex`: the keys that `GetReplicaList` would find, with its
lists and its leases. -/
structure World.ListAgrees (p : Params) (w w' : World A H) (id : Nat) (found : String → Bool) (i : Fin kNumShards)
    (results : List (String × List ReplicaDescriptor)) : Prop where
  results : w'.tasks.lookup id = some (.replicaListByRegex found (i + 1) (results ++
    (w.shards i).entries.filterMap (fun e => (if found e.1 then w.listSingle p e.1 else none).map (Prod.mk e.1))))
  granted : ∀ key m single list, w.entry i key = some m → found key = true →
    w.exec p (.getReplicaList key) = some (single, .replicas (.ok list)) →
    (w'.entry i key).map ObjectMetadata.leases = (single.entry i key).map ObjectMetadata.leases
  others : ∀ key m, w.entry i key = some m → (found key = false ∨ w.listSingle p key = none) → w'.entry i key = some m

/-- One shard of `RemoveByRegex`: the keys that `Remove` would remove, and their number. -/
structure World.RemoveAgrees (p : Params) (w w' : World A H) (id : Nat) (found : String → Bool) (i : Fin kNumShards)
    (removed : Nat) : Prop where
  count : w'.tasks.lookup id = some (.removeByRegex found (i + 1) (removed +
    (w.shards i).entries.countP (fun e => found e.1 && w.removesSingle p e.1)))
  entries : ∀ key m, w.entry i key = some m →
    w'.entry i key = if found key && w.removesSingle p key then none else some m

/-- A step of a bulk request agrees with the requests for one key at that moment; the last step
returns what the others have collected. -/
structure World.RegexAgrees (p : Params) (w : World A H) (e : Event) (w' : World A H) : Prop where
  list : ∀ id found next results, e = .advance id → w.tasks.lookup id = some (.replicaListByRegex found next results) →
    if below : next < kNumShards then w.ListAgrees p w' id found ⟨next, below⟩ results
    else w.exec p e = some (w', .replicaLists (.ok results))
  remove : ∀ id found next removed, e = .advance id → w.tasks.lookup id = some (.removeByRegex found next removed) →
    if below : next < kNumShards then w.RemoveAgrees p w' id found ⟨next, below⟩ removed
    else w.exec p e = some (w', .removed (.ok removed))

/-! When the two agree. -/

variable (valid : Nat → Bool)

omit [BufferAllocatorBase A H] in
def ObjectMetadata.freshList : Bool :=
  m.completeReplicas.all (fun r => !r.hasInvalidMemHandle valid)

omit [BufferAllocatorBase A H] in
/-- A valid replica is not complete; or one is valid and all are complete; or none is valid and one is not
complete. -/
def ObjectMetadata.freshRemove : Bool :=
  let stale := m.replicas.filter (·.hasInvalidMemHandle valid)
  let sound := m.replicas.filter (!·.hasInvalidMemHandle valid)
  !sound.all (·.status = .complete) || (stale.all (·.status = .complete) != sound.isEmpty)

omit [BufferAllocatorBase A H] in
theorem ObjectMetadata.freshRemove_eq : m.freshRemove valid =
    (m.isAllReplicasComplete == (!(m.clean valid).replicas.isEmpty && (m.clean valid).isAllReplicasComplete)) := by
  have whole : m.isAllReplicasComplete =
      ((m.replicas.filter (·.hasInvalidMemHandle valid)).all (·.status = .complete) &&
        (m.replicas.filter (!·.hasInvalidMemHandle valid)).all (·.status = .complete)) := by
    rw [Bool.eq_iff_iff]
    simp only [isAllReplicasComplete, Bool.and_eq_true, List.all_eq_true, mem_filter]
    grind
  have cases : ∀ a b c : Bool, (!b || (a != c)) = ((a && b) == (!c && b)) := by decide
  rw [whole]
  exact cases _ _ _

omit [BufferAllocatorBase A H] in
/-- The entries that a step of a bulk request matches are in a condition in which stale replicas
make no difference. -/
def World.regexFresh (w : World A H) : Event → Bool
  | .advance id =>
    match w.tasks.lookup id with
    | some (.replicaListByRegex found next _) =>
      if below : next < kNumShards then
        (w.shards ⟨next, below⟩).entries.all (fun e => !found e.1 || e.2.freshList w.isValid)
      else true
    | some (.removeByRegex found next _) =>
      if below : next < kNumShards then
        (w.shards ⟨next, below⟩).entries.all (fun e =>
          !found e.1 || !e.2.isLeaseExpired w.clock || e.2.freshRemove w.isValid)
      else true
    | _ => true
  | _ => true

/-! The requests for one key. -/

section Single
variable {p : Params} {w w' : World A H} {key : String} {i : Fin kNumShards} {m : ObjectMetadata H}

theorem World.request_of_free {ρ : Type} {missing : ρ} {use : ObjectMetadata H → Outcome H ρ} {reply : ρ → Reply}
    (free : w.busy (p.getShardIndex key) = none) :
    ∃ w', w.request p key missing use reply =
      some (w', reply (accessEntry w.isValid missing use (w.entry (p.getShardIndex key) key)).1) := by
  unfold request onShard
  rw [free]
  exact ⟨_, rfl⟩

omit [BufferAllocatorBase A H] in
theorem accessEntry_of_stale {ρ : Type} {valid : Nat → Bool} (stale : (m.clean valid).replicas = []) (missing : ρ)
    (use : ObjectMetadata H → Outcome H ρ) : (accessEntry valid missing use (some m)).1 = missing := by
  have none : (cleanupStaleHandles valid m).1.replicas.isEmpty = true := List.isEmpty_iff.mpr stale
  simp only [accessEntry, none, if_true]

variable (home : p.getShardIndex key = i)
include home

theorem listSingle_eq (free : w.busy i = none) (found : w.entry i key = some m) :
    w.listSingle p key =
      if (m.clean w.isValid).completeReplicas.isEmpty then none
      else some ((m.clean w.isValid).completeReplicas.map (fun r => r.getDescriptor w.isValid w.heap)) := by
  subst home
  obtain ⟨single, done⟩ : ∃ single, w.exec p (.getReplicaList key) = some (single, .replicas _) :=
    request_of_free free
  rw [listSingle, done, found]
  by_cases stale : (m.clean w.isValid).replicas = []
  · have none : (m.clean w.isValid).completeReplicas = [] := by rw [completeReplicas, stale]; rfl
    rw [accessEntry_of_stale stale, none]
    rfl
  · rw [(accessEntry_of_replicas stale _ _).1, getReplicaList]
    cases (m.clean w.isValid).completeReplicas.isEmpty with
    | true => rfl
    | false => rfl

theorem listSingle_leases (found : w.entry i key = some m) {single : World A H}
    {list : List ReplicaDescriptor} (done : w.exec p (.getReplicaList key) = some (single, .replicas (.ok list))) :
    m.completeReplicas.isEmpty = false ∧ (single.entry i key).map ObjectMetadata.leases =
      some (m.grantLease w.clock p.defaultKvLeaseTtl p.defaultKvSoftPinTtl).leases := by
  subst home
  obtain ⟨answer, entry⟩ := request_entry done
  rw [found] at answer entry
  by_cases stale : (m.clean w.isValid).replicas = []
  · rw [accessEntry_of_stale stale] at answer
    cases answer
  · rw [(accessEntry_of_replicas stale _ _).1, getReplicaList] at answer
    rw [entry, (accessEntry_of_replicas stale _ _).2, getReplicaList]
    cases ready : (m.clean w.isValid).completeReplicas.isEmpty with
    | true =>
      rw [ready] at answer
      cases answer
    | false =>
      refine ⟨?_, rfl⟩
      obtain ⟨r, listed⟩ := exists_mem_of_ne_nil _ (isEmpty_eq_false_iff.mp ready)
      obtain ⟨member, complete⟩ := mem_filter.mp listed
      exact isEmpty_eq_false_iff.mpr
        (ne_nil_of_mem (mem_filter.mpr ⟨(mem_filter.mp member).1, complete⟩))

theorem removesSingle_eq (free : w.busy i = none) (found : w.entry i key = some m) :
    w.removesSingle p key = (m.isLeaseExpired w.clock &&
      (!(m.clean w.isValid).replicas.isEmpty && (m.clean w.isValid).isAllReplicasComplete)) := by
  subst home
  obtain ⟨single, done⟩ : ∃ single, w.exec p (.remove key) = some (single, .void _) := request_of_free free
  have lease : (m.clean w.isValid).isLeaseExpired w.clock = m.isLeaseExpired w.clock := rfl
  rw [removesSingle, done, found]
  by_cases stale : (m.clean w.isValid).replicas = []
  · rw [accessEntry_of_stale stale, stale]
    cases m.isLeaseExpired w.clock with
    | false => rfl
    | true => rfl
  · rw [(accessEntry_of_replicas stale _ _).1, remove, lease, isEmpty_eq_false_iff.mpr stale]
    cases m.isLeaseExpired w.clock with
    | false => rfl
    | true =>
      cases (m.clean w.isValid).isAllReplicasComplete with
      | false => rfl
      | true => rfl

end Single

/-! One step of a bulk request. -/

section Steps
variable {p : Params} {w w' : World A H} {key : String} {i : Fin kNumShards} {m : ObjectMetadata H} {id : Nat}
variable {found : String → Bool}

omit [BufferAllocatorBase A H] in
/-- Stale replicas make no difference to the list of an entry exactly if none of them is complete. -/
theorem freshList_iff (describe : Replica H → ReplicaDescriptor) :
    m.freshList valid = true ↔
      (m.clean valid).completeReplicas.map describe = m.completeReplicas.map describe := by
  have filtered : (m.clean valid).completeReplicas = m.completeReplicas.filter (fun r => !r.hasInvalidMemHandle valid) :=
    filter_comm ..
  rw [filtered, freshList]
  constructor
  · intro all
    rw [filter_eq_self.mpr (List.all_eq_true.mp all)]
  · intro same
    have lengths := congrArg length same
    rw [length_map, length_map, length_filter_eq_length_iff] at lengths
    exact List.all_eq_true.mpr lengths

def World.listBulk (w : World A H) (m : ObjectMetadata H) : Option (List ReplicaDescriptor) :=
  if m.completeReplicas.isEmpty then none
  else some (m.completeReplicas.map (fun r => r.getDescriptor w.isValid w.heap))

omit [BufferAllocatorBase A H] in
def removeBulk (found : String → Bool) (now : Int) (key : String) (m : ObjectMetadata H) : Bool :=
  found key && m.isLeaseExpired now && m.isAllReplicasComplete

theorem listBulk_iff (located : Located p w) (free : w.busy i = none) (entry : w.entry i key = some m) :
    m.freshList w.isValid = true ↔ w.listSingle p key = w.listBulk m := by
  rw [listSingle_eq (located.home i key m entry) free entry,
    freshList_iff w.isValid (fun r => r.getDescriptor w.isValid w.heap), listBulk]
  cases (m.clean w.isValid).completeReplicas with
  | nil =>
    cases m.completeReplicas with
    | nil => exact iff_of_true rfl rfl
    | cons r rs => exact iff_of_false nofun nofun
  | cons r rs =>
    cases m.completeReplicas with
    | nil => exact iff_of_false nofun nofun
    | cons r' rs' => exact (some_inj (a := _)).symm

theorem replicaListVisit_appends (now : Int) (ttl softTtl : Nat) (s : List (String × List ReplicaDescriptor))
    (key : String) (m : ObjectMetadata H) :
    (replicaListVisit found now ttl softTtl (fun r => r.getDescriptor w.isValid w.heap) s key m).1 =
      s ++ ((if found key then w.listBulk m else none).map (Prod.mk key)).toList := by
  unfold replicaListVisit listBulk
  cases found key with
  | false => exact (append_nil s).symm
  | true =>
    cases m.completeReplicas.isEmpty with
    | true => exact (append_nil s).symm
    | false => rfl

omit [BufferAllocatorBase A H] in
theorem removeByRegexVisit_counts (now : Int) (n : Nat) (key : String) (m : ObjectMetadata H) :
    (removeByRegexVisit found now n key m).1 = n + (removeBulk found now key m).toNat := by
  unfold removeByRegexVisit removeBulk
  cases found key && m.isLeaseExpired now && m.isAllReplicasComplete with
  | false => rfl
  | true => rfl

variable {results : List (String × List ReplicaDescriptor)} {next removed : Nat}

section
variable {r : Reply} (below : next < kNumShards) (done : w.exec p (.advance id) = some (w', r))
include done

theorem list_step (task : w.tasks.lookup id = some (.replicaListByRegex found next results)) :
    w.busy ⟨next, below⟩ = none ∧
      w'.tasks.lookup id = some (.replicaListByRegex found (next + 1) (results ++
        (w.shards ⟨next, below⟩).entries.filterMap (fun e =>
          (if found e.1 then w.listBulk e.2 else none).map (Prod.mk e.1)))) ∧
      ∀ key m, w.entry ⟨next, below⟩ key = some m → w'.entry ⟨next, below⟩ key =
        some (if found key && !m.completeReplicas.isEmpty then
          m.grantLease w.clock p.defaultKvLeaseTtl p.defaultKvSoftPinTtl else m) := by
  simp only [exec, task, taskAdvance, dif_pos below] at done
  obtain ⟨free, same⟩ := onShard_map done
  cases same
  refine ⟨free, ?_, ?_⟩
  · simp only [setTask, AList.lookup_insert]
    refine congrArg (fun rs => some (Task.replicaListByRegex found (next + 1) rs)) ?_
    exact Table.sweep_appends (replicaListVisit_appends w.clock _ _) results (w.shards ⟨next, below⟩)
  · intro key m entry
    simp only [World.entry, World.setTask, World.cut, Function.update_self]
    obtain ⟨none, -⟩ | ⟨s, v, before, after⟩ := Table.lookup_sweep (replicaListVisit found w.clock p.defaultKvLeaseTtl
      p.defaultKvSoftPinTtl (fun r => r.getDescriptor w.isValid w.heap)) results (w.shards ⟨next, below⟩) key
    · cases none.symm.trans entry
    · cases before.symm.trans entry
      rw [after]
      unfold replicaListVisit
      split <;> rfl

theorem remove_step (task : w.tasks.lookup id = some (.removeByRegex found next removed)) :
    w.busy ⟨next, below⟩ = none ∧
      w'.tasks.lookup id = some (.removeByRegex found (next + 1) (removed +
        (w.shards ⟨next, below⟩).entries.countP (fun e => removeBulk found w.clock e.1 e.2))) ∧
      ∀ key m, w.entry ⟨next, below⟩ key = some m → w'.entry ⟨next, below⟩ key =
        if removeBulk found w.clock key m then none else some m := by
  simp only [exec, task, taskAdvance, dif_pos below] at done
  obtain ⟨free, same⟩ := onShard_map done
  cases same
  refine ⟨free, ?_, ?_⟩
  · simp only [setTask, AList.lookup_insert]
    refine congrArg (fun n => some (Task.removeByRegex found (next + 1) n)) ?_
    exact Table.sweep_counts (removeByRegexVisit_counts w.clock) removed (w.shards ⟨next, below⟩)
  · intro key m entry
    simp only [World.entry, World.setTask, World.cut, Function.update_self]
    obtain ⟨none, -⟩ | ⟨s, v, before, after⟩ := Table.lookup_sweep (removeByRegexVisit found w.clock) removed
      (w.shards ⟨next, below⟩) key
    · cases none.symm.trans entry
    · cases before.symm.trans entry
      rw [after]
      unfold removeByRegexVisit removeBulk
      split <;> rfl

/-! Agreement. -/

theorem listAgrees_iff (located : Located p w)
    (task : w.tasks.lookup id = some (.replicaListByRegex found next results)) :
    w.ListAgrees p w' id found ⟨next, below⟩ results ↔
      (w.shards ⟨next, below⟩).entries.all (fun e => !found e.1 || e.2.freshList w.isValid) = true := by
  obtain ⟨free, tasks, entries⟩ := list_step below done task
  have fresh_iff : ∀ key m, w.entry ⟨next, below⟩ key = some m →
      ((!found key || m.freshList w.isValid) = true ↔
        (if found key then w.listSingle p key else none) = if found key then w.listBulk m else none) := by
    intro key m entry
    cases found key with
    | false => exact iff_of_true rfl rfl
    | true => exact listBulk_iff located free entry
  rw [Table.all_entries]
  constructor
  · intro agrees key m entry
    have same := tasks.symm.trans agrees.results
    simp only [some.injEq, Task.replicaListByRegex.injEq, true_and] at same
    have each := Table.filterMap_entries_inj (f := fun k m => if found k then w.listBulk m else none)
      (g := fun k _ => if found k then w.listSingle p k else none) (append_cancel_left same) entry
    exact (fresh_iff key m entry).mpr each.symm
  · intro fresh
    refine ⟨?_, ?_, ?_⟩
    · rw [tasks]
      refine congrArg (fun rs => some (Task.replicaListByRegex found (next + 1) (results ++ rs))) ?_
      refine filterMap_congr (fun e member => ?_)
      rw [(fresh_iff e.1 e.2 (AList.mem_lookup_iff.mpr member)).mp (fresh e.1 e.2 (AList.mem_lookup_iff.mpr member))]
    · intro key m single list entry hit answered
      obtain ⟨ready, leases⟩ := listSingle_leases (located.home _ key m entry) entry answered
      rw [leases, entries key m entry, hit, ready]
      rfl
    · intro key m entry missed
      have same := (fresh_iff key m entry).mp (fresh key m entry)
      rw [entries key m entry]
      cases hit : found key with
      | false => rfl
      | true =>
        have none : w.listBulk m = none := by
          rw [hit, if_pos rfl, if_pos rfl] at same
          rw [← same]
          exact missed.resolve_left (by rw [hit]; exact Bool.noConfusion)
        cases empty : m.completeReplicas.isEmpty with
        | true => rfl
        | false =>
          rw [listBulk, empty] at none
          cases none

theorem removeAgrees_iff (located : Located p w)
    (task : w.tasks.lookup id = some (.removeByRegex found next removed)) :
    w.RemoveAgrees p w' id found ⟨next, below⟩ removed ↔
      (w.shards ⟨next, below⟩).entries.all (fun e =>
        !found e.1 || !e.2.isLeaseExpired w.clock || e.2.freshRemove w.isValid) = true := by
  obtain ⟨free, tasks, entries⟩ := remove_step below done task
  have fresh_iff : ∀ key m, w.entry ⟨next, below⟩ key = some m →
      ((!found key || !m.isLeaseExpired w.clock || m.freshRemove w.isValid) = true ↔
        removeBulk found w.clock key m = (found key && w.removesSingle p key)) := by
    intro key m entry
    rw [removesSingle_eq (located.home _ key m entry) free entry, removeBulk, freshRemove_eq]
    cases found key with
    | false => exact iff_of_true rfl rfl
    | true =>
      cases m.isLeaseExpired w.clock with
      | false => exact iff_of_true rfl rfl
      | true => exact beq_iff_eq
  rw [Table.all_entries]
  constructor
  · intro agrees key m entry
    have same := (entries key m entry).symm.trans (agrees.entries key m entry)
    have gone (b : Bool) : (if b then none else some m) = none ↔ b = true := by simp
    rw [fresh_iff key m entry, Bool.eq_iff_iff, ← gone, same, gone]
  · intro fresh
    have same : ∀ key m, w.entry ⟨next, below⟩ key = some m →
        removeBulk found w.clock key m = (found key && w.removesSingle p key) :=
      fun key m entry => (fresh_iff key m entry).mp (fresh key m entry)
    refine ⟨?_, ?_⟩
    · rw [tasks]
      refine congrArg (fun n => some (Task.removeByRegex found (next + 1) (removed + n))) ?_
      refine countP_congr (fun e member => ?_)
      rw [same e.1 e.2 (AList.mem_lookup_iff.mpr member)]
    · intro key m entry
      rw [entries key m entry, same key m entry]

end

theorem regexAgrees_advance : w.RegexAgrees p (.advance id) w' ↔
    match w.tasks.lookup id with
    | some (.replicaListByRegex found next results) =>
      if below : next < kNumShards then w.ListAgrees p w' id found ⟨next, below⟩ results
      else w.exec p (.advance id) = some (w', .replicaLists (.ok results))
    | some (.removeByRegex found next removed) =>
      if below : next < kNumShards then w.RemoveAgrees p w' id found ⟨next, below⟩ removed
      else w.exec p (.advance id) = some (w', .removed (.ok removed))
    | _ => True := by
  refine ⟨fun agrees => ?_, fun agrees => ⟨?_, ?_⟩⟩
  · split
    next task => exact agrees.list _ _ _ _ rfl task
    next task => exact agrees.remove _ _ _ _ rfl task
    next => trivial
  · rintro _ found next results ⟨⟩ task
    rwa [task] at agrees
  · rintro _ found next removed ⟨⟩ task
    rwa [task] at agrees

/-- A step agrees with the requests for one key exactly if stale replicas make no difference. -/
theorem regexAgrees_iff (located : Located p w) {e : Event} (done : w.step p e = some w') :
    w.RegexAgrees p e w' ↔ w.regexFresh e = true := by
  obtain ⟨r, inside⟩ := step_exec done
  unfold regexFresh
  split
  next id =>
    rw [regexAgrees_advance]
    split
    next found next results task =>
      split
      next below => exact listAgrees_iff below inside located task
      next above =>
        simp only [exec, task, taskAdvance, dif_neg above] at inside ⊢
        cases inside
        exact iff_of_true rfl trivial
    next found next removed task =>
      split
      next below => exact removeAgrees_iff below inside located task
      next above =>
        simp only [exec, task, taskAdvance, dif_neg above] at inside ⊢
        cases inside
        exact iff_of_true rfl trivial
    next other_list other_remove => exact iff_of_true trivial rfl
  next other =>
    refine iff_of_true ⟨?_, ?_⟩ rfl
    · rintro id found next results same
      exact absurd same (other id)
    · rintro id found next removed same
      exact absurd same (other id)

end Steps

/-- The bulk requests agree with the requests for one key throughout a run exactly if no step of
one meets an entry to which stale replicas make a difference. -/
theorem regex_agrees_iff_fresh {p : Params} {w : World A H} {events : List Event}
    (run : Run.run (World.step p) (World.start p) events = some w) :
    Run.Every (World.step p) (World.RegexAgrees p) (World.start p : World A H) events ↔
      Run.Guarded (World.step p) (fun w e => w.regexFresh e = true) (World.start p : World A H) events :=
  Run.every_iff_guarded located_kept (fun _ e _ located done => regexAgrees_iff (e := e) located done) (located_start p)
    run

namespace Sample

def regexParams : Params := { params with regex := fun _ => some (fun _ => true) }

def stored : List Event := mount segmentA clientA ++ put "k" "a" ++ [.putEnd "k" .memory]

def listed (w : State) (id : Nat) : List (String × List ReplicaDescriptor) :=
  match w.tasks.lookup id with
  | some (.replicaListByRegex _ _ results) => results
  | _ => []

def removed (w : State) (id : Nat) : Nat :=
  match w.tasks.lookup id with
  | some (.removeByRegex _ _ count) => count
  | _ => 0

end Sample

open Sample in
theorem regex_agrees_on_valid_replicas : ∃ w : State,
    Run.run (World.step regexParams) (World.start regexParams)
        (stored ++ [.getReplicaListByRegex 1 "", .advance 1]) = some w ∧
      Run.Every (World.step regexParams) (World.RegexAgrees regexParams) (World.start regexParams : State)
        (stored ++ [.getReplicaListByRegex 1 "", .advance 1]) := by
  have outcome : (Run.run (step regexParams) (start regexParams : State)
      (stored ++ [.getReplicaListByRegex 1 "", .advance 1])).isSome = true := by decide +kernel
  obtain ⟨w, run⟩ := isSome_iff_exists.mp outcome
  exact ⟨w, run, (regex_agrees_iff_fresh run).mpr (by decide +kernel)⟩

open Sample in
/-- While segment `a` is being unmounted, the bulk requests list and remove a key that the
requests for one key do not find. -/
theorem regex_sees_stale_replica : ∃ w afterList afterRemove : State,
    World.Reachable regexParams w ∧
      w.listSingle regexParams "k" = none ∧ w.removesSingle regexParams "k" = false ∧
      w.step regexParams (.advance 1) = some afterList ∧
      listed afterList 1 = [("k", [.memory [⟨1024, 4096, ""⟩] .complete])] ∧
      w.step regexParams (.advance 2) = some afterRemove ∧ removed afterRemove 2 = 1 ∧
      ¬w.RegexAgrees regexParams (.advance 1) afterList ∧ ¬w.RegexAgrees regexParams (.advance 2) afterRemove := by
  have outcome : (Run.run (step regexParams) (start regexParams : State)
      (stored ++ [.unmountSegment 0 segmentA.id clientA, .getReplicaListByRegex 1 "", .removeByRegex 2 ""])).bind
        (fun w => (w.step regexParams (.advance 1)).bind (fun afterList =>
          (w.step regexParams (.advance 2)).bind (fun afterRemove =>
            some (decide (w.listSingle regexParams "k" = none ∧ w.removesSingle regexParams "k" = false ∧
              listed afterList 1 = [("k", [.memory [⟨1024, 4096, ""⟩] .complete])] ∧ removed afterRemove 2 = 1 ∧
              w.regexFresh (.advance 1) = false ∧ w.regexFresh (.advance 2) = false))))) = some true := by
    decide +kernel
  obtain ⟨w, reached, seen⟩ := reached_of_outcome outcome
  obtain ⟨afterList, listStep, seen⟩ := bind_eq_some_iff.mp seen
  obtain ⟨afterRemove, removeStep, seen⟩ := bind_eq_some_iff.mp seen
  obtain ⟨notFound, notRemoved, lists, removes, staleList, staleRemove⟩ := of_decide_eq_true (some.inj seen)
  have located := located_reachable reached
  refine ⟨w, afterList, afterRemove, reached, notFound, notRemoved, listStep, lists, removeStep, removes, ?_, ?_⟩
  · rw [regexAgrees_iff located listStep, staleList]
    exact Bool.noConfusion
  · rw [regexAgrees_iff located removeStep, staleRemove]
    exact Bool.noConfusion

end Mooncake.Master
