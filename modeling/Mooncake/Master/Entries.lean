import Mooncake.Master.World

/-! What a critical section does to one entry of its shard. `Effect` lists everything that can
happen to an entry, with the guard under which it happens; `Splits` says that no buffer is
lost or doubled on the way. -/
namespace Mooncake.Master

open Option List ObjectMetadata World Table
variable {A H : Type}

/-! Buffers. -/

variable (m : ObjectMetadata H)

def ObjectMetadata.bag : Multiset (AllocatedBuffer H) := m.buffers

def Garbage.buffers : Garbage H → List (AllocatedBuffer H)
  | .replica r => r.buffers
  | .object m => m.buffers

def garbageBag (gs : List (Garbage H)) : Multiset (AllocatedBuffer H) :=
  (gs.map (fun g => (g.buffers : Multiset (AllocatedBuffer H)))).sum

@[simp] theorem garbageBag_nil : garbageBag ([] : List (Garbage H)) = 0 := rfl

@[simp] theorem garbageBag_append (gs gs' : List (Garbage H)) :
    garbageBag (gs ++ gs') = garbageBag gs + garbageBag gs' := by
  rw [garbageBag, map_append, sum_append]
  rfl

@[simp] theorem garbageBag_object : garbageBag [.object m] = m.bag := by
  rw [garbageBag, map_singleton, sum_singleton]
  rfl

theorem garbageBag_replicas (rs : List (Replica H)) :
    garbageBag (rs.map .replica) = (rs.flatMap Replica.buffers : Multiset (AllocatedBuffer H)) := by
  induction rs with
  | nil => rfl
  | cons r rs ih =>
    rw [flatMap_cons, ← Multiset.coe_add, ← ih]
    exact sum_cons

def Splits (out : Option (ObjectMetadata H) × List (Garbage H)) : Prop :=
  m.bag = out.1.elim 0 ObjectMetadata.bag + garbageBag out.2

theorem filter_bag (q : Replica H → Bool) :
    m.bag = ((m.replicas.filter (fun r => !q r)).flatMap Replica.buffers : Multiset (AllocatedBuffer H)) +
      garbageBag ((m.replicas.filter q).map .replica) := by
  rw [garbageBag_replicas, add_comm, Multiset.coe_add, ← flatMap_append]
  exact Multiset.coe_eq_coe.mpr ((filter_append_perm q m.replicas).symm.flatMap_right _)

def ObjectMetadata.clean (valid : Nat → Bool) : ObjectMetadata H := (cleanupStaleHandles valid m).1

theorem clean_bag (valid : Nat → Bool) (m : ObjectMetadata H) :
    m.bag = (m.clean valid).bag + garbageBag (cleanupStaleHandles valid m).2 :=
  filter_bag m (fun r => r.hasInvalidMemHandle valid)

theorem eraseReplica_bag (type : ReplicaType) :
    m.bag = (m.eraseReplica type).1.bag + garbageBag (m.eraseReplica type).2 := by
  have split := filter_bag m (fun r => decide (r.type = type))
  simp only [← decide_not] at split
  exact split

theorem markComplete_buffers (r : Replica H) : r.markComplete.buffers = r.buffers := by
  unfold Replica.markComplete
  split <;> rfl

theorem markReplicas_bag (type : ReplicaType) : (m.markReplicas type).bag = m.bag := by
  have same : ∀ r : Replica H, (if r.type = type then r.markComplete else r).buffers = r.buffers := by
    intro r
    split
    · exact markComplete_buffers r
    · rfl
  simp only [bag, buffers, markReplicas, flatMap_map, same]

inductive Dealt (m : ObjectMetadata H) : Option (ObjectMetadata H) × List (Garbage H) → Prop
  | stays (m' : ObjectMetadata H) (rs : List (Replica H)) (bag : m.bag = m'.bag + garbageBag (rs.map .replica))
      (soft : m'.softPinTimeout.isSome = m.softPinTimeout.isSome) (disk : m'.diskReplicaSize = m.diskReplicaSize) :
      Dealt m (some m', rs.map .replica)
  | goes (m' : ObjectMetadata H) (rs : List (Replica H)) (bag : m.bag = m'.bag + garbageBag (rs.map .replica))
      (soft : m'.softPinTimeout.isSome = m.softPinTimeout.isSome) (disk : m'.diskReplicaSize = m.diskReplicaSize) :
      Dealt m (none, rs.map .replica ++ [.object m'])

variable {out : Option (ObjectMetadata H) × List (Garbage H)} {m : ObjectMetadata H} {valid : Nat → Bool}

theorem Dealt.splits (dealt : Dealt m out) : Splits m out := by
  cases dealt with
  | stays m' rs bag => exact bag
  | goes m' rs bag =>
    rw [Splits, elim_none, garbageBag_append, garbageBag_object, zero_add, add_comm]
    exact bag

theorem dealt_keep (m : ObjectMetadata H) : Dealt m (some m, []) := .stays m [] (add_zero _).symm rfl rfl

theorem dealt_lease (m : ObjectMetadata H) (now : Int) (ttl softTtl : Nat) :
    Dealt m (some (m.grantLease now ttl softTtl), []) :=
  .stays _ [] (add_zero _).symm isSome_map rfl

theorem dealt_drop (m : ObjectMetadata H) : Dealt m (none, [.object m]) := .goes m [] (add_zero _).symm rfl rfl

theorem dealt_dropReplicas (m : ObjectMetadata H) (type : ReplicaType) : Dealt m (m.dropReplicas type) := by
  unfold dropReplicas
  simp only
  split
  · exact .stays _ _ (eraseReplica_bag m type) rfl rfl
  · exact .goes _ _ (eraseReplica_bag m type) rfl rfl

theorem Dealt.access (dealt : Dealt (m.clean valid) out) :
    Dealt m (out.1, (cleanupStaleHandles valid m).2 ++ out.2) := by
  have both (m' : ObjectMetadata H) (rs : List (Replica H))
    (bag : (m.clean valid).bag = m'.bag + garbageBag (rs.map .replica)) :
      m.bag = m'.bag + garbageBag ((m.replicas.filter (fun r => r.hasInvalidMemHandle valid) ++ rs).map .replica) := by
    rw [clean_bag valid m, bag, map_append, garbageBag_append, add_assoc, add_comm (garbageBag (rs.map _))]
    rfl
  cases dealt with
  | stays m' rs bag soft disk =>
    rw [cleanupStaleHandles, ← map_append]
    exact .stays m' _ (both m' rs bag) soft disk
  | goes m' rs bag soft disk =>
    rw [cleanupStaleHandles, ← append_assoc, ← map_append]
    exact .goes m' _ (both m' rs bag) soft disk

theorem accessEntry_of_replicas {ρ : Type} (left : (m.clean valid).replicas ≠ []) (missing : ρ)
    (use : ObjectMetadata H → Outcome H ρ) :
    (accessEntry valid missing use (some m)).1 = (use (m.clean valid)).1 ∧
      (accessEntry valid missing use (some m)).2.1 = (use (m.clean valid)).2.1 := by
  have some_replica : (cleanupStaleHandles valid m).1.replicas.isEmpty = false := isEmpty_eq_false_iff.mpr left
  simp only [accessEntry, some_replica, Bool.false_eq_true, if_false]
  exact ⟨rfl, rfl⟩

/-! What may become of an entry. -/

def Event.key? : Event → Option String
  | .existKey key => some key
  | .getReplicaList key => some key
  | .putStart key _ _ => some key
  | .putEnd key _ => some key
  | .putRevoke key _ => some key
  | .remove key => some key
  | _ => none

/-- The event is a step of `ClearInvalidHandles`, for an unmount or for the monitor. -/
inductive World.Clears (w : World A H) (e : Event) : Prop
  | unmount (id : Nat) (segment client : UUID) (decCapacity next : Nat) (asked : e = .advance id)
      (task : w.tasks.lookup id = some (.unmount segment client decCapacity next))
  | expiry (order : List UUID) (commits : List (UUID × UUID × Nat)) (next : Nat) (asked : e = .monitor order)
      (phase : w.monitor = .sweeping commits next)

def World.Cleans (w : World A H) (e : Event) (key : String) : Prop := e.key? = some key ∨ w.Clears e

theorem World.Cleans.key_eq {w : World A H} {e : Event} {key k : String} (cleans : w.Cleans e key)
    (named : e.key? = some k) : key = k := by
  rcases cleans with same | clears
  · exact some.inj (same.symm.trans named)
  · cases clears with
    | unmount id segment client dec next asked =>
      subst asked
      cases named
    | expiry order commits next asked =>
      subst asked
      cases named

theorem World.Cleans.unmount {w : World A H} {id : Nat} {key : String} (cleans : w.Cleans (.advance id) key) :
    ∃ segment client dec next, w.tasks.lookup id = some (.unmount segment client dec next) := by
  rcases cleans with named | clears
  · cases named
  · cases clears with
    | unmount id segment client dec next asked task =>
      cases asked
      exact ⟨segment, client, dec, next, task⟩
    | expiry order commits next asked => cases asked

inductive Effect (p : Params) (w : World A H) (e : Event) (key : String) :
    ObjectMetadata H → Option (ObjectMetadata H) → Prop
  | kept (m : ObjectMetadata H) : Effect p w e key m (some m)
  | cleaned (m : ObjectMetadata H) (asked : w.Cleans e key) : Effect p w e key m (some (m.clean w.isValid))
  | emptied (m : ObjectMetadata H) (asked : w.Cleans e key) (stale : (m.clean w.isValid).replicas = []) :
      Effect p w e key m none
  | leased (m : ObjectMetadata H) (asked : e = .existKey key ∨ e = .getReplicaList key)
      (ready : (m.clean w.isValid).completeReplicas ≠ []) :
      Effect p w e key m (some ((m.clean w.isValid).grantLease w.clock p.defaultKvLeaseTtl p.defaultKvSoftPinTtl))
  | listed (m : ObjectMetadata H) (id : Nat) (found : String → Bool) (next : Nat)
      (results : List (String × List ReplicaDescriptor)) (asked : e = .advance id)
      (task : w.tasks.lookup id = some (.replicaListByRegex found next results)) (hit : found key = true)
      (ready : m.completeReplicas ≠ []) :
      Effect p w e key m (some (m.grantLease w.clock p.defaultKvLeaseTtl p.defaultKvSoftPinTtl))
  | ended (m : ObjectMetadata H) (type : ReplicaType) (asked : e = .putEnd key type) :
      Effect p w e key m (some (((m.clean w.isValid).markReplicas type).grantLease w.clock 0 p.defaultKvSoftPinTtl))
  | revoked (m : ObjectMetadata H) (type : ReplicaType) (asked : e = .putRevoke key type)
      (writing : (m.clean w.isValid).hasDiffRepStatus .processing type = none) :
      Effect p w e key m ((m.clean w.isValid).dropReplicas type).1
  | removed (m : ObjectMetadata H) (asked : e = .remove key) (expired : m.leaseTimeout ≤ w.clock)
      (complete : (m.clean w.isValid).isAllReplicasComplete = true) : Effect p w e key m none
  | matched (m : ObjectMetadata H) (id : Nat) (found : String → Bool) (next removed : Nat) (asked : e = .advance id)
      (task : w.tasks.lookup id = some (.removeByRegex found next removed)) (expired : m.leaseTimeout ≤ w.clock)
      (complete : m.isAllReplicasComplete = true) : Effect p w e key m none
  | swept (m : ObjectMetadata H) (id : Nat) (now : Int) (next removed : Nat) (asked : e = .advance id)
      (task : w.tasks.lookup id = some (.removeAll now next removed)) (expired : m.leaseTimeout ≤ now) :
      Effect p w e key m none
  | evicted (m : ObjectMetadata H) (id : Nat) (state : Eviction) (asked : e = .advance id)
      (task : w.tasks.lookup id = some (.evict state))
      (expired : m.leaseTimeout ≤ state.now ∨ ∃ i timeout n, state.phase = .secondPassA i timeout n ∧
        m.leaseTimeout ≤ timeout)
      (complete : m.memComplete = true) : Effect p w e key m (m.dropReplicas .memory).1

structure Swept (p : Params) (w : World A H) (e : Event) (t t' : Shard H) (gs : List (Garbage H)) : Prop where
  absent : ∀ key, t.lookup key = none → t'.lookup key = none
  present : ∀ key m, t.lookup key = some m → Effect p w e key m (t'.lookup key)
  split : Table.total (fun _ m => m.bag) t = Table.total (fun _ m => m.bag) t' + garbageBag gs

structure Handled (p : Params) (w : World A H) (e : Event) (t : Shard H) (out : Shard H × List (Garbage H)) :
    Prop where
  swept : Swept p w e t out.1 out.2
  total : ∀ {μ : Type} [AddCommMonoid μ] (weight : ObjectMetadata H → μ) (dropped : Garbage H → μ),
    (∀ m out, Dealt m out → weight m = out.1.elim 0 weight + (out.2.map dropped).sum) →
    Table.total (fun _ m => weight m) t = Table.total (fun _ m => weight m) out.1 + (out.2.map dropped).sum

section Bodies
variable {p : Params} {w : World A H} {e : Event} {t : Shard H}

theorem handled_refl : Handled p w e t (t, []) :=
  ⟨⟨fun _ none => none, fun _ m found => found ▸ Effect.kept m, (add_zero _).symm⟩, fun _ _ _ => (add_zero _).symm⟩

theorem handled_sweep {σ : Type}
    {visit : σ → String → ObjectMetadata H → σ × Option (ObjectMetadata H) × List (Garbage H)}
    (handles : ∀ s key m, Effect p w e key m (visit s key m).2.1 ∧ Dealt m (visit s key m).2) (s : σ) :
    Handled p w e t (sweep visit s t).2 := by
  have lookup := fun key => lookup_sweep visit s t key
  refine ⟨⟨?_, ?_, total_sweep visit _ _ (fun s key m => (handles s key m).2.splits) s t⟩, fun weight dropped deals =>
    total_sweep visit _ _ (fun s key m => deals m _ (handles s key m).2) s t⟩
  · intro key none
    obtain ⟨-, gone⟩ | ⟨s', m, found, -⟩ := lookup key
    · exact gone
    · rw [none] at found
      cases found
  · intro key m found
    obtain ⟨none, -⟩ | ⟨s', m', found', outcome⟩ := lookup key
    · rw [none] at found
      cases found
    · rw [found] at found'
      cases found'
      rw [outcome]
      exact (handles s' key m).1

variable {key : String} {ρ : Type} {use : Option (ObjectMetadata H) → Outcome H ρ} {type : ReplicaType}

theorem atKey_lookup (key : String) (use : Option (ObjectMetadata H) → Outcome H ρ) (t : Shard H) :
    (atKey key use t).2.1.lookup key = (use (t.lookup key)).2.1 := by
  simp only [atKey]
  cases (use (t.lookup key)).2.1 with
  | none => exact AList.lookup_erase key t
  | some m => exact AList.lookup_insert t

theorem atKey_lookup_ne {j : String} (different : j ≠ key) (use : Option (ObjectMetadata H) → Outcome H ρ)
    (t : Shard H) : (atKey key use t).2.1.lookup j = t.lookup j := by
  simp only [atKey]
  cases (use (t.lookup key)).2.1 with
  | none => exact AList.lookup_erase_ne different
  | some m => exact AList.lookup_insert_ne different

theorem atKey_total {μ : Type} [AddCommMonoid μ] (weight : ObjectMetadata H → μ) (dropped : Garbage H → μ)
    (missing : (use none).2 = (none, []))
    (splits : ∀ m, weight m = (use (some m)).2.1.elim 0 weight + ((use (some m)).2.2.map dropped).sum) (t : Shard H) :
    total (fun _ m => weight m) t =
      total (fun _ m => weight m) (atKey key use t).2.1 + ((atKey key use t).2.2.map dropped).sum := by
  cases found : t.lookup key with
  | none =>
    have same : (t.erase key).entries = t.entries := kerase_of_notMem_keys (AList.lookup_eq_none.mp found)
    simp only [atKey, found, missing, elim_none, map_nil, sum_nil, add_zero]
    exact congrArg (fun es => (map _ es).sum) same.symm
  | some m =>
    have split := splits m
    rw [total_erase _ found, split]
    simp only [atKey, found]
    cases (use (some m)).2.1 with
    | none => simp only [elim_none, zero_add, add_comm]
    | some m' => simp only [elim_some, total_insert, add_right_comm]

theorem handled_atKey (missing : (use none).2 = (none, []))
    (handles : ∀ m, Effect p w e key m (use (some m)).2.1 ∧ Dealt m (use (some m)).2) :
    Handled p w e t (atKey key use t).2 := by
  refine ⟨⟨?_, ?_, atKey_total bag _ missing (fun m => (handles m).2.splits) t⟩, fun weight dropped deals =>
    atKey_total weight dropped missing (fun m => deals m _ (handles m).2) t⟩
  · intro j none
    by_cases same : j = key
    · subst same
      rw [atKey_lookup, none, missing]
    · rw [atKey_lookup_ne same, none]
  · intro j m found
    by_cases same : j = key
    · subst same
      rw [atKey_lookup, found]
      exact (handles m).1
    · rw [atKey_lookup_ne same, found]
      exact .kept m

/-- A request through the accessor: what it does to the entry, or only the cleaning. -/
theorem handled_access {missing : ρ} {use : ObjectMetadata H → Outcome H ρ} (asked : e.key? = some key)
    (handles : ∀ m : ObjectMetadata H, Effect p w e key m (use (m.clean w.isValid)).2.1 ∧
      Dealt (m.clean w.isValid) (use (m.clean w.isValid)).2) :
    Handled p w e t (atKey key (accessEntry w.isValid missing use) t).2 := by
  refine handled_atKey rfl (fun m => ?_)
  simp only [accessEntry]
  split
  · rename_i empty
    exact ⟨.emptied m (Or.inl asked) (List.isEmpty_iff.mp empty), (dealt_drop (m.clean w.isValid)).access⟩
  · exact ⟨(handles m).1, (handles m).2.access⟩

theorem handled_clear (asked : w.Clears e) : Handled p w e t (sweep (clearVisit w.isValid) () t).2 := by
  refine handled_sweep (fun _ key m => ?_) ()
  simp only [clearVisit]
  split
  · rename_i empty
    exact ⟨.emptied m (Or.inr asked) (List.isEmpty_iff.mp empty), .goes _ _ (clean_bag w.isValid m) rfl rfl⟩
  · exact ⟨.cleaned m (Or.inr asked), .stays _ _ (clean_bag w.isValid m) rfl rfl⟩

theorem handled_findFree (asked : e.key? = some key) : Handled p w e t (findFree w.isValid key t).2 :=
  handled_atKey rfl (fun m => ⟨.cleaned m (Or.inl asked), .stays _ _ (clean_bag w.isValid m) rfl rfl⟩)

theorem handled_existKey (asked : e = .existKey key) :
    Handled p w e t (atKey key (accessEntry w.isValid false (fun m => m.exist w.clock p.defaultKvLeaseTtl
      p.defaultKvSoftPinTtl)) t).2 := by
  refine handled_access (asked ▸ rfl) (fun m => ?_)
  simp only [exist]
  split
  · exact ⟨.cleaned m (Or.inl (asked ▸ rfl)), dealt_keep _⟩
  · rename_i ready
    exact ⟨.leased m (Or.inl asked) (fun none => ready (List.isEmpty_iff.mpr none)), dealt_lease _ _ _ _⟩

theorem handled_getReplicaList {describe : Replica H → ReplicaDescriptor} (asked : e = .getReplicaList key) :
    Handled p w e t (atKey key (accessEntry w.isValid (.error .objectNotFound) (fun m => m.getReplicaList w.clock
      p.defaultKvLeaseTtl p.defaultKvSoftPinTtl describe)) t).2 := by
  refine handled_access (asked ▸ rfl) (fun m => ?_)
  simp only [getReplicaList]
  split
  · exact ⟨.cleaned m (Or.inl (asked ▸ rfl)), dealt_keep _⟩
  · rename_i ready
    exact ⟨.leased m (Or.inr asked) (fun none => ready (List.isEmpty_iff.mpr none)), dealt_lease _ _ _ _⟩

theorem handled_putEnd (asked : e = .putEnd key type) :
    Handled p w e t (atKey key (accessEntry w.isValid (.error .objectNotFound)
      (fun m => m.putEnd w.clock type p.defaultKvSoftPinTtl)) t).2 :=
  handled_access (asked ▸ rfl) (fun m => ⟨.ended m type asked,
    .stays _ [] ((markReplicas_bag _ type).symm.trans (add_zero _).symm) isSome_map rfl⟩)

theorem handled_putRevoke (asked : e = .putRevoke key type) :
    Handled p w e t
      (atKey key (accessEntry w.isValid (.error .objectNotFound) (fun m => m.putRevoke type)) t).2 := by
  refine handled_access (asked ▸ rfl) (fun m => ?_)
  simp only [putRevoke]
  split
  · exact ⟨.cleaned m (Or.inl (asked ▸ rfl)), dealt_keep _⟩
  · rename_i writing
    exact ⟨.revoked m type asked writing, dealt_dropReplicas _ type⟩

theorem handled_remove (asked : e = .remove key) :
    Handled p w e t
      (atKey key (accessEntry w.isValid (.error .objectNotFound) (fun m => m.remove w.clock)) t).2 := by
  refine handled_access (asked ▸ rfl) (fun m => ?_)
  simp only [remove]
  split
  · exact ⟨.cleaned m (Or.inl (asked ▸ rfl)), dealt_keep _⟩
  split
  · exact ⟨.cleaned m (Or.inl (asked ▸ rfl)), dealt_keep _⟩
  · rename_i leased complete
    have expired : (m.clean w.isValid).leaseTimeout ≤ w.clock := by
      simpa [isLeaseExpired] using leased
    exact ⟨.removed m asked expired (by simpa using complete), dealt_drop _⟩

end Bodies

section Tasks
variable {p : Params} {w : World A H} {t : Shard H} {id : Nat}

variable {state : Eviction} {found : String → Bool}

theorem handled_removeByRegex {next removed : Nat}
    (task : w.tasks.lookup id = some (.removeByRegex found next removed)) :
    Handled p w (.advance id) t (sweep (removeByRegexVisit found w.clock) removed t).2 := by
  refine handled_sweep (fun n key m => ?_) removed
  simp only [removeByRegexVisit]
  split
  · rename_i guard
    simp only [Bool.and_eq_true] at guard
    exact ⟨.matched m id found next removed rfl task (of_decide_eq_true guard.1.2) guard.2, dealt_drop m⟩
  · exact ⟨.kept m, dealt_keep m⟩

theorem handled_removeAll {now : Int} {next removed : Nat}
    (task : w.tasks.lookup id = some (.removeAll now next removed)) :
    Handled p w (.advance id) t (sweep (removeAllVisit now) removed t).2 := by
  refine handled_sweep (fun n key m => ?_) removed
  simp only [removeAllVisit]
  split
  · rename_i expired
    exact ⟨.swept m id now next removed rfl task (of_decide_eq_true expired), dealt_drop m⟩
  · exact ⟨.kept m, dealt_keep m⟩

theorem handled_replicaList {next : Nat} {results : List (String × List ReplicaDescriptor)}
    {describe : Replica H → ReplicaDescriptor}
    (task : w.tasks.lookup id = some (.replicaListByRegex found next results)) :
    Handled p w (.advance id) t
      (sweep (replicaListVisit found w.clock p.defaultKvLeaseTtl p.defaultKvSoftPinTtl describe) results t).2 := by
  refine handled_sweep (fun n key m => ?_) results
  simp only [replicaListVisit]
  split
  · rename_i guard
    simp only [Bool.and_eq_true, Bool.not_eq_true', isEmpty_eq_false_iff] at guard
    exact ⟨.listed m id found next results rfl task guard.1 guard.2, dealt_lease _ _ _ _⟩
  · exact ⟨.kept m, dealt_keep m⟩

section
variable (task : w.tasks.lookup id = some (.evict state))
include task

theorem handled_firstPass :
    Handled p w (.advance id) t (state.firstPassShard p.ceilTimes p.allowEvictSoftPinnedObjects t).2 := by
  unfold Eviction.firstPassShard
  simp only
  split
  swap
  · exact handled_refl
  split
  · exact handled_refl
  refine handled_sweep (fun s key m => ?_) _
  simp only [Eviction.firstVisit]
  split
  · exact ⟨.kept m, dealt_keep m⟩
  split
  · rename_i guard _
    simp only [Bool.or_eq_true, Bool.not_eq_true', not_or, Bool.not_eq_false] at guard
    exact ⟨.evicted m id state rfl task (Or.inl (of_decide_eq_true guard.1.1.1)) guard.1.2, dealt_dropReplicas m .memory⟩
  · exact ⟨.kept m, dealt_keep m⟩

theorem handled_secondPassA {i : Nat} {timeout n : Int} (phase : state.phase = .secondPassA i timeout n)
    (s : Int × Int) : Handled p w (.advance id) t (sweep (Eviction.secondVisitA state.now timeout) s t).2 := by
  refine handled_sweep (fun s key m => ?_) s
  simp only [Eviction.secondVisitA]
  split
  · rename_i guard
    exact ⟨.evicted m id state rfl task (Or.inr ⟨i, timeout, n, phase, guard.2.1⟩) guard.2.2.2.1,
      dealt_dropReplicas m .memory⟩
  · exact ⟨.kept m, dealt_keep m⟩

theorem handled_secondPassB {timeout : Int} (s : Int × Int) :
    Handled p w (.advance id) t (sweep (Eviction.secondVisitB state.now timeout) s t).2 := by
  refine handled_sweep (fun s key m => ?_) s
  simp only [Eviction.secondVisitB]
  split
  · rename_i guard
    exact ⟨.evicted m id state rfl task (Or.inl (of_decide_eq_true guard.2.1)) guard.2.2.1, dealt_dropReplicas m .memory⟩
  · exact ⟨.kept m, dealt_keep m⟩

end

end Tasks
end Mooncake.Master
