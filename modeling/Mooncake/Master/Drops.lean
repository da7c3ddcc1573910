import Mooncake.Master.Turns

/-! What a step does to one entry, and for which reason a replica leaves its entry. -/
namespace Mooncake.Master

open Function ObjectMetadata World
variable {A H : Type} {p : Params} {w w' : World A H} {e : Event} {key : String} {m m' : ObjectMetadata H}
  {out : Option (ObjectMetadata H)} {r : Replica H}

/-! Effects, read by the fields of an entry. -/

theorem mem_clean : r ∈ (m.clean w.isValid).replicas ↔ r ∈ m.replicas ∧ r.hasInvalidMemHandle w.isValid = false := by
  rw [clean, cleanupStaleHandles, List.mem_filter, Bool.not_eq_true']

variable {type : ReplicaType}

theorem dropReplicas_some (kept : (m.dropReplicas type).1 = some m') : m' = (m.eraseReplica type).1 := by
  unfold dropReplicas at kept
  simp only at kept
  split at kept
  · exact (Option.some.inj kept).symm
  · cases kept

theorem dropReplicas_valid (kept : (m.dropReplicas type).1 = some m') : m'.replicas ≠ [] ∧ 0 < m'.size := by
  unfold dropReplicas at kept
  simp only at kept
  split at kept
  · rename_i valid
    cases kept
    simpa [ObjectMetadata.isValid] using valid
  · cases kept

theorem mem_eraseReplica : r ∈ (m.eraseReplica type).1.replicas ↔ r ∈ m.replicas ∧ r.type ≠ type := by
  rw [eraseReplica, List.mem_filter, decide_eq_true_iff]

theorem dropReplicas_member (member : r ∈ m.replicas) (other : r.type ≠ type) (sized : m.size ≠ 0) :
    (m.dropReplicas type).1 = some (m.eraseReplica type).1 := by
  have spared : (m.eraseReplica type).1.replicas ≠ [] := List.ne_nil_of_mem (mem_eraseReplica.mpr ⟨member, other⟩)
  have valid : (m.eraseReplica type).1.isValid = true := by
    simp only [ObjectMetadata.isValid, Bool.and_eq_true, Bool.not_eq_true', List.isEmpty_eq_false_iff,
      decide_eq_true_eq]
    exact ⟨spared, Nat.pos_of_ne_zero sized⟩
  simp only [dropReplicas, valid, if_true]

/-- What stays of an entry belongs to the same object, has no shorter lease and no new data. -/
structure Inherits (m m' : ObjectMetadata H) : Prop where
  object : m'.object = m.object
  size : m'.size = m.size
  lease : m.leaseTimeout ≤ m'.leaseTimeout
  data : ∀ r' ∈ m'.replicas, ∃ r ∈ m.replicas, r.data = r'.data

theorem markReplicas_mem {r' : Replica H} (member : r' ∈ (m.markReplicas type).replicas) :
    r' ∈ m.replicas ∨ r'.type = type ∧ ⟨r'.data, .processing⟩ ∈ m.replicas := by
  obtain ⟨r, old, same⟩ := List.mem_map.mp member
  split at same
  · rename_i named
    unfold Replica.markComplete at same
    split at same
    · rename_i writing
      subst same
      refine Or.inr ⟨named, ?_⟩
      rw [← writing]
      exact old
    · exact Or.inl (same ▸ old)
  · exact Or.inl (same ▸ old)

theorem inherits_clean (m : ObjectMetadata H) (w : World A H) : Inherits m (m.clean w.isValid) :=
  ⟨rfl, rfl, Int.le_refl _, fun r' member => ⟨r', (mem_clean.mp member).1, rfl⟩⟩

theorem inherits_grant (m : ObjectMetadata H) (now : Int) (ttl softTtl : Nat) :
    Inherits m (m.grantLease now ttl softTtl) :=
  ⟨rfl, rfl, Int.le_max_left _ _, fun r' member => ⟨r', member, rfl⟩⟩

theorem inherits_mark (m : ObjectMetadata H) (type : ReplicaType) : Inherits m (m.markReplicas type) := by
  refine ⟨rfl, rfl, Int.le_refl _, fun r' member => ?_⟩
  rcases markReplicas_mem member with old | ⟨-, old⟩
  · exact ⟨r', old, rfl⟩
  · exact ⟨_, old, rfl⟩

theorem inherits_drop (kept : (m.dropReplicas type).1 = some m') : Inherits m m' := by
  rw [dropReplicas_some kept]
  exact ⟨rfl, rfl, Int.le_refl _, fun r' member => ⟨r', (mem_eraseReplica.mp member).1, rfl⟩⟩

theorem Inherits.trans {m₁ m₂ m₃ : ObjectMetadata H} (first : Inherits m₁ m₂) (second : Inherits m₂ m₃) :
    Inherits m₁ m₃ := by
  refine ⟨second.object.trans first.object, second.size.trans first.size, Int.le_trans first.lease second.lease, ?_⟩
  intro r'' member
  obtain ⟨r', middle, same'⟩ := second.data r'' member
  obtain ⟨r, old, same⟩ := first.data r' middle
  exact ⟨r, old, same.trans same'⟩

theorem Effect.inherits (effect : Effect p w e key m out) (left : out = some m') : Inherits m m' := by
  cases effect with
  | kept => cases left; exact ⟨rfl, rfl, Int.le_refl _, fun r' member => ⟨r', member, rfl⟩⟩
  | cleaned => cases left; exact inherits_clean m w
  | emptied => cases left
  | leased => cases left; exact (inherits_clean m w).trans (inherits_grant _ _ _ _)
  | listed => cases left; exact inherits_grant m _ _ _
  | ended => cases left; exact ((inherits_clean m w).trans (inherits_mark _ _)).trans (inherits_grant _ _ _ _)
  | revoked => exact (inherits_clean m w).trans (inherits_drop left)
  | removed => cases left
  | matched => cases left
  | swept => cases left
  | evicted => exact inherits_drop left

/-- Only `PutEnd` completes a replica. -/
theorem Effect.completed (effect : Effect p w e key m out) (left : out = some m') (member : r ∈ m'.replicas)
    (fresh : r ∉ m.replicas) : e = .putEnd key r.type ∧ ⟨r.data, .processing⟩ ∈ m.replicas := by
  cases effect with
  | kept => cases left; exact absurd member fresh
  | cleaned => cases left; exact absurd (mem_clean.mp member).1 fresh
  | emptied => cases left
  | leased => cases left; exact absurd (mem_clean.mp member).1 fresh
  | listed => cases left; exact absurd member fresh
  | ended type asked =>
    cases left
    rcases markReplicas_mem member with old | ⟨named, old⟩
    · exact absurd (mem_clean.mp old).1 fresh
    · rw [named]
      exact ⟨asked, (mem_clean.mp old).1⟩
  | revoked => rw [dropReplicas_some left] at member; exact absurd (mem_clean.mp (mem_eraseReplica.mp member).1).1 fresh
  | removed => cases left
  | matched => cases left
  | swept => cases left
  | evicted => rw [dropReplicas_some left] at member; exact absurd (mem_eraseReplica.mp member).1 fresh

/-- Why a replica leaves its entry. -/
inductive Cause (p : Params) (w : World A H) (e : Event) (key : String) (m : ObjectMetadata H) (r : Replica H) : Prop
  | stale (asked : w.Cleans e key) (invalid : r.hasInvalidMemHandle w.isValid = true)
  | revoked (type : ReplicaType) (asked : e = .putRevoke key type) (aimed : r.type = type → r.status = .processing)
      (spared : r.type ≠ type → m.size = 0)
  | removed (asked : e = .remove key) (expired : m.leaseTimeout ≤ w.clock) (complete : r.status = .complete)
  | matched (id : Nat) (found : String → Bool) (next removed : Nat) (asked : e = .advance id)
      (task : w.tasks.lookup id = some (.removeByRegex found next removed)) (expired : m.leaseTimeout ≤ w.clock)
      (complete : r.status = .complete)
  | swept (id : Nat) (now : Int) (next removed : Nat) (asked : e = .advance id)
      (task : w.tasks.lookup id = some (.removeAll now next removed)) (expired : m.leaseTimeout ≤ now)
  | evicted (id : Nat) (state : Eviction) (asked : e = .advance id) (task : w.tasks.lookup id = some (.evict state))
      (expired : m.leaseTimeout ≤ state.now ∨
        ∃ i timeout n, state.phase = .secondPassA i timeout n ∧ m.leaseTimeout ≤ timeout)
      (complete : r.type = .memory → r.status = .complete)

theorem hasDiffRepStatus_none {status : ReplicaStatus} (none : m.hasDiffRepStatus status type = none)
    (member : r ∈ m.replicas) (named : r.type = type) : r.status = status := by
  rw [hasDiffRepStatus, Option.map_eq_none_iff, List.find?_eq_none] at none
  by_contra other
  exact none r member (decide_eq_true ⟨other, named⟩)

def Gone (m : ObjectMetadata H) (out : Option (ObjectMetadata H)) (r : Replica H) : Prop :=
  r ∈ m.replicas ∧ ∀ m', out = some m' → ∀ r' ∈ m'.replicas, r'.data ≠ r.data

theorem stale_or_clean (r : Replica H) (member : r ∈ m.replicas) (w : World A H) :
    r.hasInvalidMemHandle w.isValid = true ∨ r ∈ (m.clean w.isValid).replicas := by
  cases valid : r.hasInvalidMemHandle w.isValid with
  | true => exact Or.inl rfl
  | false => exact Or.inr (mem_clean.mpr ⟨member, valid⟩)

theorem Effect.cause (effect : Effect p w e key m out) (gone : Gone m out r) : Cause p w e key m r := by
  obtain ⟨member, absent⟩ := gone
  have split := stale_or_clean r member w
  cases effect with
  | kept => exact absurd rfl (absent m rfl r member)
  | cleaned asked =>
    rcases split with stale | clean
    · exact .stale asked stale
    · exact absurd rfl (absent _ rfl r clean)
  | emptied asked empty =>
    rcases split with stale | clean
    · exact .stale asked stale
    · rw [empty] at clean
      cases clean
  | leased asked =>
    rcases split with stale | clean
    · refine .stale (Or.inl ?_) stale
      rcases asked with rfl | rfl
      · rfl
      · rfl
    · exact absurd rfl (absent _ rfl r clean)
  | listed => exact absurd rfl (absent _ rfl r member)
  | ended type asked =>
    rcases split with stale | clean
    · exact .stale (Or.inl (asked ▸ rfl)) stale
    · refine absurd ?_ (absent _ rfl _ (List.mem_map_of_mem clean))
      split
      · unfold Replica.markComplete
        split <;> rfl
      · rfl
  | revoked type asked writing =>
    rcases split with stale | clean
    · exact .stale (Or.inl (asked ▸ rfl)) stale
    · refine .revoked type asked (fun named => hasDiffRepStatus_none writing clean named) (fun other => ?_)
      by_contra sized
      exact absent _ (dropReplicas_member clean other sized) r (mem_eraseReplica.mpr ⟨clean, other⟩) rfl
  | removed asked expired complete =>
    rcases split with stale | clean
    · exact .stale (Or.inl (asked ▸ rfl)) stale
    · exact .removed asked expired (of_decide_eq_true (List.all_eq_true.mp complete r clean))
  | matched id found next removed asked task expired complete =>
    exact .matched id found next removed asked task expired (of_decide_eq_true (List.all_eq_true.mp complete r member))
  | swept id now next removed asked task expired => exact .swept id now next removed asked task expired
  | evicted id state asked task expired complete =>
    exact .evicted id state asked task expired
      (fun named => hasDiffRepStatus_none (Option.isNone_iff_eq_none.mp complete) member named)

/-! The same of a step of the master. -/

variable [BufferAllocatorBase A H] {i : Fin kNumShards}

theorem putInsert_lookup (w : World A H) (i : Fin kNumShards) (task : PutTask H) (replicas : List (Replica H))
    (j : Fin kNumShards) (key : String) :
    (w.putInsert i task replicas).1.entry j key = w.entry j key ∨
      (j = i ∧ key = task.key ∧ w.entry j key = none ∧ (w.putInsert i task replicas).1.entry j key =
        some (.make w.nextObject task.totalLength replicas task.config.withSoftPin)) := by
  unfold putInsert
  simp only
  split
  · rename_i missing
    simp only [entry]
    rcases eq_or_ne j i with rfl | other
    · rw [update_self]
      rcases eq_or_ne key task.key with rfl | different
      · exact Or.inr ⟨rfl, rfl, missing, AList.lookup_insert _⟩
      · exact Or.inl (AList.lookup_insert_ne different)
    · exact Or.inl (by rw [update_of_ne other]; rfl)
  · exact Or.inl rfl

theorem putInsert_nextObject (w : World A H) (i : Fin kNumShards) (task : PutTask H) (replicas : List (Replica H)) :
    (w.putInsert i task replicas).1.nextObject = w.nextObject + 1 := by
  unfold putInsert
  simp only
  split <;> rfl

theorem turn_nextObject (turn : Turn p w e w') : w.nextObject ≤ w'.nextObject := by
  cases turn with
  | quiet same => exact le_of_eq same.nextObject.symm
  | reordered _ _ _ same => exact le_of_eq same.nextObject.symm
  | critical _ _ _ _ _ _ _ _ nextObject => exact le_of_eq nextObject.symm
  | lock _ _ _ _ _ after => rw [after]; exact le_refl _
  | call _ _ _ _ _ _ _ _ _ _ _ after => rw [after]; exact le_refl _
  | unlock _ _ _ result _ _ after =>
    rw [after]
    unfold putUnlock
    split <;> exact le_refl _
  | insert i _ task replicas _ _ _ after => rw [after, putInsert_nextObject]; exact Nat.le_succ _

omit [BufferAllocatorBase A H] in
theorem entry_of_shards (same : w'.shards = w.shards) (i : Fin kNumShards) (key : String) :
    w'.entry i key = w.entry i key := by
  rw [entry, entry, same]

/-- What a step does to the place of one key: the entry there has one of the effects, or a
put inserts one. -/
inductive EntryTurn (p : Params) (w : World A H) (e : Event) (w' : World A H) (i : Fin kNumShards) (key : String) :
    Option (ObjectMetadata H) → Option (ObjectMetadata H) → Prop
  | absent : EntryTurn p w e w' i key none none
  | effect (m : ObjectMetadata H) (out : Option (ObjectMetadata H)) (effect : Effect p w e key m out) :
      EntryTurn p w e w' i key (some m) out
  | inserted (choice : List Nat) (task : PutTask H) (replicas : List (Replica H)) (asked : e = .putAdvance i choice)
      (busy : w.busy i = some task) (phase : task.phase = .inserting replicas) (named : key = task.key)
      (next : w'.nextObject = w.nextObject + 1) :
      EntryTurn p w e w' i key none (some (.make w.nextObject task.totalLength replicas task.config.withSoftPin))

omit [BufferAllocatorBase A H] in
theorem EntryTurn.kept {before after : Option (ObjectMetadata H)} (same : after = before) :
    EntryTurn p w e w' i key before after := by
  subst same
  cases after with
  | none => exact .absent
  | some m => exact .effect m _ (.kept m)

theorem turn_entry (turn : Turn p w e w') (i : Fin kNumShards) (key : String) :
    EntryTurn p w e w' i key (w.entry i key) (w'.entry i key) := by
  cases turn with
  | quiet same shards => exact .kept (entry_of_shards shards i key)
  | reordered j t perm same shards =>
    refine .kept ?_
    rw [entry, entry, shards]
    rcases eq_or_ne i j with rfl | other
    · rw [update_self]
      exact AList.perm_lookup perm
    · rw [update_of_ne other]
  | critical j free t gs swept shards =>
    rcases eq_or_ne i j with rfl | other
    · rw [entry, entry, shards, update_self]
      cases found : (w.shards i).lookup key with
      | none =>
        rw [swept.absent key found]
        exact .absent
      | some m => exact .effect m _ (swept.present key m found)
    · refine .kept ?_
      rw [entry, entry, shards, update_of_ne other]
  | lock j task busy phase unlocked after => exact .kept (entry_of_shards (by rw [after]; rfl) i key)
  | call j task held op next busy phase choice heap answer performed after =>
    exact .kept (entry_of_shards (by rw [after]; rfl) i key)
  | unlock j task held result busy phase after =>
    refine .kept (entry_of_shards ?_ i key)
    rw [after]
    unfold putUnlock
    split <;> rfl
  | insert j choice task replicas asked busy phase after =>
    subst after
    rcases putInsert_lookup w j task replicas i key with same | ⟨rfl, named, free, inserted⟩
    · exact .kept same
    · rw [free, inserted]
      exact .inserted choice task replicas asked busy phase named (putInsert_nextObject w i task replicas)

theorem turn_origin (turn : Turn p w e w') (found : w'.entry i key = some m') :
    (∃ m, w.entry i key = some m ∧ Effect p w e key m (some m')) ∨
      ∃ choice task replicas, e = .putAdvance i choice ∧ w.busy i = some task ∧ task.phase = .inserting replicas ∧
        key = task.key ∧ w'.nextObject = w.nextObject + 1 ∧
        m' = .make w.nextObject task.totalLength replicas task.config.withSoftPin := by
  have entry := turn_entry turn i key
  rw [found] at entry
  cases before : w.entry i key with
  | some m =>
    rw [before] at entry
    cases entry with
    | effect _ _ effect => exact Or.inl ⟨m, rfl, effect⟩
  | none =>
    rw [before] at entry
    cases entry with
    | inserted choice task replicas asked busy phase named next =>
      exact Or.inr ⟨choice, task, replicas, asked, busy, phase, named, next, rfl⟩

def Dropped (w w' : World A H) (i : Fin kNumShards) (key : String) (m : ObjectMetadata H) (r : Replica H) : Prop :=
  w.entry i key = some m ∧ Gone m (w'.entry i key) r

theorem turn_dropped (turn : Turn p w e w') (dropped : Dropped w w' i key m r) : Cause p w e key m r := by
  obtain ⟨found, gone⟩ := dropped
  have entry := turn_entry turn i key
  rw [found] at entry
  cases entry with
  | effect _ _ effect => exact effect.cause gone

end Mooncake.Master
