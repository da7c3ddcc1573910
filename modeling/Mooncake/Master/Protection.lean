import Mooncake.Master.Registration

/-! Whether the removing requests spare the replicas that a client is still writing. -/
namespace Mooncake.Master

open Option World
variable {A H : Type}

def Replica.isWriting (r : Replica H) : Bool := decide (r.type = .memory) && decide (r.status = .processing)

/-- The event is a step of `Remove`, `RemoveByRegex`, `RemoveAll` or `BatchEvict`. -/
def World.removes (w : World A H) : Event → Bool
  | .remove _ => true
  | .advance id =>
    match w.tasks.lookup id with
    | some (.removeByRegex _ _ _) => true
    | some (.removeAll _ _ _) => true
    | some (.evict _) => true
    | _ => false
  | _ => false

def World.SparesWriters (w : World A H) (e : Event) (w' : World A H) : Prop :=
  w.removes e = true → ∀ i key m r, Dropped w w' i key m r → r.isWriting = false

/-- `RemoveAll` meets no entry in its next shard that is being written and has no lease;
`Remove` meets no replica that is being written into a segment on its way out. -/
def World.writersSafe (p : Params) (w : World A H) : Event → Bool
  | .remove key =>
    (w.entry (p.getShardIndex key) key).all (fun m =>
      m.replicas.all (fun r => !(r.isWriting && r.hasInvalidMemHandle w.isValid)))
  | .advance id =>
    match w.tasks.lookup id with
    | some (.removeAll now next _) =>
      if below : next < kNumShards then
        (w.shards ⟨next, below⟩).entries.all (fun entry =>
          !entry.2.isLeaseExpired now || entry.2.replicas.all (fun r => !r.isWriting))
      else true
    | _ => true
  | _ => true

theorem not_writing_of_complete {r : Replica H} (complete : r.status = .complete) : r.isWriting = false := by
  simp [Replica.isWriting, complete]

theorem valid_data {valid : Nat → Bool} {r r' : Replica H} (same : r'.data = r.data) :
    r'.hasInvalidMemHandle valid = r.hasInvalidMemHandle valid := by
  rw [Replica.hasInvalidMemHandle, Replica.hasInvalidMemHandle, Replica.buffers, Replica.buffers, same]

section Steps
variable [BufferAllocatorBase A H] {p : Params} {w w' : World A H} {reply : Reply}

theorem onShard_entry {τ : Type} {i : Fin kNumShards} {body : Shard H → τ × Shard H × List (Garbage H)}
    {mid : World A H} {x : τ} (done : w.onShard i body = some (mid, x)) (j : Fin kNumShards) (key : String) :
    mid.entry j key = if j = i then (body (w.shards i)).2.1.lookup key else w.entry j key := by
  obtain ⟨-, -, rfl⟩ := onShard_eq done
  simp only [entry, cut]
  split
  · rename_i same
    subst same
    rw [Function.update_self]
  · rename_i other
    rw [Function.update_of_ne other]

variable {key : String} {m : ObjectMetadata H} {i : Fin kNumShards} {r : Replica H} {id : Nat}

omit [BufferAllocatorBase A H] in
theorem not_dropped (same : w'.entry i key = w.entry i key) : ¬Dropped w w' i key m r := by
  rintro ⟨found, member, gone⟩
  exact gone m (same.trans found) r member rfl

/-! `RemoveAll`. -/

section
variable {now : Int} {id removed next : Nat} (listed : w.tasks.lookup id = some (.removeAll now next removed))
  (done : w.exec p (.advance id) = some (w', reply))
include listed done

theorem removeAll_entry (below : next < kNumShards) (i : Fin kNumShards) (key : String) :
    w'.entry i key = if i = ⟨next, below⟩ then (w.entry i key).filter (fun m => !m.isLeaseExpired now)
      else w.entry i key := by
  simp only [exec, listed, taskAdvance, below, dif_pos] at done
  obtain ⟨⟨mid, x⟩, inside, same⟩ := map_eq_some_iff.mp done
  cases same
  have entry := onShard_entry inside i key
  split at entry
  · rename_i here
    subst here
    rw [if_pos rfl]
    refine entry.trans ?_
    obtain ⟨none, gone⟩ | ⟨s, m, found, outcome⟩ :=
      Table.lookup_sweep (removeAllVisit now) removed (w.shards ⟨next, below⟩) key
    · rw [gone, World.entry, none]
      rfl
    · rw [outcome, World.entry, found, removeAllVisit, filter_some]
      cases m.isLeaseExpired now with
      | false => rfl
      | true => rfl
  · rename_i other
    rw [if_neg other]
    exact entry

theorem removeAll_over (ceased : ¬next < kNumShards) (i : Fin kNumShards) (key : String) :
    w'.entry i key = w.entry i key := by
  simp only [exec, listed, taskAdvance, ceased, dif_neg, not_false_eq_true] at done
  cases done
  rfl

/-- One step of `RemoveAll` drops exactly the entries of its shard whose lease is over. -/
theorem removeAll_spares (below : next < kNumShards) :
    (∀ i key m r, Dropped w w' i key m r → r.isWriting = false) ↔
      ∀ key m, w.entry ⟨next, below⟩ key = some m → m.isLeaseExpired now = true →
        ∀ r ∈ m.replicas, r.isWriting = false := by
  have entry := removeAll_entry listed done below
  constructor
  · intro spares key m found expired r member
    refine spares ⟨next, below⟩ key m r ⟨found, member, ?_⟩
    rw [entry, if_pos rfl, found, filter_some, expired]
    exact fun _ none => (nomatch none)
  · rintro safe i key m r ⟨found, member, gone⟩
    rw [entry] at gone
    split at gone
    · rename_i here
      subst here
      cases expired : m.isLeaseExpired now with
      | true => exact safe key m found expired r member
      | false =>
        rw [found, filter_some, expired] at gone
        exact absurd rfl (gone m rfl r member)
    · exact absurd rfl (gone m found r member)

theorem sparesWriters_removeAll : w.SparesWriters (.advance id) w' ↔ w.writersSafe p (.advance id) = true := by
  have removes : w.removes (.advance id) = true := by simp only [removes, listed]
  refine (forall_prop_of_true removes).trans ?_
  simp only [writersSafe, listed]
  split
  · rename_i below
    rw [removeAll_spares listed done below, Table.all_entries]
    refine forall_congr' (fun key => forall_congr' (fun m => forall_congr' (fun _ => ?_)))
    simp only [Bool.or_eq_true, Bool.not_eq_true', List.all_eq_true]
    cases m.isLeaseExpired now with
    | true => simp only [forall_const, Bool.true_eq_false, false_or]
    | false => simp only [Bool.false_eq_true, false_imp_iff, true_or]
  · rename_i ceased
    refine iff_of_true (fun i key m r dropped => ?_) rfl
    exact absurd dropped (not_dropped (removeAll_over listed done ceased i key))

end

/-! `Remove`. -/

theorem remove_entry (done : w.exec p (.remove key) = some (w', reply)) {m' : ObjectMetadata H}
    (found : w.entry (p.getShardIndex key) key = some m) (left : w'.entry (p.getShardIndex key) key = some m') :
    m' = m.clean w.isValid := by
  obtain ⟨⟨mid, x⟩, inside, same⟩ := map_eq_some_iff.mp done
  cases same
  have entry := onShard_entry inside (p.getShardIndex key) key
  rw [if_pos rfl, atKey_lookup] at entry
  rw [World.entry] at found
  rw [entry, found] at left
  simp only [accessEntry] at left
  split at left
  · cases left
  · unfold ObjectMetadata.remove at left
    split at left
    · exact (some.inj left).symm
    split at left
    · exact (some.inj left).symm
    · cases left

theorem remove_spares (x : Located p w) (done : w.exec p (.remove key) = some (w', reply)) :
    (∀ i key' m r, Dropped w w' i key' m r → r.isWriting = false) ↔
      ∀ m, w.entry (p.getShardIndex key) key = some m → ∀ r ∈ m.replicas,
        (r.isWriting && r.hasInvalidMemHandle w.isValid) = false := by
  constructor
  · intro spares m found r member
    cases invalid : r.hasInvalidMemHandle w.isValid with
    | false => exact Bool.and_false _
    | true =>
      rw [Bool.and_true]
      refine spares (p.getShardIndex key) key m r ⟨found, member, ?_⟩
      intro m' left r' member' same
      rw [remove_entry done found left, mem_clean, valid_data same, invalid] at member'
      exact Bool.noConfusion member'.2
  · intro safe i key' m r dropped
    have found := dropped.1
    cases turn_dropped (exec_turn done) dropped with
    | stale asked invalid =>
      cases asked.key_eq (e := .remove key) rfl
      rw [← x.home i key m found] at found
      have kept := safe m found r dropped.2.1
      rw [invalid, Bool.and_true] at kept
      exact kept
    | revoked type asked => cases asked
    | removed asked expired complete => exact not_writing_of_complete complete
    | matched id found next removed asked => cases asked
    | swept id now next removed asked => cases asked
    | evicted id state asked => cases asked

/-! `RemoveByRegex` and `BatchEvict` ask for complete replicas. -/

theorem advance_spares {task : Task} (listed : w.tasks.lookup id = some task)
    (no_unmount : ∀ segment client dec next, task ≠ .unmount segment client dec next)
    (no_removeAll : ∀ now next removed, task ≠ .removeAll now next removed) (turn : Turn p w (.advance id) w')
    (dropped : Dropped w w' i key m r) : r.isWriting = false := by
  cases turn_dropped turn dropped with
  | stale asked =>
    obtain ⟨segment, client, dec, next, unmount⟩ := asked.unmount
    exact absurd (some.inj (listed.symm.trans unmount)) (no_unmount segment client dec next)
  | revoked type asked => cases asked
  | removed asked => cases asked
  | matched id found next removed asked task expired complete => exact not_writing_of_complete complete
  | swept id now next removed asked swept =>
    cases asked
    exact absurd (some.inj (listed.symm.trans swept)) (no_removeAll now next removed)
  | evicted id state asked task expired complete =>
    rw [Replica.isWriting]
    cases type : r.type with
    | memory => rw [complete type]; rfl
    | disk => rfl

/-! All four. -/

theorem sparesWriters_remove (x : Located p w) (done : w.exec p (.remove key) = some (w', reply)) :
    w.SparesWriters (.remove key) w' ↔ w.writersSafe p (.remove key) = true := by
  refine (forall_prop_of_true rfl).trans ((remove_spares x done).trans ?_)
  simp only [writersSafe, all_eq_true, List.all_eq_true, Bool.not_eq_true']

omit [BufferAllocatorBase A H] in
theorem sparesWriters_other {e : Event} (other : w.removes e = false) (safe : w.writersSafe p e = true) :
    w.SparesWriters e w' ↔ w.writersSafe p e = true :=
  iff_of_true (fun removes => nomatch other.symm.trans removes) safe

theorem sparesWriters_iff (x : Located p w) {e : Event} (done : w.step p e = some w') :
    w.SparesWriters e w' ↔ w.writersSafe p e = true := by
  obtain ⟨reply, inside⟩ := step_exec done
  cases e with
  | remove key => exact sparesWriters_remove x inside
  | advance id =>
    have turn := exec_turn inside
    cases listed : w.tasks.lookup id with
    | none => exact sparesWriters_other (by simp only [removes, listed]) (by simp only [writersSafe, listed])
    | some task =>
      cases task with
      | unmount segment client dec next =>
        exact sparesWriters_other (by simp only [removes, listed]) (by simp only [writersSafe, listed])
      | removeByRegex found next removed =>
        refine iff_of_true (fun _ i key m r => advance_spares listed (by simp) (by simp) turn) ?_
        simp only [writersSafe, listed]
      | removeAll now next removed => exact sparesWriters_removeAll listed inside
      | replicaListByRegex found next results =>
        exact sparesWriters_other (by simp only [removes, listed]) (by simp only [writersSafe, listed])
      | evict state =>
        refine iff_of_true (fun _ i key m r => advance_spares listed (by simp) (by simp) turn) ?_
        simp only [writersSafe, listed]
  | _ => exact sparesWriters_other rfl rfl

/-- A run spares the writers exactly if no step of its `RemoveAll` and `Remove` requests meets one
unprotected; `RemoveByRegex` and `BatchEvict` spare them always. -/
theorem removals_spare_writers_iff_safe {events : List Event}
    (run : Run.run (World.step p) (World.start p) events = some w) :
    Run.Every (World.step p) World.SparesWriters (World.start p : World A H) events ↔
      Run.Guarded (World.step p) (fun w e => w.writersSafe p e = true) (World.start p : World A H) events := by
  refine Run.every_iff_guarded located_kept ?_ (located_start p) run
  intro w e w' x done
  exact sparesWriters_iff x done

end Steps

open Sample in
theorem removeAll_spares_completed_put : ∃ w : State,
    Run.run (World.step params) (World.start params)
      (mount segmentA clientA ++ put "k" "a" ++ [.putEnd "k" .memory, .removeAll 0, .advance 0]) = some w ∧
    Run.Every (World.step params) World.SparesWriters (World.start params : State)
      (mount segmentA clientA ++ put "k" "a" ++ [.putEnd "k" .memory, .removeAll 0, .advance 0]) := by
  have outcome : (Run.run (step params) (start params : State)
      (mount segmentA clientA ++ put "k" "a" ++ [.putEnd "k" .memory, .removeAll 0, .advance 0])).isSome = true := by
    decide +kernel
  obtain ⟨w, run⟩ := isSome_iff_exists.mp outcome
  exact ⟨w, run, (removals_spare_writers_iff_safe run).mpr (by decide +kernel)⟩

open Sample in
/-- A fresh object has a lease that ended at the epoch, and `RemoveAll` looks at nothing else. -/
theorem removeAll_erases_replica_being_written : ∃ (w w' : State) (m : ObjectMetadata _) (r : Replica _),
    World.Reachable params w ∧ w.removes (.advance 0) = true ∧ w.step params (.advance 0) = some w' ∧
      Dropped w w' shard "k" m r ∧ r.isWriting = true ∧ w'.heap.live = [] := by
  have outcome : (Run.run (step params) (start params : State)
      (mount segmentA clientA ++ put "k" "a" ++ [.removeAll 0])).bind (fun w =>
        (w.step params (.advance 0)).map (fun w' =>
          ((w.entry shard "k").map (fun m => m.replicas.map Replica.isWriting), w.removes (.advance 0),
            (w'.entry shard "k").isNone, w'.heap.live))) =
      some (some [true], true, true, []) := by decide +kernel
  obtain ⟨w, reached, seen⟩ := reached_of_outcome outcome
  obtain ⟨w', done, observed⟩ := map_eq_some_iff.mp seen
  obtain ⟨before, rest⟩ := Prod.mk.inj observed
  obtain ⟨removes, rest⟩ := Prod.mk.inj rest
  obtain ⟨after, live⟩ := Prod.mk.inj rest
  obtain ⟨m, found, writing⟩ := map_eq_some_iff.mp before
  obtain ⟨r, one, writes⟩ := List.map_eq_singleton_iff.mp writing
  refine ⟨w, w', m, r, reached, removes, done, ⟨found, by rw [one]; exact List.mem_singleton_self r, ?_⟩, writes, live⟩
  rw [isNone_iff_eq_none.mp after]
  exact fun _ none => (nomatch none)

end Mooncake.Master
