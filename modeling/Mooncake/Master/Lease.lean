import Mathlib.Data.List.GetD
import Mooncake.Master.Protection
import Mooncake.Master.Tasks

/-! Leases. The bulk requests read the clock once and use that time in many later critical
sections; the first part shows that they never act on a time that is still to come. The
clock is an unbounded number of nanoseconds. -/
namespace Mooncake.Master

open List World Option
variable {A H : Type}

/-! Times that a request carries along. -/

structure Eviction.Timed (e : Eviction) : Prop where
  collected : ∀ t ∈ e.noPinObjects, t ≤ e.now
  target : ∀ i timeout n, e.phase = .secondPassA i timeout n → timeout ≤ e.now

def Task.Timed (clock : Int) : Task → Prop
  | .removeAll now _ _ => now ≤ clock
  | .evict e => e.now ≤ clock ∧ e.Timed
  | _ => True

theorem timeouts_over (now : Int) (pinned : Bool) (t : Shard H) : ∀ x ∈ Eviction.timeouts now pinned t, x ≤ now := by
  intro x member
  obtain ⟨entry, kept, rfl⟩ := mem_map.mp member
  have guard := (mem_filter.mp kept).2
  simp only [Bool.and_eq_true] at guard
  exact of_decide_eq_true guard.1.1

theorem firstVisit_over (now timeout : Int) (s : Int × List Int) (key : String) (m : ObjectMetadata H)
    (ceased : ∀ x ∈ s.2, x ≤ now) : ∀ x ∈ (Eviction.firstVisit now timeout s key m).1.2, x ≤ now := by
  unfold Eviction.firstVisit
  split
  · exact ceased
  rename_i guard
  split
  · exact ceased
  · intro x member
    rcases mem_append.mp member with old | new
    · exact ceased x old
    · rw [mem_singleton.mp new]
      simp only [Bool.or_eq_true, Bool.not_eq_true', not_or, Bool.not_eq_false] at guard
      exact of_decide_eq_true guard.1.1.1

theorem firstPassShard_fields (ceilTimes : Int → ℚ → Int) (allow : Bool) (e : Eviction) (t : Shard H)
    (ceased : ∀ x ∈ e.noPinObjects, x ≤ e.now) :
    (e.firstPassShard ceilTimes allow t).1.now = e.now ∧
      ∀ x ∈ (e.firstPassShard ceilTimes allow t).1.noPinObjects, x ≤ e.now := by
  unfold Eviction.firstPassShard
  simp only
  split
  · split
    · exact ⟨rfl, ceased⟩
    · exact ⟨rfl, Table.sweep_state (P := fun s : Int × List Int => ∀ x ∈ s.2, x ≤ e.now) _
        (fun s key m holds => firstVisit_over e.now _ s key m holds) ceased t⟩
  · refine ⟨rfl, fun x member => ?_⟩
    rcases mem_append.mp member with old | new
    · exact ceased x old
    · exact timeouts_over e.now false t x new

theorem nthElement_mem {xs : List Int} {n : Nat} (below : n < xs.length) : nthElement xs n ∈ xs := by
  rw [nthElement, getD_eq_getElem _ _ (by rw [length_insertionSort]; exact below)]
  exact (perm_insertionSort (· ≤ ·) xs).mem_iff.mp (getElem_mem _)

theorem planSecondPass_target {ceilTimes : Int → ℚ → Int} {e : Eviction} (ceased : ∀ x ∈ e.noPinObjects, x ≤ e.now)
    {i : Nat} {timeout n : Int} (plan : e.planSecondPass ceilTimes = .secondPassA i timeout n) : timeout ≤ e.now := by
  unfold Eviction.planSecondPass at plan
  simp only at plan
  split at plan
  · rename_i some_left
    split at plan
    · rename_i enough
      cases plan
      refine ceased _ (nthElement_mem ?_)
      omega
    split at plan
    · cases plan
    · cases plan
  · cases plan

theorem Eviction.Moves.timed {p : Params} {e e' : Eviction} (moves : e.Moves H p e') (x : e.Timed) :
    e'.now = e.now ∧ e'.Timed := by
  cases moves with
  | first i t phase =>
    obtain ⟨now, ceased⟩ := firstPassShard_fields p.ceilTimes p.allowEvictSoftPinnedObjects e t x.collected
    refine ⟨now, fun y member => ?_, fun _ _ _ other => (nomatch other)⟩
    rw [now]
    exact ceased y member
  | plan => exact ⟨rfl, x.collected, fun _ _ _ plan => planSecondPass_target x.collected plan⟩
  | passA i next timeout n n' count phase =>
    refine ⟨rfl, x.collected, ?_⟩
    intro _ _ _ same
    cases same
    exact x.target i timeout n phase
  | passB => exact ⟨rfl, x.collected, fun _ _ _ other => (nomatch other)⟩
  | finish => exact ⟨rfl, x.collected, fun _ _ _ other => (nomatch other)⟩

variable {task : Task} {clock : Int}

theorem Task.Fresh.timed {w : World A H} (fresh : task.Fresh w) : task.Timed w.clock := by
  cases task with
  | removeAll now next removed => exact le_of_eq fresh.1
  | evict state =>
    obtain ⟨target, lowerbound, startIdx, rfl⟩ := fresh
    exact ⟨le_refl _, fun _ member => (nomatch member), fun _ _ _ other => (nomatch other)⟩
  | unmount => trivial
  | removeByRegex => trivial
  | replicaListByRegex => trivial

theorem Task.Moves.timed {p : Params} {w w' : World A H} {task' : Task} (moves : task.Moves p w w' task')
    (x : task.Timed clock) : task'.Timed clock := by
  cases moves with
  | removeAll => exact x
  | evict state state' moves =>
    obtain ⟨now, timed⟩ := moves.timed x.2
    exact ⟨now ▸ x.1, timed⟩
  | unmount => trivial
  | removeByRegex => trivial
  | replicaListByRegex => trivial

theorem Task.Timed.later {clock' : Int} (x : task.Timed clock) (later : clock ≤ clock') :
    task.Timed clock' := by
  cases task with
  | removeAll => exact le_trans x later
  | evict => exact ⟨le_trans x.1 later, x.2⟩
  | unmount => trivial
  | removeByRegex => trivial
  | replicaListByRegex => trivial

def World.Timed (w : World A H) : Prop := ∀ id task, w.tasks.lookup id = some task → task.Timed w.clock

theorem timed_insert {t : Table Nat Task} {id : Nat} (new : task.Timed clock)
    (old : ∀ id task, t.lookup id = some task → task.Timed clock) :
    ∀ id' task', (t.insert id task).lookup id' = some task' → task'.Timed clock := by
  intro id' task' found
  rcases Table.lookup_insert_eq_some.mp found with ⟨-, rfl⟩ | ⟨-, before⟩
  · exact new
  · exact old id' task' before

theorem timed_step {p : Params} {w w' : World A H} (x : w.Timed) (turn : TaskTurn p w w') : w'.Timed := by
  cases turn with
  | same tasks monitor clock =>
    intro id task found
    rw [tasks] at found
    exact (x id task found).later clock
  | spawned id task unused fresh tasks monitor clock =>
    rw [Timed, tasks, clock]
    exact timed_insert fresh.timed x
  | moved id task task' listed moves tasks monitor clock =>
    rw [Timed, tasks, clock]
    exact timed_insert (moves.timed (x id task listed)) x
  | ended id task listed ceased tasks monitor clock =>
    intro id' task' found
    rw [tasks] at found
    rw [clock]
    exact x id' task' (Table.lookup_erase_eq_some.mp found).2
  | watched moves tasks clock =>
    intro id task found
    rw [tasks] at found
    rw [clock]
    exact x id task found

/-! Sizes. An entry of size 0 counts as invalid as soon as something is taken out of it. -/

/-- The slice lengths of a put do not add up to 0 in 64 bits. -/
def Event.sized : Event → Bool
  | .putStart _ sliceLengths _ => decide (sliceLengths.sum % 2 ^ 64 ≠ 0)
  | _ => true

section Steps
variable [BufferAllocatorBase A H] {p : Params} {w w' : World A H} {e : Event}

/-- The lengths of a put in flight are those of its `PutStart`. -/
def Continues (w : World A H) (e : Event) (j : Fin kNumShards) (task' : PutTask H) : Prop :=
  (∃ task, w.busy j = some task ∧ task'.sliceLengths = task.sliceLengths) ∨
    ∃ key config, e = .putStart key task'.sliceLengths config

theorem turn_busy (turn : Turn p w e w') :
    w'.busy = w.busy ∨ ∃ j put', w'.busy = Function.update w.busy j put' ∧ ∀ task', put' = some task' →
      Continues w e j task' := by
  cases turn with
  | quiet same => exact Or.inl same.busy
  | reordered _ _ _ same => exact Or.inl same.busy
  | critical j free t gs swept shards heap locks =>
    rcases locks with same | ⟨key, sliceLengths, config, asked, busy, -⟩
    · exact Or.inl same
    · refine Or.inr ⟨j, _, busy, fun task' same => Or.inr ?_⟩
      cases same
      exact ⟨key, config, asked⟩
  | lock j task busy phase unlocked after =>
    refine Or.inr ⟨j, _, congrArg World.busy after, fun task' same => Or.inl ⟨task, busy, ?_⟩⟩
    cases same
    rfl
  | call j task held op next busy phase choice heap answer performed after =>
    refine Or.inr ⟨j, _, congrArg World.busy after, fun task' same => Or.inl ⟨task, busy, ?_⟩⟩
    cases same
    rfl
  | unlock j task held result busy phase after =>
    unfold putUnlock at after
    simp only at after
    split at after
    · exact Or.inr ⟨j, none, congrArg World.busy after, fun _ none => (nomatch none)⟩
    · exact Or.inr ⟨j, none, congrArg World.busy after, fun _ none => (nomatch none)⟩
    · refine Or.inr ⟨j, _, congrArg World.busy after, fun task' same => Or.inl ⟨task, busy, ?_⟩⟩
      cases same
      rfl
  | insert j choice task replicas asked busy phase after =>
    refine Or.inr ⟨j, none, ?_, fun _ none => (nomatch none)⟩
    rw [after]
    exact (putInsert_world w j task replicas).1

structure Guarding (p : Params) (w : World A H) : Prop where
  located : Located p w
  timed : w.Timed
  sized : ∀ i key m, w.entry i key = some m → m.size ≠ 0
  puts : ∀ i task, w.busy i = some task → task.totalLength ≠ 0

omit [BufferAllocatorBase A H] in
theorem guarding_start (p : Params) : Guarding p (start p : World A H) :=
  ⟨located_start p, fun _ _ found => (nomatch found), fun _ _ _ found => (nomatch found),
    fun _ _ found => (nomatch found)⟩

theorem guarding_step (x : Guarding p w) (sized : e.sized = true) (done : w.step p e = some w') : Guarding p w' := by
  obtain ⟨r, inside⟩ := step_exec done
  have turn := exec_turn inside
  refine ⟨located_step x.located turn (exec_segments inside), timed_step x.timed (exec_tasks inside), ?_, ?_⟩
  · intro i key m' found
    obtain ⟨m, before, effect⟩ | ⟨choice, task, replicas, -, put, -, -, -, rfl⟩ := turn_origin turn found
    · rw [(effect.inherits rfl).size]
      exact x.sized i key m before
    · exact x.puts i task put
  · intro i task' put
    rcases turn_busy turn with same | ⟨j, put', busy, continues⟩
    · exact x.puts i task' (same ▸ put)
    rw [busy, Function.update_apply] at put
    split at put
    · rw [totalLength_eq]
      obtain ⟨task, before, lengths⟩ | ⟨key, config, rfl⟩ := continues task' put
      · rw [lengths, ← totalLength_eq]
        exact x.puts j task before
      · exact of_decide_eq_true sized
    · exact x.puts i task' put

omit [BufferAllocatorBase A H] in
/-- Before the lease is over a complete replica leaves only because its segment has left. -/
theorem Cause.stale_of_lease (x : Guarding p w) {i : Fin kNumShards} {key : String} {m : ObjectMetadata H}
    {r : Replica H} (cause : Cause p w e key m r) (found : w.entry i key = some m)
    (lease : w.clock < m.leaseTimeout) (complete : r.status = .complete) :
    r.hasInvalidMemHandle w.isValid = true := by
  cases cause with
  | stale asked invalid => exact invalid
  | revoked type asked aimed spared =>
    rcases eq_or_ne r.type type with same | other
    · exact nomatch complete.symm.trans (aimed same)
    · exact absurd (spared other) (x.sized i key m found)
  | removed asked expired => exact absurd lease (not_lt_of_ge expired)
  | matched id found next removed asked task expired => exact absurd lease (not_lt_of_ge expired)
  | swept id now next removed asked task expired =>
    have past : now ≤ w.clock := x.timed id _ task
    exact absurd lease (not_lt_of_ge (le_trans expired past))
  | evicted id state asked task expired =>
    obtain ⟨past, timed⟩ : state.now ≤ w.clock ∧ state.Timed := x.timed id _ task
    rcases expired with expired | ⟨j, timeout, n, phase, expired⟩
    · exact absurd lease (not_lt_of_ge (le_trans expired past))
    · exact absurd lease (not_lt_of_ge (le_trans expired (le_trans (timed.target j timeout n phase) past)))

/-! Granting. -/

def World.leaseEnd (p : Params) (w : World A H) : Int := w.clock + p.defaultKvLeaseTtl * ObjectMetadata.nanosPerMilli

/-- The step answers a reader of the key: `ExistKey` with true, `GetReplicaList` with replicas,
or `GetReplicaListByRegex` when it lists the key. -/
inductive Grants (p : Params) (w : World A H) (w' : World A H) (i : Fin kNumShards) (key : String) : Prop
  | existKey (home : p.getShardIndex key = i) (done : w.exec p (.existKey key) = some (w', .exists true))
  | getReplicaList (list : List ReplicaDescriptor) (home : p.getShardIndex key = i)
      (done : w.exec p (.getReplicaList key) = some (w', .replicas (.ok list)))
  | byRegex (id : Nat) (found : String → Bool) (results : List (String × List ReplicaDescriptor)) (reply : Reply)
      (m : ObjectMetadata H) (task : w.tasks.lookup id = some (.replicaListByRegex found i results))
      (hit : found key = true) (entry : w.entry i key = some m) (ready : m.completeReplicas ≠ [])
      (done : w.exec p (.advance id) = some (w', reply))

omit [BufferAllocatorBase A H] in
theorem grantLease_end (m : ObjectMetadata H) (softTtl : Nat) :
    w.leaseEnd p ≤ (m.grantLease w.clock p.defaultKvLeaseTtl softTtl).leaseTimeout := Int.le_max_right _ _

variable {i : Fin kNumShards} {key : String} {events : List Event} {object : Nat} {lease : Int}

/-- A request through the accessor that grants a lease whenever it gives this answer. -/
theorem request_grants {ρ : Type} {missing good : ρ} {use : ObjectMetadata H → Outcome H ρ} {reply : ρ → Reply}
    (injective : ∀ x, reply x = reply good → x = good) (refused : missing ≠ good)
    (granted : ∀ m, (use m).1 = good → ∃ m', (use m).2.1 = some m' ∧ w.leaseEnd p ≤ m'.leaseTimeout)
    (done : w.request p key missing use reply = some (w', reply good)) :
    ∃ m', w'.entry (p.getShardIndex key) key = some m' ∧ w.leaseEnd p ≤ m'.leaseTimeout := by
  obtain ⟨⟨mid, x⟩, inside, same⟩ := map_eq_some_iff.mp done
  obtain ⟨rfl, answer⟩ := Prod.mk.inj same
  have entry := onShard_entry inside (p.getShardIndex key) key
  rw [if_pos rfl, atKey_lookup] at entry
  obtain ⟨-, result, -⟩ := onShard_eq inside
  rw [entry]
  have answered : (accessEntry w.isValid missing use ((w.shards (p.getShardIndex key)).lookup key)).1 = good :=
    result.symm.trans (injective x answer)
  cases before : (w.shards (p.getShardIndex key)).lookup key with
  | none =>
    rw [before] at answered
    exact absurd answered refused
  | some m =>
    rw [before] at answered
    unfold accessEntry at answered ⊢
    simp only at answered ⊢
    split at answered
    · exact absurd answered refused
    · rename_i kept
      rw [if_neg kept]
      exact granted _ answered

theorem listed_lease {id : Nat} {found : String → Bool} {results : List (String × List ReplicaDescriptor)}
    {reply : Reply} {m : ObjectMetadata H} (task : w.tasks.lookup id = some (.replicaListByRegex found i results))
    (hit : found key = true) (entry : w.entry i key = some m) (ready : m.completeReplicas ≠ [])
    (done : w.exec p (.advance id) = some (w', reply)) :
    ∃ m', w'.entry i key = some m' ∧ w.leaseEnd p ≤ m'.leaseTimeout := by
  simp only [exec, task, taskAdvance, i.isLt, dif_pos] at done
  obtain ⟨⟨mid, x⟩, inside, same⟩ := map_eq_some_iff.mp done
  cases same
  have after := onShard_entry inside i key
  rw [if_pos rfl] at after
  rw [World.entry] at entry
  obtain ⟨none, -⟩ | ⟨state, m', found', outcome⟩ := Table.lookup_sweep (replicaListVisit found w.clock
    p.defaultKvLeaseTtl p.defaultKvSoftPinTtl (fun r => r.getDescriptor w.isValid w.heap)) results (w.shards i) key
  · cases none.symm.trans entry
  · cases entry.symm.trans found'
    have listed : (found key && !m.completeReplicas.isEmpty) = true := by
      rw [hit, Bool.true_and, Bool.not_eq_true', isEmpty_eq_false_iff]
      exact ready
    rw [replicaListVisit, if_pos listed] at outcome
    exact ⟨_, after.trans outcome, grantLease_end m _⟩

theorem grants_lease (grants : Grants p w w' i key) :
    ∃ m', w'.entry i key = some m' ∧ w.leaseEnd p ≤ m'.leaseTimeout := by
  cases grants with
  | existKey home done =>
    subst home
    refine request_grants (fun _ same => Reply.exists.inj same) Bool.false_ne_true ?_ done
    intro m answered
    unfold ObjectMetadata.exist at answered ⊢
    split at answered
    · cases answered
    · rename_i ready
      rw [if_neg ready]
      exact ⟨_, rfl, grantLease_end m _⟩
  | getReplicaList list home done =>
    subst home
    have refused : Except.error ErrorCode.objectNotFound ≠ Except.ok list := fun error => (nomatch error)
    refine request_grants (fun _ same => Reply.replicas.inj same) refused ?_ done
    intro m answered
    unfold ObjectMetadata.getReplicaList at answered ⊢
    split at answered
    · cases answered
    · rename_i ready
      rw [if_neg ready]
      exact ⟨_, rfl, grantLease_end m _⟩
  | byRegex id found results reply m task hit entry ready done => exact listed_lease task hit entry ready done

theorem Grants.step (grants : Grants p w w' i key) : ∃ e, w.step p e = some w' ∧ e.sized = true := by
  cases grants with
  | existKey home done => exact ⟨_, congrArg (Option.map Prod.fst) done, rfl⟩
  | getReplicaList list home done => exact ⟨_, congrArg (Option.map Prod.fst) done, rfl⟩
  | byRegex id found results reply m task hit entry ready done => exact ⟨_, congrArg (Option.map Prod.fst) done, rfl⟩

/-! A lease along a run. -/

structure Holds (w : World A H) (i : Fin kNumShards) (key : String) (object : Nat) (lease : Int) : Prop where
  older : object < w.nextObject
  lease : ∀ m, w.entry i key = some m → m.object = object → lease ≤ m.leaseTimeout

theorem holds_step (x : Holds w i key object lease) (turn : Turn p w e w') : Holds w' i key object lease := by
  refine ⟨Nat.lt_of_lt_of_le x.older (turn_nextObject turn), fun m' found same => ?_⟩
  obtain ⟨m, before, effect⟩ | ⟨choice, task, replicas, -, -, -, -, -, rfl⟩ := turn_origin turn found
  · have inherits := effect.inherits rfl
    exact le_trans (x.lease m before (inherits.object.symm.trans same)) inherits.lease
  · exact absurd same (Nat.ne_of_gt x.older)

theorem guarding_holds_run (x : Guarding p w) (holds : Holds w i key object lease)
    (sized : ∀ e ∈ events, e.sized = true) (run : Run.run (step p) w events = some w') :
    Guarding p w' ∧ Holds w' i key object lease := by
  refine Run.guarded_invariant (P := fun w => Guarding p w ∧ Holds w i key object lease) ?_ ⟨x, holds⟩ run
    (Run.guarded_of_forall w sized)
  rintro w e w' ⟨x, holds⟩ sized done
  obtain ⟨r, inside⟩ := step_exec done
  exact ⟨guarding_step x sized done, holds_step holds (exec_turn inside)⟩

theorem guarding_run (sized : ∀ e ∈ events, e.sized = true)
    (run : Run.run (step p) (start p) events = some w) : Guarding p w :=
  Run.guarded_invariant (fun _ _ _ x sized done => guarding_step x sized done) (guarding_start p) run
    (Run.guarded_of_forall _ sized)

/-- In a run whose puts have a size, a complete replica of an object that a reader was told of
leaves before the lease is over only with its segment. -/
theorem lease_protects_complete_replicas {before later : List Event} {w₀ w₁ w₂ w₃ : World A H} {i : Fin kNumShards}
    {key : String} {m₁ m : ObjectMetadata H} {r : Replica H} (sized : ∀ e ∈ before ++ later, e.sized = true)
    (reached : Run.run (World.step p) (World.start p) before = some w₀) (granted : Grants p w₀ w₁ i key)
    (object : w₁.entry i key = some m₁) (run : Run.run (World.step p) w₁ later = some w₂)
    (done : w₂.step p e = some w₃) (early : w₂.clock < w₀.leaseEnd p) (dropped : Dropped w₂ w₃ i key m r)
    (same : m.object = m₁.object) (complete : r.status = .complete) : r.hasInvalidMemHandle w₂.isValid = true := by
  have x₀ := guarding_run (fun e member => sized e (mem_append_left later member)) reached
  obtain ⟨e₀, first, plain⟩ := granted.step
  have x₁ := guarding_step x₀ plain first
  obtain ⟨m', found, lease⟩ := grants_lease granted
  cases object.symm.trans found
  have holds : Holds w₁ i key m₁.object (w₀.leaseEnd p) := by
    refine ⟨x₁.located.older i key m₁ object, fun m' found' _ => ?_⟩
    cases object.symm.trans found'
    exact lease
  obtain ⟨x₂, holds₂⟩ := guarding_holds_run x₁ holds (fun e member => sized e (mem_append_right before member)) run
  obtain ⟨reply, inside⟩ := step_exec done
  exact (turn_dropped (exec_turn inside) dropped).stale_of_lease x₂ dropped.1
    (lt_of_lt_of_le early (holds₂.lease m dropped.1 same)) complete

end Steps

open Sample in
/-- The lease of the reader is still on when the unmount of its segment takes the replica. -/
theorem leased_replica_leaves_with_segment : ∃ (w₀ w₂ w₃ : State) (m : ObjectMetadata _) (r : Replica _),
    w₂.step params (.advance 0) = some w₃ ∧ w₂.clock < w₀.leaseEnd params ∧ Dropped w₂ w₃ shard "k" m r ∧
      r.status = .complete ∧ r.hasInvalidMemHandle w₂.isValid = true := by
  have outcome : (Run.run (step params) (start params : State)
      (mount segmentA clientA ++ put "k" "a" ++ [.putEnd "k" .memory])).bind (fun w₀ =>
        (w₀.exec params (.existKey "k")).bind (fun r₁ =>
          (Run.run (step params) r₁.1 [.unmountSegment 0 segmentA.id clientA]).bind (fun w₂ =>
            (w₂.step params (.advance 0)).map (fun w₃ => decide (r₁.2 = .exists true ∧ w₂.clock < w₀.leaseEnd params ∧
              (r₁.1.entry shard "k").map ObjectMetadata.object = some 0 ∧
              (w₂.entry shard "k").map ObjectMetadata.object = some 0 ∧
              (w₂.entry shard "k").map (fun m => m.replicas.map Replica.status) = some [.complete] ∧
              (w₃.entry shard "k").isNone = true))))) = some true := by decide +kernel
  obtain ⟨w₀, reached, rest⟩ := bind_eq_some_iff.mp outcome
  obtain ⟨⟨w₁, reply⟩, granted, rest⟩ := bind_eq_some_iff.mp rest
  obtain ⟨w₂, run, rest⟩ := bind_eq_some_iff.mp rest
  obtain ⟨w₃, done, observed⟩ := map_eq_some_iff.mp rest
  obtain ⟨answer, early, first, second, statuses, gone⟩ := of_decide_eq_true observed
  subst answer
  obtain ⟨m₁, object, number₁⟩ := map_eq_some_iff.mp first
  obtain ⟨m, found, number⟩ := map_eq_some_iff.mp second
  rw [found, map_some, some.injEq] at statuses
  obtain ⟨r, one, complete⟩ := map_eq_singleton_iff.mp statuses
  have dropped : Dropped w₂ w₃ shard "k" m r := by
    refine ⟨found, by rw [one]; exact mem_singleton_self r, ?_⟩
    rw [isNone_iff_eq_none.mp gone]
    exact fun _ none => (nomatch none)
  exact ⟨w₀, w₂, w₃, m, r, done, early, dropped, complete, lease_protects_complete_replicas (by decide) reached
    (.existKey rfl granted) object run done early dropped (number.trans number₁.symm) complete⟩

namespace Sample

def diskParams : Params := { params with useDiskReplica := true }

def largeSegment : Segment := ⟨(0, 3), "large", 4096, 4294967296, "large:1"⟩

def wrappingPut : List Event :=
  .putStart "k" [18446744073709551615, 1] { preferredSegment := "large" } :: List.replicate 7 (.putAdvance shard [])

end Sample

open Sample in
/-- A complete and leased MEMORY replica goes with the revoked DISK replica, because an object of
length 0 is taken for an invalid one. -/
theorem putRevoke_erases_leased_replica : ∃ (w₀ w₁ w₃ : State) (m : ObjectMetadata _) (r : Replica _),
    World.Reachable diskParams w₀ ∧ Grants diskParams w₀ w₁ shard "k" ∧
      w₁.step diskParams (.putRevoke "k" .disk) = some w₃ ∧ w₁.clock < w₀.leaseEnd diskParams ∧
      Dropped w₁ w₃ shard "k" m r ∧ r.type = .memory ∧ r.status = .complete ∧
      r.hasInvalidMemHandle w₁.isValid = false := by
  have outcome : (Run.run (step diskParams) (start diskParams : State)
      (mount largeSegment clientA ++ wrappingPut ++ [.putEnd "k" .memory])).bind (fun w₀ =>
        (w₀.exec diskParams (.existKey "k")).bind (fun r₁ =>
          (r₁.1.step diskParams (.putRevoke "k" .disk)).map (fun w₃ =>
            decide (r₁.2 = .exists true ∧ r₁.1.clock < w₀.leaseEnd diskParams ∧
              (r₁.1.entry shard "k").map (fun m => m.replicas.map (fun r =>
                (r.type, r.status, r.hasInvalidMemHandle r₁.1.isValid))) =
                  some [(.memory, .complete, false), (.disk, .processing, false)] ∧
              (w₃.entry shard "k").isNone = true)))) = some true := by decide +kernel
  obtain ⟨w₀, reached, rest⟩ := reached_of_outcome outcome
  obtain ⟨⟨w₁, reply⟩, granted, rest⟩ := bind_eq_some_iff.mp rest
  obtain ⟨w₃, done, observed⟩ := map_eq_some_iff.mp rest
  obtain ⟨answer, early, replicas, gone⟩ := of_decide_eq_true observed
  subst answer
  obtain ⟨m, found, fields⟩ := map_eq_some_iff.mp replicas
  obtain ⟨r, others, split, here, -⟩ := map_eq_cons_iff.mp fields
  obtain ⟨type, rest⟩ := Prod.mk.inj here
  obtain ⟨status, valid⟩ := Prod.mk.inj rest
  refine ⟨w₀, w₁, w₃, m, r, reached, .existKey rfl granted, done, early, ⟨found, ?_, ?_⟩, type, status, valid⟩
  · rw [split]
    exact mem_cons_self
  · rw [isNone_iff_eq_none.mp gone]
    exact fun _ none => (nomatch none)

end Mooncake.Master
