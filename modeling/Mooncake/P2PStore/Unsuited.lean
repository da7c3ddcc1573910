import Mathlib.Data.List.Pairwise
import Mooncake.P2PStore.Copies

/-! What goes wrong with every destination that is not suited: runs in which all transfers complete, and one in
which the error of the first is lost. -/
namespace Mooncake.P2PStore

open Function List Getting Option Download

/-! ## Registered buffers, one after the other -/

def layout : Nat → List Nat → List (Nat × Nat)
  | _, [] => []
  | start, size :: sizes => (start, size) :: layout (start + size) sizes

theorem map_snd_layout (start : Nat) (sizes : List Nat) : (layout start sizes).map Prod.snd = sizes := by
  induction sizes generalizing start with
  | nil => rfl
  | cons size sizes ih => rw [layout, map_cons, ih]

variable {buffer : Nat × Nat}

theorem le_of_mem_layout {start : Nat} {sizes : List Nat} (member : buffer ∈ layout start sizes) :
    start ≤ buffer.1 := by
  induction sizes generalizing start with
  | nil => cases member
  | cons size sizes ih =>
    rcases mem_cons.mp member with rfl | later
    · exact Nat.le_refl _
    · exact Nat.le_trans (Nat.le_add_right _ _) (ih later)

theorem registrable_layout (start : Nat) (sizes : List Nat) : Registrable (layout start sizes) := by
  induction sizes generalizing start with
  | nil => exact List.Pairwise.nil
  | cons size sizes ih => exact pairwise_cons.mpr ⟨fun buffer member => .inr (.inl (le_of_mem_layout member)), ih _⟩

/-! ## Reachable states of a call -/

section Reach
variable {m : Nat} {sizes : List Nat} {buffers registered : List (Nat × Nat)} {bytes : Memory} {memory memory' : Memory}
  {localServerName : String} {payload : Payload} {d d' : Download} {g g' : Getting} {revision : Nat}

def Reach (m : Nat) (registered buffers : List (Nat × Nat)) (bytes : Memory) (g : Getting) : Prop :=
  ∃ inputs, (∀ input ∈ inputs, Honest (fun _ => bytes) m registered bytes input) ∧
    Run.run (Getting.step (fun _ => bytes) "replica" buffers) (beginGet buffers false (fun _ => 0)) inputs = some g

theorem Reach.step (reach : Reach m registered buffers bytes g) (input : GetInput)
    (honest : Honest (fun _ => bytes) m registered bytes input)
    (next : g.step (fun _ => bytes) "replica" buffers input = some g') : Reach m registered buffers bytes g' := by
  obtain ⟨inputs, all, run⟩ := reach
  refine ⟨inputs ++ [input], forall_mem_append.mpr ⟨all, forall_mem_singleton.mpr honest⟩, ?_⟩
  simp only [Run.run_append, run, bind_some, Run.run, next]

theorem Reach.add (positive : 0 < payload.maxShardSize) (planned : d.Planned payload buffers)
    (reach : Reach m registered buffers bytes ⟨.downloading payload revision d, memory⟩) :
    Reach m registered buffers bytes ⟨.finished .indexOutOfRange, memory⟩ ∨
      ∃ d', Reach m registered buffers bytes ⟨.downloading payload revision d', memory⟩ ∧ d'.Planned payload buffers ∧
        d'.rest = [] ∧ d'.phase = d.phase ∧ d'.err = d.err ∧ d'.errChan = d.errChan := by
  obtain ⟨rest, left⟩ : ∃ rest, d.rest = rest := ⟨_, rfl⟩
  induction rest generalizing d with
  | nil => exact .inr ⟨d, reach, planned, left, rfl, rfl, rfl⟩
  | cons first rest ih =>
    obtain ⟨addr, size⟩ := first
    cases spawned : d.spawn payload addr size rest with
    | none => exact .inl (reach.step (.added none) trivial (by simp only [Getting.step, left, spawned]))
    | some d' =>
      have next : Reach m registered buffers bytes ⟨.downloading payload revision d', memory⟩ :=
        reach.step (.added none) trivial (by simp only [Getting.step, left, spawned])
      have after := planned.spawn positive left spawned
      obtain ⟨tasks, _, rfl⟩ := map_eq_some_iff.mp spawned
      have rest := ih after next rfl
      exact rest

/-! ### All goroutines in turn -/

def sweep (bytes : Memory) (d : Download) (memory : Memory) (attempts : Nat → Nat → Attempt) :
    Nat → (Nat → Option Err) × Memory
  | 0 => (d.err, memory)
  | n + 1 =>
    match d.tasks[n]? with
    | none => sweep bytes d memory attempts n
    | some task =>
      let before := sweep bytes d memory attempts n
      let (err, after) := performTransfer (fun _ => bytes) task.source task.shard 0 (attempts n) before.2
      (Function.update before.1 task.buffer err, after)

def storedUpTo (d : Download) (n : Nat) (err : Nat → Option Err) : Download :=
  { d with phase := fun k => if k < n then .stored else .running, err := err }

theorem Reach.transfer (attempts : Nat → Nat → Attempt) (fresh : d.phase = fun _ => .running)
    (reach : Reach m registered buffers bytes ⟨.downloading payload revision d, memory⟩) {n : Nat}
    (upTo : n ≤ d.tasks.length) :
    Reach m registered buffers bytes ⟨.downloading payload revision
      (storedUpTo d n (sweep bytes d memory attempts n).1), (sweep bytes d memory attempts n).2⟩ := by
  induction n with
  | zero =>
    have same : storedUpTo d 0 (sweep bytes d memory attempts 0).1 = d := by
      unfold storedUpTo
      simp only [Nat.not_lt_zero, if_false, ← fresh]
      rfl
    rw [same]
    exact reach
  | succ n ih =>
    have before := ih (by omega)
    have at_ : d.tasks[n]? = some d.tasks[n] := List.getElem?_eq_getElem upTo
    refine before.step (.transferred n 0 (attempts n)) trivial ?_
    have here : (storedUpTo d n (sweep bytes d memory attempts n).1).tasks[n]? = some d.tasks[n] := at_
    have running : (storedUpTo d n (sweep bytes d memory attempts n).1).phase n = .running := if_neg (Nat.lt_irrefl n)
    have phases : update (storedUpTo d n (sweep bytes d memory attempts n).1).phase n .stored =
        fun k => if k < n + 1 then .stored else .running := by
      funext k
      by_cases same : k = n
      · subst same
        simp
      · rw [update_of_ne same]
        exact if_congr (by omega) rfl rfl
    simp only [Getting.step, transferred_eq _ _ _ _ here running, map_some, phases, sweep, at_]
    rfl

theorem Reach.check {err : Nat → Option Err} (silent : d.errChan = none) (fine : ∀ i, err i = none)
    (reach : Reach m registered buffers bytes ⟨.downloading payload revision (storedUpTo d d.tasks.length err), memory⟩) :
    ∃ d', Reach m registered buffers bytes ⟨.downloading payload revision d', memory⟩ ∧ d'.rest = d.rest ∧
      d'.tasks = d.tasks ∧
      d'.errChan = none ∧ ∀ k < d.tasks.length, d'.phase k = .done := by
  have up : ∀ n ≤ d.tasks.length, ∃ d', Reach m registered buffers bytes ⟨.downloading payload revision d', memory⟩ ∧
      d'.rest = d.rest ∧ d'.tasks = d.tasks ∧ d'.errChan = none ∧ d'.err = err ∧
      (∀ k < n, d'.phase k = .done) ∧ ∀ k < d.tasks.length, n ≤ k → d'.phase k = .stored := by
    intro n
    induction n with
    | zero =>
      exact fun _ => ⟨_, reach, rfl, rfl, silent, rfl, fun _ none => absurd none (Nat.not_lt_zero _),
        fun k less _ => if_pos less⟩
    | succ n ih =>
      intro upTo
      obtain ⟨d', before, rest, tasks, chan, errs, done, stored⟩ := ih (by omega)
      have at_ : d'.tasks[n]? = some (d.tasks.get ⟨n, upTo⟩) := by
        rw [tasks]
        exact List.getElem?_eq_getElem upTo
      refine ⟨{ d' with phase := update d'.phase n .done, errChan := none },
        before.step (.checked n) trivial ?_, ?_⟩
      · simp only [Getting.step, checked, at_, stored n upTo (Nat.le_refl n), map_some, chan, errs, fine]
      · refine ⟨rest, tasks, rfl, errs, fun k less => ?_, fun k less past => ?_⟩
        · by_cases same : k = n
          · subst same
            exact update_self _ _ _
          · exact (update_of_ne same _ _).trans (done k (by omega))
        · exact (update_of_ne (by omega) _ _).trans (stored k less (by omega))
  obtain ⟨d', at_, rest, tasks, chan, _, done, _⟩ := up d.tasks.length (Nat.le_refl _)
  exact ⟨d', at_, rest, tasks, chan, done⟩

end Reach

/-! ## What a destination needs -/

section Needed
variable {m k : Nat} {sizes : List Nat} {buffers : List (Nat × Nat)} {bytes : Memory} {g : Getting}
  {d : Download} {task : Task}

/-- A payload of these sizes, as another node has registered it. -/
def sample (m : Nat) (sizes : List Nat) : Payload := .register "gold" "payload" m (layout 0 sizes)

theorem describes_sample (m : Nat) (sizes : List Nat) : Describes (sample m sizes) m sizes := by
  have describes := describes_register "gold" "payload" m (layout 0 sizes)
  rwa [map_snd_layout] at describes

theorem honest_sample (revision : Nat) :
    Honest (fun _ => bytes) m (layout 0 sizes) bytes (.got (.ok (some (sample m sizes, revision)))) :=
  ⟨describes_register _ _ _ _, serves_register bytes _ _ _ _⟩

theorem GetReplicaCopies.reached (copies : GetReplicaCopies m sizes buffers)
    (reach : Reach m (layout 0 sizes) buffers bytes g) :
    (∀ a, ¬ Within buffers a → g.memory a = 0) ∧ g.phase.outcome ≠ some .indexOutOfRange ∧
      (buffers.map Prod.snd = sizes → g.phase.outcome = some (.returned none) →
        Copied g.memory bytes buffers (layout 0 sizes)) := by
  obtain ⟨inputs, honest, run⟩ := reach
  exact copies _ bytes _ _ _ _ inputs g (registrable_layout 0 sizes) (map_snd_layout 0 sizes) honest run

/-- All goroutines of a download have been started and none has done anything. -/
structure Launched (m : Nat) (sizes : List Nat) (buffers : List (Nat × Nat)) (bytes : Memory) (d : Download) :
    Prop where
  reach : Reach m (layout 0 sizes) buffers bytes ⟨.downloading (sample m sizes) 0 d, fun _ => 0⟩
  planned : d.Planned (sample m sizes) buffers
  none_left : d.rest = []
  fresh : d.phase = fun _ => .running
  errs : d.err = fun _ => none
  silent : d.errChan = none

theorem GetReplicaCopies.launches (copies : GetReplicaCopies m sizes buffers) (positive : 0 < m) (some : buffers ≠ [])
    (bytes : Memory) : ∃ d, Launched m sizes buffers bytes d := by
  have nonempty : ¬ buffers.length = 0 := fun zero => some (eq_nil_of_length_eq_zero zero)
  have begun : Reach m (layout 0 sizes) buffers bytes ⟨.reading, fun _ => 0⟩ :=
    ⟨[], fun _ none => (nomatch none), by simp [Run.run, beginGet, GetPhase.start, nonempty]⟩
  have started : Reach m (layout 0 sizes) buffers bytes ⟨.downloading (sample m sizes) 0 (.start buffers), fun _ => 0⟩ :=
    begun.step _ (honest_sample 0) rfl
  rcases started.add positive (.start _ buffers) with out | ⟨d, reach, planned, none_left, fresh, errs, silent⟩
  · exact absurd rfl (copies.reached out).2.1
  · exact ⟨d, reach, planned, none_left, fresh, errs, silent⟩

section
variable (launched : Launched m sizes buffers bytes d)
include launched

theorem Launched.task_of_target (target : target buffers m k = some buffer) :
    ∃ task, d.tasks[k]? = some task := by
  have past := launched.planned.past_all launched.none_left (mem_of_find?_eq_some target)
  have inside : k < d.tasks.length :=
    Nat.lt_of_mul_lt_mul_right (Nat.lt_of_lt_of_le (lt_of_target target) past)
  exact ⟨d.tasks.get ⟨k, inside⟩, List.getElem?_eq_getElem inside⟩

theorem Launched.updates (attempts : Nat → Nat → Attempt)
    (fine : ∀ i, (sweep bytes d (fun _ => 0) attempts d.tasks.length).1 i = none) :
    Reach m (layout 0 sizes) buffers bytes
      ⟨.update "replica" buffers (sample m sizes) 0, (sweep bytes d (fun _ => 0) attempts d.tasks.length).2⟩ := by
  obtain ⟨d', checked, rest, tasks, chan, done⟩ :=
    (launched.reach.transfer attempts launched.fresh (Nat.le_refl _)).check launched.silent fine
  have waited : d'.waited = true := by
    rw [waited, rest, launched.none_left, tasks]
    simpa using done
  have rechecking : Reach m (layout 0 sizes) buffers bytes
      ⟨.rechecking (sample m sizes) 0, (sweep bytes d (fun _ => 0) attempts d.tasks.length).2⟩ :=
    checked.step .waited trivial (by simp only [step, waited, if_pos, chan])
  exact rechecking.step _ (honest_sample 0) (by simp only [step, true_or, if_pos])

theorem Launched.writes (positive : 0 < m) (at_ : d.tasks[k]? = some task) :
    ∃ buffer ∈ layout 0 sizes, ∃ offset < buffer.2,
      task.shard = ⟨min m (buffer.2 - offset), [⟨"gold", buffer.1 + offset⟩], []⟩ ∧
      ∀ memory, performTransfer (fun _ => bytes) task.source task.shard 0 (fun _ => .completed) memory =
        (none, Extent.write memory task.source (Extent.read bytes (buffer.1 + offset) task.shard.length)) := by
  obtain ⟨buffer, member, offset, below, place⟩ := shard_registered positive (launched.planned.tasks k task at_).1
  rw [place]
  exact ⟨buffer, member, offset, below, rfl, fun _ => performTransfer_completed ⟨"gold", buffer.1 + offset⟩ rfl⟩

theorem Launched.completed (positive : 0 < m) (memory : Memory) (n i : Nat) :
    (sweep bytes d memory (fun _ _ => .completed) n).1 i = none := by
  induction n with
  | zero => rw [sweep, launched.errs]
  | succ n ih =>
    unfold sweep
    cases at_ : d.tasks[n]? with
    | none => exact ih
    | some task =>
      obtain ⟨_, _, _, _, _, result⟩ := launched.writes positive at_
      simp only [result]
      rw [update_apply, ih, ite_self]

/-- With the sizes of the payload, a call in which no error is left returns without one. -/
theorem Launched.copied (copies : GetReplicaCopies m sizes buffers) (same : buffers.map Prod.snd = sizes)
    (attempts : Nat → Nat → Attempt) (fine : ∀ i, (sweep bytes d (fun _ => 0) attempts d.tasks.length).1 i = none) :
    Copied (sweep bytes d (fun _ => 0) attempts d.tasks.length).2 bytes buffers (layout 0 sizes) := by
  have updating := launched.updates attempts fine
  obtain ⟨payload, eq⟩ := update_eq "replica" (describes_sample m sizes) (Nat.le_of_eq (by rw [same])) 0
  rw [eq] at updating
  exact (copies.reached (updating.step (.updated (.ok true)) trivial rfl)).2.2 same rfl

end

theorem write_read {memory bytes : Memory} {source address length a : Nat} :
    Extent.write memory source (Extent.read bytes address length) a =
      if source ≤ a ∧ a < source + length then bytes (address + (a - source)) else memory a := by
  unfold Extent.write Extent.read
  by_cases below : source ≤ a
  · rw [if_pos below, List.getElem?_map]
    by_cases inside : a < source + length
    · rw [if_pos ⟨below, inside⟩, List.getElem?_range (by omega)]
      rfl
    · rw [if_neg (fun both => inside both.2), List.getElem?_eq_none (by simp; omega)]
      rfl
  · rw [if_neg below, if_neg (fun both => below both.1)]

theorem GetReplicaCopies.inside (copies : GetReplicaCopies m sizes buffers) (positive : 0 < m) {k length : Nat}
    (at_ : (shardLengths m sizes)[k]? = some length) (target : target buffers m k = some buffer) {b : Nat}
    (below : b < length) : Within buffers (buffer.1 + k * m + b) := by
  have some : buffers ≠ [] := fun empty => by
    rw [empty] at target
    cases target
  obtain ⟨d, launched⟩ := copies.launches positive some (fun _ => 1)
  obtain ⟨task, at_'⟩ := launched.task_of_target target
  obtain ⟨shard, buffer', target', _, source⟩ := launched.planned.tasks k task at_'
  cases target'.symm.trans target
  have same : task.shard.length = length := Option.some.inj (((describes_sample m sizes).length_at shard).symm.trans at_)
  obtain ⟨_, _, _, _, _, result⟩ := launched.writes positive at_'
  have moved := launched.reach.step (.transferred k 0 (fun _ => .completed)) trivial (by
    simp only [step, transferred_eq _ _ _ _ at_' (congrFun launched.fresh k), map_some]; rfl)
  by_contra outside
  have kept := (copies.reached moved).1 _ outside
  have value : (1 : UInt8) = 0 := by
    have address : buffer.1 + k * m = task.source := source.symm
    simp only [result, write_read, address] at kept
    rwa [if_pos (by omega)] at kept
  cases value

theorem GetReplicaCopies.enough (copies : GetReplicaCopies m sizes buffers) (positive : 0 < m) :
    (shardLengths m (buffers.map Prod.snd)).length ≤ (shardLengths m sizes).length := by
  by_contra more
  have some : buffers ≠ [] := fun empty => by
    rw [empty] at more
    exact more (Nat.zero_le _)
  obtain ⟨d, launched⟩ := copies.launches positive some (fun _ => 1)
  refine (copies.reached (launched.updates (fun _ _ => .completed) (launched.completed positive _ _))).2.1 ?_
  have short : (sample m sizes).shards.length < (Payload.replicaLocations "replica"
    (sample m sizes).maxShardSize buffers).length := by
    rw [(describes_sample m sizes).length_shards, length_replicaLocations]
    exact Nat.lt_of_not_le more
  simp only [GetPhase.update, Payload.appendReplicas, appendLocations_eq_none short]
  rfl

theorem read_head {memory bytes : Memory} {a b size : Nat} (some : 0 < size)
    (same : Extent.read memory a size = Extent.read bytes b size) : memory a = bytes b := by
  obtain ⟨n, more⟩ := Nat.exists_eq_add_one_of_ne_zero (Nat.ne_of_gt some)
  have first := congrArg head? same
  rw [more] at first
  simpa [Extent.read, range_succ_eq_map] using first

/-- Only the first byte of the second buffer is a one. It never gets to the start of the second buffer of the
destination. -/
theorem GetReplicaCopies.not_two {s₀ s₁ : Nat} {rest : List Nat}
    (copies : GetReplicaCopies m (s₀ :: s₁ :: rest) buffers) (positive : 0 < m)
    (some : ∀ size ∈ s₀ :: s₁ :: rest, 0 < size) (disjoint : buffers.Pairwise Extent.Apart)
    (same : buffers.map Prod.snd = s₀ :: s₁ :: rest) : False := by
  have first : 0 < s₀ := some s₀ (by simp)
  have second : 0 < s₁ := some s₁ (by simp)
  let bytes : Memory := fun a => if a = s₀ then 1 else 0
  obtain ⟨b₀, tail, two, _, rest'⟩ := map_eq_cons_iff.mp same
  obtain ⟨b₁, tail', rfl, size, _⟩ := map_eq_cons_iff.mp rest'
  obtain ⟨d, launched⟩ := copies.launches positive (two ▸ cons_ne_nil _ _) bytes
  -- wherever a one has been written, a shard other than the first one starts
  have ones : ∀ n a, (sweep bytes d (fun _ => 0) (fun _ _ => .completed) n).2 a ≠ 0 →
      ∃ k task, d.tasks[k]? = Option.some task ∧ k ≠ 0 ∧ a = task.source := by
    intro n
    induction n with
    | zero => exact fun a one => absurd rfl one
    | succ n ih =>
      intro a one
      unfold sweep at one
      cases at_ : d.tasks[n]? with
      | none =>
        simp only [at_] at one
        exact ih a one
      | some task =>
        obtain ⟨shard, _⟩ := launched.planned.tasks n task at_
        obtain ⟨buffer, member, offset, below, place, result⟩ := launched.writes positive at_
        simp only [at_, result, write_read] at one
        split at one
        next inside =>
          have hit : buffer.1 + offset + (a - task.source) = s₀ := by
            by_contra other
            exact one (if_neg other)
          have length : task.shard.length ≤ buffer.2 - offset := by rw [place]; exact Nat.min_le_right _ _
          have here : buffer = (s₀, s₁) := by
            rcases mem_cons.mp member with rfl | later
            · simp only at hit length
              omega
            · rcases mem_cons.mp later with rfl | last
              · rw [Nat.zero_add]
              · have past := le_of_mem_layout last
                omega
          rw [here] at hit
          simp only at hit
          refine ⟨n, task, at_, fun zero => ?_, by omega⟩
          have head : (sample m (s₀ :: s₁ :: rest)).shards[0]? = Option.some ⟨min m (s₀ - 0), [⟨"gold", 0 + 0⟩], []⟩ := by
            simp [sample, Payload.register, layout, Payload.bufferShards, Strides.strides_of_lt positive first]
          rw [zero, head, place, here] at shard
          simp only [Option.some.injEq, Shard.mk.injEq, cons.injEq, Location.mk.injEq] at shard
          omega
        · exact ih a one
  have copied := launched.copied copies same (fun _ _ => .completed) (launched.completed positive _ _)
  have at₁ : buffers[1]? = Option.some b₁ := by rw [two]; rfl
  have bytes_ := copied 1 b₁ (0 + s₀, s₁) at₁ rfl
  rw [size] at bytes_
  have one := read_head second bytes_
  have value : bytes (0 + s₀) = 1 := if_pos (Nat.zero_add _)
  obtain ⟨k, task, at_, later, start⟩ := ones d.tasks.length b₁.1 (by rw [one, value]; decide)
  obtain ⟨_, buffer, target, place, source⟩ := launched.planned.tasks k task at_
  have longer : k * m < buffer.2 := lt_of_target target
  have step : 0 < k * m := Nat.mul_pos (Nat.pos_of_ne_zero later) positive
  have address : b₁.1 = buffer.1 + k * m := start.trans source
  have symm : Std.Symm Extent.Apart := ⟨fun _ _ => Or.symm⟩
  have apart := disjoint.forall (mem_of_getElem? place) (mem_of_getElem? at₁) (by rintro rfl; omega)
  simp only [Extent.Apart] at apart
  omega

def firstFails (k : Nat) : Nat → Attempt := if k = 0 then fun _ => .unallocated else fun _ => .completed

/-- A buffer of several shards: the error of the first is lost, and the first byte is not written. -/
theorem GetReplicaCopies.not_long {size : Nat} (copies : GetReplicaCopies m [size] buffers) (positive : 0 < m)
    (same : buffers.map Prod.snd = [size]) : size ≤ m := by
  by_contra long
  obtain ⟨⟨addr, _⟩, one, ⟨⟩⟩ := map_eq_singleton_iff.mp same
  obtain ⟨d, launched⟩ := copies.launches positive (by rw [one]; exact cons_ne_nil _ _) (fun _ => 1)
  have several : 2 ≤ d.tasks.length := by
    have past := launched.planned.past_all launched.none_left (one ▸ mem_singleton.mpr rfl)
    have more : 1 * m < d.tasks.length * m := by
      rw [Nat.one_mul]
      exact Nat.lt_of_lt_of_le (Nat.lt_of_not_le long) past
    exact Nat.lt_of_mul_lt_mul_right more
  have place : ∀ k task, d.tasks[k]? = some task → task.buffer = 0 ∧ task.source = addr + k * m := by
    intro k task at_
    obtain ⟨_, buffer, _, index, source⟩ := launched.planned.tasks k task at_
    rw [one] at index
    obtain ⟨zero, rfl⟩ := getElem?_single index
    exact ⟨zero, source⟩
  have results : ∀ n ≤ d.tasks.length, (sweep (fun _ => 1) d (fun _ => 0) firstFails n).2 addr = 0 ∧
      ∀ i, i ≠ 0 ∨ 2 ≤ n → (sweep (fun _ => 1) d (fun _ => 0) firstFails n).1 i = none := by
    intro n upTo
    induction n with
    | zero => exact ⟨rfl, fun i _ => by rw [sweep, launched.errs]⟩
    | succ n ih =>
      obtain ⟨unwritten, clear⟩ := ih (by omega)
      have at_ : d.tasks[n]? = some d.tasks[n] := List.getElem?_eq_getElem upTo
      obtain ⟨zero, source⟩ := place n _ at_
      simp only [sweep, at_, zero]
      by_cases initial : n = 0
      · subst initial
        simp only [firstFails, if_pos, performTransfer_unallocated]
        exact ⟨unwritten, fun i other => (update_of_ne (by omega) _ _).trans (clear i (by omega))⟩
      · obtain ⟨_, _, _, _, _, result⟩ := launched.writes positive at_
        have ahead : 0 < n * m := Nat.mul_pos (Nat.pos_of_ne_zero initial) positive
        simp only [firstFails, if_neg initial, result, write_read]
        refine ⟨(if_neg (by omega)).trans unwritten, fun i _ => ?_⟩
        rw [update_apply, ite_eq_left_iff]
        exact fun own => clear i (.inl own)
  obtain ⟨unwritten, clear⟩ := results _ (Nat.le_refl _)
  have copied := launched.copied copies same firstFails fun i => clear i (.inr several)
  have first := read_head (by omega) (copied 0 (addr, _) (0, _) (by rw [one]; rfl) rfl)
  rw [unwritten] at first
  cases first

end Needed

/-- `GetReplica` does what it should for exactly the destinations that are suited. -/
theorem getReplica_copies_iff {m : Nat} {sizes : List Nat} {buffers : List (Nat × Nat)} (divides : m ∣ maxChunkSize)
    (registered : sizes ≠ []) (some : ∀ size ∈ sizes, 1 ≤ size) (disjoint : buffers.Pairwise Extent.Apart) :
    GetReplicaCopies m sizes buffers ↔ Suited m sizes buffers := by
  have positive : 0 < m := Nat.pos_of_dvd_of_pos divides (by decide)
  refine ⟨fun copies => ⟨copies.enough positive, fun k length buffer at_ target b below =>
    copies.inside positive at_ target below, fun same => ?_⟩, copies_of_suited positive some⟩
  match sizes, registered with
  | [size], _ => exact ⟨size, copies.not_long positive same, rfl⟩
  | s₀ :: s₁ :: rest, _ => exact (copies.not_two positive some disjoint same).elim

theorem one_shard_copied : GetReplicaCopies 4 [3] [(100, 3)] := by
  refine (getReplica_copies_iff (by decide) (by decide) (by decide) (pairwise_singleton _ _)).mpr
    ⟨by decide, fun k length buffer at_ target b below => ?_, fun _ => ⟨3, by decide, rfl⟩⟩
  have lengths : shardLengths 4 [3] = [3] := by decide
  rw [lengths] at at_
  have zero : k = 0 := by simpa using (List.getElem?_eq_some_iff.mp at_).1
  subst zero
  cases at_
  cases show some (100, 3) = _ from target
  exact ⟨(100, 3), mem_singleton.mpr rfl, by simp only; omega⟩

/-- Two buffers of one shard each: the second is never read. And a buffer of two shards, of which the first
cannot be read. -/
theorem getReplica_copies_too_little :
    (∃ g, Run.run (Getting.step (fun _ _ => 1) "replica" [(100, 4), (200, 4)])
        (beginGet [(100, 4), (200, 4)] false (fun _ => 0))
        [.got (.ok (some (.register "gold" "payload" 4 [(0, 4), (8, 4)], 7))), .added none, .added none,
          .transferred 0 0 (fun _ => .completed), .checked 0, .waited,
          .got (.ok (some (.register "gold" "payload" 4 [(0, 4), (8, 4)], 7))), .updated (.ok true)] = some g ∧
      g.phase.outcome = some (.returned none) ∧ g.memory 100 = 1 ∧ g.memory 200 = 0) ∧
    ∃ g, Run.run (Getting.step (fun _ _ => 1) "replica" [(100, 8)]) (beginGet [(100, 8)] false (fun _ => 0))
        [.got (.ok (some (.register "gold" "payload" 4 [(0, 8)], 7))), .added none,
          .transferred 0 0 (fun _ => .unallocated),
          .transferred 1 0 (fun _ => .completed), .checked 0, .checked 1, .waited,
          .got (.ok (some (.register "gold" "payload" 4 [(0, 8)], 7))), .updated (.ok true)] = some g ∧
      g.phase.outcome = some (.returned none) ∧ g.memory 100 = 0 ∧ g.memory 104 = 1 :=
  ⟨⟨_, rfl, rfl, rfl, rfl⟩, ⟨_, rfl, rfl, rfl, rfl⟩⟩

end Mooncake.P2PStore
