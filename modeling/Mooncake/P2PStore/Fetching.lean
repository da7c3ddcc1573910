import Mooncake.P2PStore.Updates

/-! The phases of a `GetReplica` of one buffer: when the goroutines are done, the buffer holds the version that
was read. -/
namespace Mooncake.P2PStore

open Function Option List Getting

variable {etcd : Etcd} {i : String} {version : Version} {payload : Payload} {a n m k : Nat}
  {memory memory' : Memory} {d d' : Download}
  {task : Task}

theorem length_of_shardLengths_single {length : Nat} (positive : 0 < m)
    (at_ : (shardLengths m [n])[k]? = some length) : k * m < n ∧ length = min m (n - k * m) := by
  simp only [shardLengths, flatMap_cons, flatMap_nil, append_nil, Strides.tiles, getElem?_map] at at_
  obtain ⟨t, there, rfl⟩ := map_eq_some_iff.mp at_
  obtain ⟨offset, found, rfl⟩ := map_eq_some_iff.mp there
  obtain ⟨value, below⟩ := Strides.getElem?_strides positive found
  rw [Nat.zero_add] at value
  subst value
  exact ⟨below, rfl⟩

theorem Knows.content_length {content : List UInt8} (knows : Knows etcd version m n)
    (at_ : version.contents[k]? = some content) : k * m < n ∧ content.length = min m (n - k * m) :=
  length_of_shardLengths_single knows.positive (by rw [← knows.lengths, getElem?_map, at_]; rfl)

theorem Knows.of_stored {s : Stored} (fine : etcd.Fine) (stored : etcd.stored = some s)
    (size : s.payload.sizeList = [n]) : Knows etcd s.version s.payload.maxShardSize n := by
  obtain ⟨_, number, shaped⟩ := fine s stored
  refine ⟨number, shaped.positive, size ▸ shaped.lengths, fun s' stored' _ => ?_⟩
  cases stored.symm.trans stored'
  exact ⟨rfl, rfl, size⟩

/-! ## The goroutines -/

namespace Copying

theorem start (memory : Memory) (version : Version) (payload : Payload) (a n : Nat) :
    Copying memory version payload a n (.start [(a, n)]) :=
  ⟨Download.Planned.start payload _, fun _ _ => rfl, fun _ _ _ none => (nomatch none),
    fun _ _ _ none => (nomatch none)⟩

section
variable (copying : Copying memory version payload a n d)
include copying

theorem task_place (describes : Describes payload m [n]) (at_ : d.tasks[k]? = some task) :
    payload.shards[k]? = some task.shard ∧ task.buffer = 0 ∧ task.source = a + k * m := by
  obtain ⟨shard, buffer, found, index, source⟩ := copying.planned.tasks k task at_
  have first : task.buffer = 0 := by
    have inside := (List.getElem?_eq_some_iff.mp index).1
    rw [length_singleton] at inside
    omega
  rw [first] at index
  cases index
  exact ⟨shard, first, describes.width ▸ source⟩

theorem task_length (describes : Describes payload m [n]) (positive : 0 < m)
    (at_ : d.tasks[k]? = some task) : k * m < n ∧ task.shard.length = min m (n - k * m) := by
  have shard := (copying.task_place describes at_).1
  refine length_of_shardLengths_single positive ?_
  rw [← describes.lengths, getElem?_map, shard]
  rfl

theorem first {addr size : Nat} {rest : List (Nat × Nat)}
    (next : d.rest = (addr, size) :: rest) : (addr, size) = (a, n) ∧ rest = [] ∧ d.tasks = [] := by
  have drop := copying.planned.rest.symm.trans next
  cases number : d.buffer with
  | zero =>
    rw [number] at drop
    cases drop
    have bound := copying.planned.bounded
    rw [number] at bound
    exact ⟨rfl, rfl, eq_nil_of_length_eq_zero (copying.planned.count.trans (Nat.le_zero.mp bound))⟩
  | succ b =>
    rw [number, drop_succ_cons, drop_nil] at drop
    cases drop

theorem spawn (positive : 0 < payload.maxShardSize) {addr size : Nat} {rest : List (Nat × Nat)}
    (next : d.rest = (addr, size) :: rest) (spawned : d.spawn payload addr size rest = some d') :
    Copying memory version payload a n d' := by
  have planned := copying.planned.spawn positive next spawned
  have none := (copying.first next).2.2
  obtain ⟨tasks, launched, rfl⟩ := map_eq_some_iff.mp spawned
  have running : ∀ k, d.phase k = .running := fun k => copying.idle k (none ▸ Nat.zero_le k)
  refine ⟨planned, fun k _ => running k, fun k _ _ _ _ stored => ?_, fun k _ _ _ _ done => ?_⟩
  · cases (running k).symm.trans stored
  · cases (running k).symm.trans done

theorem transferred {segments : Segments} {random : Nat} {attempts : Nat → Attempt}
    (knows : Knows etcd version m n) (describes : Describes payload m [n])
    (quiet : ∀ k < d.tasks.length, d.phase k ≠ .stored)
    (copies : ∀ task, d.tasks[k]? = some task →
      ∀ memory', performTransfer segments task.source task.shard random attempts memory = (none, memory') →
      ∀ content, version.contents[k]? = some content → Extent.read memory' task.source content.length = content)
    (step : d.transferred segments memory k random attempts = some (d', memory')) :
    Copying memory' version payload a n d' := by
  unfold Download.transferred at step
  split at step
  next task at_ running =>
    cases step
    have inside := (List.getElem?_eq_some_iff.mp at_).1
    have width := copying.task_length describes knows.positive at_
    have place := copying.task_place describes at_
    have kept : ∀ (j : Nat) (other : Task) (content : List UInt8), j ≠ k → d.tasks[j]? = some other →
        version.contents[j]? = some content →
        Extent.read (performTransfer segments task.source task.shard random attempts memory).2 other.source
          content.length =
          Extent.read memory other.source content.length := by
      intro j other content different there here
      have source := (copying.task_place describes there).2.2
      have length := (knows.content_length here).2
      refine Extent.read_congr fun x low high => performTransfer_outside random attempts ?_
      have apart : j * m + m ≤ k * m ∨ k * m + m ≤ j * m := by
        rw [← Nat.succ_mul, ← Nat.succ_mul]
        rcases Nat.lt_or_gt_of_ne different with before | after
        · exact .inl (Nat.mul_le_mul_right m before)
        · exact .inr (Nat.mul_le_mul_right m after)
      omega
    refine ⟨copying.planned.kept _ _ _, fun j beyond => ?_, fun j other content there here stored err => ?_,
      fun j other content there here done err => ?_⟩
    · have different : j ≠ k := fun same => absurd beyond (by rw [same]; exact Nat.not_le.mpr inside)
      exact (update_of_ne different _ _).trans (copying.idle j beyond)
    · by_cases same : j = k
      · subst same
        cases at_.symm.trans there
        have ok : (performTransfer segments task.source task.shard random attempts memory).1 = none :=
          (update_self task.buffer _ d.err).symm.trans err
        exact copies task at_ _ (Prod.ext ok rfl) content here
      · have before : d.phase j = .stored := (update_of_ne same _ _).symm.trans stored
        exact absurd before (quiet j (List.getElem?_eq_some_iff.mp there).1)
    · have different : j ≠ k := by
        rintro rfl
        cases (update_self j TaskPhase.stored d.phase).symm.trans done
      have before : d.phase j = .done := (update_of_ne different _ _).symm.trans done
      refine (kept j other content different there here).trans ?_
      exact copying.done j other content there here before err
  · cases step

theorem checked (step : d.checked k = some d') : Copying memory version payload a n d' := by
  unfold Download.checked at step
  split at step
  next task at_ stored =>
    cases step
    refine ⟨copying.planned.kept _ _ _, fun j beyond => ?_, fun j other content there here before err => ?_,
      fun j other content there here done clear => ?_⟩
    · have different : j ≠ k := fun same => absurd beyond (by
        rw [same]; exact Nat.not_le.mpr (List.getElem?_eq_some_iff.mp at_).1)
      exact (update_of_ne different _ _).trans (copying.idle j beyond)
    · have different : j ≠ k := by
        rintro rfl
        cases (update_self j TaskPhase.done d.phase).symm.trans before
      exact copying.stored j other content there here ((update_of_ne different _ _).symm.trans before) err
    · -- without an error in the channel there was none before, nor in the variable of this buffer
      have both : d.errChan = none ∧ d.err task.buffer = none := by
        dsimp only at clear
        cases channel : d.errChan with
        | none => rw [channel] at clear; exact ⟨rfl, clear⟩
        | some e => rw [channel] at clear; cases clear
      by_cases same : j = k
      · subst same
        cases at_.symm.trans there
        exact copying.stored j task content there here stored both.2
      · exact copying.done j other content there here ((update_of_ne same _ _).symm.trans done) both.1
  · cases step

end

theorem waited (copying : Copying memory version payload a n d) (knows : Knows etcd version m n)
    (describes : Describes payload m [n]) (waited : d.waited = true) (clear : d.errChan = none) :
    HasCopy memory version a n m := by
  obtain ⟨empty, finished⟩ := (Bool.and_eq_true _ _).mp waited
  have reached := copying.planned.past_all (isEmpty_iff.mp empty) (mem_singleton_self (a, n))
  rw [describes.width] at reached
  intro k t content tile here
  obtain ⟨offset, found, rfl⟩ := map_eq_some_iff.mp ((getElem?_map).symm.trans tile)
  obtain ⟨value, below⟩ := Strides.getElem?_strides knows.positive found
  rw [Nat.zero_add] at value
  subst value
  have inside : k < d.tasks.length := Nat.lt_of_mul_lt_mul_right (Nat.lt_of_lt_of_le below reached)
  have at_ := getElem?_eq_getElem inside
  have done : d.phase k = .done := by simpa using all_eq_true.mp finished k (mem_range.mpr inside)
  have copied := copying.done k _ content at_ here done clear
  rwa [(copying.task_place describes at_).2.2, (knows.content_length here).2] at copied

end Copying

/-! ## Writes outside the buffer -/

theorem Copying.congr (copying : Copying memory version payload a n d) (knows : Knows etcd version m n)
    (describes : Describes payload m [n]) (same : ∀ x, a ≤ x → x < a + n → memory' x = memory x) :
    Copying memory' version payload a n d := by
  have kept : ∀ (k : Nat) (task : Task) (content : List UInt8), d.tasks[k]? = some task →
    version.contents[k]? = some content →
      Extent.read memory' task.source content.length = Extent.read memory task.source content.length := by
    intro k task content there here
    have source := (copying.task_place describes there).2.2
    have length := knows.content_length here
    exact Extent.read_congr fun x low high => same x (by omega) (by omega)
  refine ⟨copying.planned, copying.idle, fun k task content there here stored err => ?_,
    fun k task content there here done err => ?_⟩
  · rw [kept k task content there here]
    exact copying.stored k task content there here stored err
  · rw [kept k task content there here]
    exact copying.done k task content there here done err

theorem HasCopy.congr (copy : HasCopy memory version a n m) (positive : 0 < m)
    (same : ∀ x, a ≤ x → x < a + n → memory' x = memory x) : HasCopy memory' version a n m := by
  intro k t content tile here
  have within := Strides.tile_within positive (mem_of_getElem? tile)
  rw [Extent.read_congr fun x low high => same x (by omega) (by omega)]
  exact copy k t content tile here

/-! ## The phases -/

variable {st : Store} {segments : Segments} {read : Option Version} {phase : GetPhase} {g : Getting}
  {revision : Nat}

def Arrives (etcd : Etcd) (i : String) (st : Store) (a n : Nat) (read : Option Version)
    (phase : GetPhase) : Prop :=
  (∃ outcome, phase = .finished outcome) ∨ GetOk etcd i st a n read phase

theorem getReply_some {answer : Answer} (got : Store.getReply etcd answer = .ok (some (payload, revision))) :
    ∃ s, etcd.stored = some s ∧ s.payload = payload ∧ s.revision = revision := by
  unfold Store.getReply at got
  split at got
  · obtain ⟨s, stored, same⟩ := map_eq_some_iff.mp (Except.ok.inj got)
    cases same
    exact ⟨s, stored, rfl, rfl⟩
  · cases got

theorem Current.of_stored {s : Stored} (fine : etcd.Fine) (stored : etcd.stored = some s) :
    Current etcd s.revision (· = s.payload) :=
  ⟨(fine s stored).1, fun s' stored' _ => by cases stored.symm.trans stored'; rfl⟩

theorem Arrives.update (knows : Knows etcd version m n) (current : Current etcd revision (· = payload))
    (copy : HasCopy st.memory version a n m) (registered : (a, n) ∈ st.session.memory.regions) :
    Arrives etcd i st a n (some version) (.update i [(a, n)] payload revision) := by
  unfold GetPhase.update
  split
  · exact .inl ⟨_, rfl⟩
  next payload' appended =>
    exact .inr ⟨version, m, rfl, knows, ⟨current.1, fun s stored same => current.2 s stored same ▸ appended⟩,
      copy, registered⟩

theorem GetOk.got {answer : Answer} (fine : etcd.Fine) (ok : GetOk etcd i st a n read phase)
    (orderly : phase.orderly etcd st.session [(a, n)] read (.etcd answer) = true)
    (stepped : step segments i [(a, n)] ⟨phase, st.memory⟩ (.got (Store.getReply etcd answer)) = some g) :
    Arrives etcd i { st with memory := g.memory } a n (Store.versionRead etcd phase read) g.phase := by
  cases phase with
  | reading =>
    simp only [step] at stepped
    split at stepped
    · cases stepped
      exact .inl ⟨_, rfl⟩
    · cases stepped
      exact .inl ⟨_, rfl⟩
    next payload revision reply =>
      cases stepped
      obtain ⟨s, stored, rfl, rfl⟩ := getReply_some reply
      have size : s.payload.sizeList = [n] := by simpa [GetPhase.orderly, stored] using orderly
      have shaped := (fine s stored).2.2
      refine .inr ⟨s.version, s.payload.maxShardSize, ?_, .of_stored fine stored size, ⟨rfl, size, ?_⟩,
        .of_stored fine stored, .start .., (nomatch ·)⟩
      · rw [Store.versionRead, stored]
        rfl
      · exact size ▸ shaped.describes.lengths
  | rechecking payload revision =>
    obtain ⟨v, m, rfl, knows, describes, current, copy, registered⟩ := ok
    simp only [step] at stepped
    split at stepped
    · cases stepped
      exact .inl ⟨_, rfl⟩
    · cases stepped
      exact .inl ⟨_, rfl⟩
    · split at stepped
      · cases stepped
        exact .update knows current copy registered
      · cases stepped
        exact .inr ⟨v, m, rfl, knows, describes, current, .start .., (nomatch ·)⟩
  | rereading =>
    obtain ⟨v, m, rfl, knows, copy, registered⟩ := ok
    simp only [step] at stepped
    split at stepped
    · cases stepped
      exact .inl ⟨_, rfl⟩
    · cases stepped
      exact .inl ⟨_, rfl⟩
    next payload' revision' reply =>
      cases stepped
      obtain ⟨s, stored, rfl, rfl⟩ := getReply_some reply
      exact .update knows (.of_stored fine stored) copy registered
  | downloading | updating | abandoned | finished => cases stepped

theorem GetOk.not_updated {reply : Except Err Bool} (ok : GetOk etcd i st a n read (.updating payload revision))
    (stepped : step segments i [(a, n)] ⟨.updating payload revision, st.memory⟩ (.updated reply) = some g) :
    Arrives etcd i { st with memory := g.memory } a n read g.phase := by
  obtain ⟨v, m, rfl, knows, _, copy, registered⟩ := ok
  simp only [step] at stepped
  split at stepped
  · cases stepped
    exact .inl ⟨_, rfl⟩
  · cases stepped
    exact .inl ⟨_, rfl⟩
  · cases stepped
    exact .inr ⟨v, m, rfl, knows, copy, registered⟩

theorem GetOk.added {err : Option Err} {session : Session}
    (ok : GetOk etcd i st a n read (.downloading payload revision d))
    (registered : err = none → (a, n) ∈ session.memory.regions)
    (stepped : step segments i [(a, n)] ⟨.downloading payload revision d, st.memory⟩ (.added err) = some g) :
    Arrives etcd i { st with session := session, memory := g.memory } a n read g.phase := by
  obtain ⟨v, m, rfl, knows, describes, current, copying, _⟩ := ok
  simp only [step] at stepped
  split at stepped
  · cases stepped
  next next_ =>
    cases stepped
    exact .inr (copying.first next_).2.2
  next addr size rest next_ =>
    split at stepped
    · cases stepped
      exact .inl ⟨_, rfl⟩
    next d' spawned =>
      cases stepped
      have positive : 0 < payload.maxShardSize := describes.width ▸ knows.positive
      exact .inr ⟨v, m, rfl, knows, describes, current, copying.spawn positive next_ spawned,
        fun _ => registered rfl⟩

variable (ok : GetOk etcd i st a n read phase)
include ok

theorem GetOk.transferred {random : Nat} {attempts : Nat → Attempt}
    (orderly : phase.orderly etcd st.session [(a, n)] read (.transfer k random attempts) = true)
    (serves : ∀ v m location content, read = some v → Knows etcd v m n → etcd.lists read k location = true →
      v.contents[k]? = some content →
      Extent.read (segments location.segmentName) location.offset content.length = content)
    (stepped : step segments i [(a, n)] ⟨phase, st.memory⟩ (.transferred k random attempts) = some g) :
    Arrives etcd i { st with memory := g.memory } a n read g.phase := by
  cases phase with
  | downloading payload revision d =>
    obtain ⟨v, m, rfl, knows, describes, current, copying, registered⟩ := ok
    simp only [step] at stepped
    obtain ⟨⟨d', memory'⟩, moved, rfl⟩ := map_eq_some_iff.mp stepped
    obtain ⟨quiet, places⟩ := (Bool.and_eq_true _ _).mp orderly
    refine .inr ⟨v, m, rfl, knows, describes, current, copying.transferred knows describes (fun k inside => ?_)
      (fun task at_ memory' result content here => ?_) moved, ?_⟩
    · simpa using all_eq_true.mp quiet k (mem_range.mpr inside)
    · obtain ⟨r, location, round, completed, found, copied⟩ := performTransfer_ok result
      have listed : etcd.lists (some v) k location = true := by
        simp only [at_, all_some] at places
        have one := all_eq_true.mp places r (mem_range.mpr round)
        simpa [completed, found, Attempt.isCompleted] using one
      have length : content.length = task.shard.length := by
        rw [(knows.content_length here).2, (copying.task_length describes knows.positive at_).2]
      have source := serves v m location content rfl knows listed here
      rw [length] at source ⊢
      rw [copied, source]
    · have same : d'.rest = d.rest := by
        unfold Download.transferred at moved
        split at moved
        · cases moved
          rfl
        · cases moved
      exact fun empty => registered (same ▸ empty)
  | abandoned e d =>
    have none : d.tasks = [] := ok
    simp only [step, Download.transferred, none, getElem?_nil, map_none] at stepped
    cases stepped
  | reading | rechecking | updating | rereading | finished => cases stepped

theorem GetOk.checked (stepped : step segments i [(a, n)] ⟨phase, st.memory⟩ (.checked k) = some g) :
    Arrives etcd i { st with memory := g.memory } a n read g.phase := by
  cases phase with
  | downloading payload revision d =>
    obtain ⟨v, m, rfl, knows, describes, current, copying, registered⟩ := ok
    simp only [step] at stepped
    obtain ⟨d', moved, rfl⟩ := map_eq_some_iff.mp stepped
    refine .inr ⟨v, m, rfl, knows, describes, current, copying.checked moved, ?_⟩
    have same : d'.rest = d.rest := by
      unfold Download.checked at moved
      split at moved
      · cases moved
        rfl
      · cases moved
    exact fun empty => registered (same ▸ empty)
  | abandoned e d =>
    have none : d.tasks = [] := ok
    simp only [step, Download.checked, none, getElem?_nil, map_none] at stepped
    cases stepped
  | reading | rechecking | updating | rereading | finished => cases stepped

theorem GetOk.waited (stepped : step segments i [(a, n)] ⟨phase, st.memory⟩ .waited = some g) :
    Arrives etcd i { st with memory := g.memory } a n read g.phase := by
  cases phase with
  | downloading payload revision d =>
    obtain ⟨v, m, rfl, knows, describes, current, copying, registered⟩ := ok
    simp only [step] at stepped
    split at stepped
    next waited =>
      split at stepped
      · cases stepped
        exact .inl ⟨_, rfl⟩
      next clear =>
        cases stepped
        have rest : d.rest = [] := isEmpty_iff.mp ((Bool.and_eq_true _ _).mp waited).1
        exact .inr ⟨v, m, rfl, knows, describes, current, copying.waited knows describes waited clear,
          registered rest⟩
    · cases stepped
  | reading | rechecking | updating | rereading | abandoned | finished => cases stepped

theorem GetOk.write {memory : Memory}
    (same : (∃ e d, phase = .abandoned e d) ∨ ∀ x, a ≤ x → x < a + n → memory x = st.memory x) :
    GetOk etcd i { st with memory := memory } a n read phase := by
  rcases same with ⟨e, d, rfl⟩ | same
  · exact ok
  cases phase with
  | downloading payload revision d =>
    obtain ⟨v, m, rfl, knows, describes, current, copying, registered⟩ := ok
    exact ⟨v, m, rfl, knows, describes, current, copying.congr knows describes same, registered⟩
  | rechecking payload revision =>
    obtain ⟨v, m, rfl, knows, describes, current, copy, registered⟩ := ok
    exact ⟨v, m, rfl, knows, describes, current, copy.congr knows.positive same, registered⟩
  | updating payload revision =>
    obtain ⟨v, m, rfl, knows, current, copy, registered⟩ := ok
    exact ⟨v, m, rfl, knows, current, copy.congr knows.positive same, registered⟩
  | rereading =>
    obtain ⟨v, m, rfl, knows, copy, registered⟩ := ok
    exact ⟨v, m, rfl, knows, copy.congr knows.positive same, registered⟩
  | reading | abandoned | finished => exact ok

end Mooncake.P2PStore
