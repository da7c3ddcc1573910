import Mooncake.Master.OffsetBuffer
import Mooncake.Master.Puts

/-! What `PutStart` leaves behind when it returns a replica list. -/
namespace Mooncake.Master

open Option World
variable {A H : Type} [BufferAllocatorBase A H] {p : Params} {w w' : World A H}

def World.Registered (p : Params) (w : World A H) (key : String) (list : List ReplicaDescriptor) : Prop :=
  ∃ m, w.entry (p.getShardIndex key) key = some m ∧
    m.replicas.map (fun r => r.getDescriptor w.isValid w.heap) = list ∧ ∀ b ∈ m.buffers, b.object ∈ w.heap.live

variable {list : List ReplicaDescriptor} {i : Fin kNumShards} {task : PutTask H} {replicas : List (Replica H)}
    {m : ObjectMetadata H} {choice : List Nat}

omit [BufferAllocatorBase A H] in
theorem entry_live (x : Ledger w) {key : String} (found : w.entry i key = some m) :
    ∀ b ∈ m.buffers, b.object ∈ w.heap.live := by
  intro b member
  have inside : m.bag ≤ w.bag := by
    refine le_trans ?_ (cell_le_bag w i)
    rw [cell, Table.total_erase _ found, add_assoc]
    exact le_self_add
  have owned : b.object ∈ ids w.bag :=
    Multiset.mem_map_of_mem _ (Multiset.mem_of_le inside (Multiset.mem_coe.mpr member))
  rw [← x.live] at owned
  exact Multiset.mem_coe.mp owned

/-- The only step that answers a put with replicas is its last critical section. -/
theorem replicas_inserted (done : w.putAdvance p i choice = some (w', .replicas (.ok list))) :
    ∃ task replicas, w.busy i = some task ∧ task.phase = .inserting replicas ∧
      w.putInsert i task replicas = (w', .replicas (.ok list)) := by
  unfold putAdvance at done
  split at done
  · cases done
  · rename_i task busy
    split at done
    · split at done
      · cases done
      · cases done
    · obtain ⟨mid, -, same⟩ := map_eq_some_iff.mp done
      cases same
    · unfold putUnlock at done
      simp only at done
      split at done
      · cases done
      · cases done
      · cases done
    · rename_i replicas phase
      exact ⟨task, replicas, busy, phase, some.inj done⟩

theorem putInsert_free (free : w.entry i task.key = none)
    (done : w.putInsert i task replicas = (w', .replicas (.ok list))) :
    ∃ m, w'.entry i task.key = some m ∧ m.replicas.map (fun r => r.getDescriptor w'.isValid w'.heap) = list := by
  unfold putInsert at done
  simp only at done
  split at done
  · cases done
    refine ⟨.make w.nextObject task.totalLength replicas task.config.withSoftPin, ?_, rfl⟩
    simp only [entry, Function.update_self]
    exact AList.lookup_insert _
  · rename_i m found
    cases free.symm.trans found

theorem putInsert_taken (taken : w.entry i task.key = some m)
    (done : w.putInsert i task replicas = (w', .replicas (.ok list))) :
    w'.entry i task.key = some m ∧ list.length = replicas.length := by
  unfold putInsert at done
  simp only at done
  split at done
  · rename_i free
    exact nomatch taken.symm.trans free
  · cases done
    exact ⟨taken, List.length_map _⟩

/-- A replica list is registered exactly if the key had no entry: an entry without replicas,
which the first critical section lets pass, is not replaced. -/
theorem registered_iff_absent (x : Sound p w) (put : w.busy i = some task)
    (done : w.exec p (.putAdvance i choice) = some (w', .replicas (.ok list))) :
    w'.Registered p task.key list ↔ w.entry i task.key = none := by
  have x' := sound_step x (exec_turn done) (exec_segments done)
  obtain ⟨task', replicas, put', phase, inserted⟩ := replicas_inserted done
  cases put.symm.trans put'
  obtain ⟨home, empty, sound⟩ := x.inFlight.put i task put
  rw [phase] at sound
  rw [Registered, home]
  cases entry : w.entry i task.key with
  | none =>
    obtain ⟨m, found, described⟩ := putInsert_free entry inserted
    exact iff_of_true ⟨m, found, described, entry_live x'.ledger found⟩ rfl
  | some m =>
    obtain ⟨found, lengths⟩ := putInsert_taken entry inserted
    refine iff_of_false ?_ (some_ne_none m)
    rintro ⟨m', found', described, -⟩
    cases found.symm.trans found'
    rw [empty m entry] at described
    rw [← described] at lengths
    exact sound.2.1 (List.length_eq_zero_iff.mp lengths.symm)

def World.Registers (p : Params) (w : World A H) (e : Event) (w' : World A H) : Prop :=
  ∀ i choice task list, e = .putAdvance i choice → w.busy i = some task →
    w.exec p e = some (w', .replicas (.ok list)) → w'.Registered p task.key list

def World.keyAbsent (w : World A H) : Event → Bool
  | .putAdvance i _ =>
    match w.busy i with
    | some ⟨key, _, _, .inserting _⟩ => (w.entry i key).isNone
    | _ => true
  | _ => true

theorem putInsert_answers (w : World A H) (i : Fin kNumShards) (task : PutTask H) (replicas : List (Replica H)) :
    ∃ list, (w.putInsert i task replicas).2 = .replicas (.ok list) := by
  unfold putInsert
  simp only
  split
  · exact ⟨_, rfl⟩
  · exact ⟨_, rfl⟩

theorem registers_iff_keyAbsent (x : Sound p w) {e : Event} (done : w.step p e = some w') :
    w.Registers p e w' ↔ w.keyAbsent e = true := by
  constructor
  · intro registers
    unfold keyAbsent
    split
    · rename_i i choice
      split
      · rename_i key sliceLengths config replicas put
        have inserted : w.exec p (.putAdvance i choice) =
            some (w.putInsert i ⟨key, sliceLengths, config, .inserting replicas⟩ replicas) := by
          simp only [exec, putAdvance, put]
        obtain ⟨list, answer⟩ := putInsert_answers w i ⟨key, sliceLengths, config, .inserting replicas⟩ replicas
        obtain ⟨r, same⟩ := step_exec done
        rw [inserted] at same
        have answered : w.exec p (.putAdvance i choice) = some (w', .replicas (.ok list)) := by
          rw [inserted, ← answer, some.inj same]
        exact isNone_iff_eq_none.mpr
          ((registered_iff_absent x put answered).mp (registers i choice _ list rfl put answered))
      · rfl
    · rfl
  · rintro absent i choice task list rfl put answered
    obtain ⟨task', replicas, put', phase, -⟩ := replicas_inserted answered
    cases put.symm.trans put'
    rw [registered_iff_absent x put answered]
    obtain ⟨key, sliceLengths, config, phase'⟩ := task
    cases phase
    simp only [keyAbsent, put] at absent
    exact isNone_iff_eq_none.mp absent

/-- A run registers everything that its puts hand out exactly if no put of it inserts over an entry. -/
theorem putStart_registers_iff_absent {events : List Event}
    (run : Run.run (World.step p) (World.start p) events = some w) :
    Run.Every (World.step p) (World.Registers p) (World.start p : World A H) events ↔
      Run.Guarded (World.step p) (fun w e => w.keyAbsent e = true) (World.start p : World A H) events := by
  refine Run.every_iff_guarded located_kept ?_ (located_start p) run
  intro w e w' x done
  exact registers_iff_keyAbsent x.sound done

/-! A small master to run: one shard in use, no disk replicas, two segments of 1 MiB. -/

theorem reached_of_outcome {α : Type} {events : List Event} {f : World A H → Option α} {a : α}
    (outcome : (Run.run (step p) (start p) events).bind f = some a) :
    ∃ w : World A H, Reachable p w ∧ f w = some a := by
  obtain ⟨w, run, seen⟩ := bind_eq_some_iff.mp outcome
  exact ⟨w, ⟨events, run⟩, seen⟩

namespace Sample
open Mooncake.Offset

abbrev State : Type := World OffsetBufferAllocator OffsetAllocationHandle

def params : Params :=
  { hash := fun _ => 0
    resolvePath := id
    regex := fun _ => none
    ceilTimes := fun _ _ => 0
    memoryAllocator := .offset
    defaultKvLeaseTtl := 5000
    defaultKvSoftPinTtl := 1800000
    allowEvictSoftPinnedObjects := true
    clientLiveTtlSec := 10
    useDiskReplica := false }

def shard : Fin kNumShards := ⟨0, by decide⟩
def clientA : UUID := (1, 1)
def clientB : UUID := (2, 2)
def segmentA : Segment := ⟨(0, 1), "a", 4096, 1048576, "a:1"⟩
def segmentB : Segment := ⟨(0, 2), "b", 1099511627776, 1048576, "b:1"⟩

def mount (segment : Segment) (client : UUID) : List Event := [.mountSegment segment client true, .mountFinish]

def place (key segmentName : String) : List Event :=
  .putStart key [1024] { preferredSegment := segmentName } :: List.replicate 4 (.putAdvance shard [])

def put (key segmentName : String) : List Event := place key segmentName ++ [.putAdvance shard []]

end Sample

open Sample in
theorem first_put_registers : ∃ w : State,
    Run.run (World.step params) (World.start params) (mount segmentA clientA ++ put "k" "a") = some w ∧
      Run.Every (World.step params) (World.Registers params) (World.start params : State)
        (mount segmentA clientA ++ put "k" "a") := by
  have outcome : (Run.run (step params) (start params : State)
      (mount segmentA clientA ++ put "k" "a")).isSome = true := by decide +kernel
  obtain ⟨w, run⟩ := isSome_iff_exists.mp outcome
  exact ⟨w, run, (putStart_registers_iff_absent run).mpr (by decide +kernel)⟩

open Sample in
/-- While segment `a` is being unmounted its replicas are stale, and its key looks free. -/
theorem put_over_stale_entry_unregistered : ∃ (w w' : State) (list : List ReplicaDescriptor),
    World.Reachable params w ∧ (w.busy shard).map PutTask.key = some "k" ∧
      w.exec params (.putAdvance shard []) = some (w', .replicas (.ok list)) ∧
      list = [.memory [⟨1024, 1099511627776, "b:1"⟩] .processing] ∧ w'.heap.live = [] ∧
      ¬w'.Registered params "k" list := by
  have outcome : (Run.run (step params) (start params : State)
      (mount segmentA clientA ++ put "k" "a" ++ mount segmentB clientB ++
        [.unmountSegment 0 segmentA.id clientA] ++ place "k" "b")).bind (fun w =>
          (w.exec params (.putAdvance shard [])).map (fun r =>
            (r.2, (w.busy shard).map PutTask.key, r.1.heap.live,
              (r.1.entry (params.getShardIndex "k") "k").map (fun m => m.replicas.length)))) =
      some (.replicas (.ok [.memory [⟨1024, 1099511627776, "b:1"⟩] .processing]), some "k", [], some 0) := by
    decide +kernel
  obtain ⟨w, reached, seen⟩ := reached_of_outcome outcome
  obtain ⟨⟨w', reply⟩, done, observed⟩ := map_eq_some_iff.mp seen
  obtain ⟨answer, rest⟩ := Prod.mk.inj observed
  obtain ⟨key, rest⟩ := Prod.mk.inj rest
  obtain ⟨live, empty⟩ := Prod.mk.inj rest
  subst answer
  refine ⟨w, w', _, reached, key, done, rfl, live, ?_⟩
  rintro ⟨m, found, described, -⟩
  rw [found, map_some, some.injEq, List.length_eq_zero_iff] at empty
  rw [empty] at described
  cases described

end Mooncake.Master
