import Mooncake.Master.Registration

/-! Put sessions. The master identifies an object by its key alone, so the client behind a
message is history here: which client a put in flight came from, which client created an
object, and whose `PutStart` of a key was the latest to return a replica list. -/
namespace Mooncake.Master

open Option Function
variable {A H : Type}

structure Sessions (A H : Type) where
  world : World A H
  putter : Fin kNumShards → UUID := fun _ => (0, 0)
  creator : Nat → Option UUID := fun _ => none
  latest : String → Option UUID := fun _ => none

def World.inserts (w : World A H) : Event → Option (Fin kNumShards × String)
  | .putAdvance i _ =>
    match w.busy i with
    | some ⟨key, _, _, .inserting _⟩ => some (i, key)
    | _ => none
  | _ => none

namespace Sessions

variable (p : Params)

def start : Sessions A H := { world := World.start p }

def notePutter (s : Sessions A H) (client : UUID) : Event → Reply → Fin kNumShards → UUID
  | .putStart key _ _, .silent => Function.update s.putter (p.getShardIndex key) client
  | _, _ => s.putter

variable (s : Sessions A H)

def noteCreator (e : Event) : Nat → Option UUID :=
  match s.world.inserts e with
  | some (i, _) => Function.update s.creator s.world.nextObject (some (s.putter i))
  | none => s.creator

def noteLatest (e : Event) : String → Option UUID :=
  match s.world.inserts e with
  | some (i, key) => Function.update s.latest key (some (s.putter i))
  | none => s.latest

variable [BufferAllocatorBase A H]

def step (s : Sessions A H) (sent : UUID × Event) : Option (Sessions A H) :=
  (s.world.exec p sent.2).map (fun r =>
    { world := r.1
      putter := s.notePutter p sent.1 sent.2 r.2
      creator := s.noteCreator sent.2
      latest := s.noteLatest sent.2 })

def Reachable (s : Sessions A H) : Prop := ∃ messages, Run.run (step p) (start p) messages = some s

/-- The client created the object, and no put of the key has been answered with replicas since. -/
def Owns (client : UUID) (key : String) (m : ObjectMetadata H) : Prop :=
  s.creator m.object = some client ∧ s.latest key = some client

end Sessions

variable {i : Fin kNumShards}

theorem inserts_some {w : World A H} {e : Event} {key : String} (inserts : w.inserts e = some (i, key)) :
    ∃ choice task replicas, e = .putAdvance i choice ∧ w.busy i = some task ∧ task.phase = .inserting replicas ∧
      task.key = key := by
  unfold World.inserts at inserts
  split at inserts
  · rename_i j choice
    split at inserts
    · rename_i k sliceLengths config replicas put
      cases inserts
      exact ⟨choice, _, replicas, rfl, put, rfl, rfl⟩
    · cases inserts
  · cases inserts

theorem inserts_of_phase {w : World A H} {choice : List Nat} {task : PutTask H}
    {replicas : List (Replica H)} (put : w.busy i = some task) (phase : task.phase = .inserting replicas) :
    w.inserts (.putAdvance i choice) = some (i, task.key) := by
  obtain ⟨key, sliceLengths, config, phase'⟩ := task
  cases phase
  simp only [World.inserts, put]

structure Separate (p : Params) (s : Sessions A H) : Prop where
  located : Located p s.world
  owned : ∀ i key m, s.world.entry i key = some m → m.replicas ≠ [] → ∃ client, s.Owns client key m

theorem separate_start (p : Params) : Separate p (Sessions.start p : Sessions A H) :=
  ⟨located_start p, fun _ _ _ found => (nomatch found)⟩

section Steps
variable [BufferAllocatorBase A H] {p : Params} {s s' : Sessions A H} {client : UUID} {e : Event}

theorem step_fields (done : s.step p (client, e) = some s') :
    ∃ reply, s.world.exec p e = some (s'.world, reply) ∧ s'.creator = s.noteCreator e ∧ s'.latest = s.noteLatest e := by
  obtain ⟨⟨w', reply⟩, inside, same⟩ := map_eq_some_iff.mp done
  subst same
  exact ⟨reply, inside, rfl, rfl⟩

omit [BufferAllocatorBase A H] in
theorem owns_kept (x : Separate p s) {key : String} {m : ObjectMetadata H}
    (found : s.world.entry i key = some m) (some_replica : m.replicas ≠ []) (creator : s'.creator = s.noteCreator e)
    (latest : s'.latest = s.noteLatest e) (owns : s.Owns client key m) : s'.Owns client key m := by
  cases inserts : s.world.inserts e with
  | none =>
    rw [Sessions.Owns, creator, latest, Sessions.noteCreator, Sessions.noteLatest, inserts]
    exact owns
  | some insertion =>
    obtain ⟨j, key'⟩ := insertion
    obtain ⟨choice, task, replicas, -, put, -, rfl⟩ := inserts_some inserts
    obtain ⟨here, empty, -⟩ := x.located.sound.inFlight.put j task put
    have other : key ≠ task.key := by
      rintro rfl
      have same := (x.located.home i _ m found).symm.trans here
      subst same
      exact some_replica (empty m found)
    rw [Sessions.Owns, creator, latest, Sessions.noteCreator, Sessions.noteLatest, inserts]
    refine ⟨?_, ?_⟩
    · exact (update_of_ne (Nat.ne_of_lt (x.located.older i key m found)) _ _).trans owns.1
    · exact (update_of_ne other _ _).trans owns.2

theorem separate_step (x : Separate p s) (done : s.step p (client, e) = some s') : Separate p s' := by
  obtain ⟨reply, inside, creator, latest⟩ := step_fields done
  have turn := World.exec_turn inside
  refine ⟨located_step x.located turn (World.exec_segments inside), ?_⟩
  intro i key m' found some_replica
  obtain ⟨m, before, effect⟩ | ⟨choice, task, replicas, rfl, put, phase, rfl, -, rfl⟩ := turn_origin turn found
  · have inherits := effect.inherits rfl
    have earlier : m.replicas ≠ [] := by
      obtain ⟨r', rest, split⟩ := List.exists_cons_of_ne_nil some_replica
      obtain ⟨r, old, -⟩ := inherits.data r' (by rw [split]; exact List.mem_cons_self)
      exact List.ne_nil_of_mem old
    obtain ⟨client, owns⟩ := x.owned i key m before earlier
    have kept := owns_kept x before earlier creator latest owns
    rw [Sessions.Owns, ← inherits.object] at kept
    exact ⟨client, kept⟩
  · have inserts : s.world.inserts (.putAdvance i choice) = some (i, task.key) := inserts_of_phase put phase
    refine ⟨s.putter i, ?_, ?_⟩
    · rw [creator, Sessions.noteCreator, inserts]
      exact update_self _ _ _
    · rw [latest, Sessions.noteLatest, inserts]
      exact update_self _ _ _

theorem separate_reachable (reached : Sessions.Reachable p s) : Separate p s := by
  obtain ⟨messages, run⟩ := reached
  exact Run.invariant (fun _ _ _ x done => separate_step x done) (separate_start p) run

def Completed (w w' : World A H) (i : Fin kNumShards) (key : String) (m' : ObjectMetadata H) (r : Replica H) : Prop :=
  w'.entry i key = some m' ∧ r ∈ m'.replicas ∧ r.status = .complete ∧ ∀ m, w.entry i key = some m → r ∉ m.replicas

def Sessions.Attributed (s : Sessions A H) (client : UUID) (key : String) (m : ObjectMetadata H) : Prop :=
  ∃ owner, s.Owns owner key m ∧ (client = owner ↔ s.latest key = some client)

variable {key : String} {m : ObjectMetadata H} {i : Fin kNumShards} {r : Replica H}

omit [BufferAllocatorBase A H] in
theorem Sessions.Owns.attributed {owner : UUID} (owns : s.Owns owner key m) : s.Attributed client key m := by
  refine ⟨owner, owns, ?_⟩
  rw [owns.2, some.injEq]
  exact eq_comm

theorem completed_attributed (x : Separate p s) (done : s.step p (client, e) = some s') {m' : ObjectMetadata H}
    (completed : Completed s.world s'.world i key m' r) :
    e = .putEnd key r.type ∧ ∃ m, s.world.entry i key = some m ∧ m'.object = m.object ∧
      ⟨r.data, .processing⟩ ∈ m.replicas ∧ s.Attributed client key m := by
  obtain ⟨found, member, complete, fresh⟩ := completed
  obtain ⟨reply, inside, -, -⟩ := step_fields done
  obtain ⟨m, before, effect⟩ | ⟨choice, task, replicas, rfl, put, phase, rfl, -, rfl⟩ :=
    turn_origin (World.exec_turn inside) found
  · obtain ⟨asked, writing⟩ := effect.completed rfl member (fresh m before)
    obtain ⟨owner, owns⟩ := x.owned i key m before (List.ne_nil_of_mem writing)
    exact ⟨asked, m, before, (effect.inherits rfl).object, writing, owns.attributed⟩
  · obtain ⟨-, -, sound⟩ := x.located.sound.inFlight.put i task put
    rw [phase] at sound
    exact nomatch (sound.2.2 r member).symm.trans complete

theorem revoked_attributed (x : Separate p s) {k : String} {type : ReplicaType}
    (done : s.step p (client, .putRevoke k type) = some s') (dropped : Dropped s.world s'.world i key m r) :
    key = k ∧ s.Attributed client key m := by
  obtain ⟨reply, inside, -, -⟩ := step_fields done
  obtain ⟨owner, owns⟩ := x.owned i key m dropped.1 (List.ne_nil_of_mem dropped.2.1)
  refine ⟨?_, owns.attributed⟩
  cases turn_dropped (World.exec_turn inside) dropped with
  | stale asked => exact asked.key_eq rfl
  | revoked type asked => cases asked; rfl
  | removed asked => cases asked
  | matched id found next removed asked => cases asked
  | swept id now next removed asked => cases asked
  | evicted id state asked => cases asked

/-- A replica is completed only by a `PutEnd` of its key, and what a `PutRevoke` drops is of its
key too; then the replica was created by the client whose `PutStart` of the key was the
latest to be answered. -/
theorem put_sessions_by_latest_putter (reached : Sessions.Reachable p s) (done : s.step p (client, e) = some s')
    (i : Fin kNumShards) (key : String) :
    (∀ m' r, Completed s.world s'.world i key m' r → e = .putEnd key r.type ∧
      ∃ m, s.world.entry i key = some m ∧ m'.object = m.object ∧ ⟨r.data, .processing⟩ ∈ m.replicas ∧
        s.Attributed client key m) ∧
    (∀ k type, e = .putRevoke k type → ∀ m r, Dropped s.world s'.world i key m r →
      key = k ∧ s.Attributed client key m) := by
  have x := separate_reachable reached
  refine ⟨fun m' r completed => completed_attributed x done completed, ?_⟩
  rintro k type rfl m r dropped
  exact revoked_attributed x done dropped

end Steps

namespace Sample

abbrev SessionState : Type := Sessions OffsetBufferAllocator Offset.OffsetAllocationHandle

def sentBy (client : UUID) (events : List Event) : List (UUID × Event) := events.map (client, ·)

theorem completed_of_statuses {A H : Type} {w w' : World A H} {key : String}
    {m m' : ObjectMetadata H} (found : w.entry i key = some m) (found' : w'.entry i key = some m')
    (statuses : m.replicas.map Replica.status = [.processing])
    (statuses' : m'.replicas.map Replica.status = [.complete]) : ∃ r, Completed w w' i key m' r := by
  obtain ⟨r', one, complete⟩ := List.map_eq_singleton_iff.mp statuses'
  refine ⟨r', found', by rw [one]; exact List.mem_singleton_self r', complete, ?_⟩
  intro m₁ found₁ member
  cases found.symm.trans found₁
  have writing : r'.status ∈ m.replicas.map Replica.status := List.mem_map_of_mem member
  rw [statuses, List.mem_singleton] at writing
  exact nomatch complete.symm.trans writing

end Sample

open Sample in
theorem own_putEnd_attributed : ∃ (s s' : SessionState) (m : ObjectMetadata _),
    s.step params (clientA, .putEnd "k" .memory) = some s' ∧ s.world.entry shard "k" = some m ∧
      s.Attributed clientA "k" m ∧ s.latest "k" = some clientA := by
  have outcome : (Run.run (Sessions.step params) (Sessions.start params : SessionState)
      (sentBy clientA (mount segmentA clientA ++ put "k" "a"))).bind (fun s =>
        (s.step params (clientA, .putEnd "k" .memory)).map (fun s' =>
          ((s.world.entry shard "k").map (fun m => m.replicas.map Replica.status),
            (s'.world.entry shard "k").map (fun m => m.replicas.map Replica.status), s.latest "k"))) =
      some (some [.processing], some [.complete], some clientA) := by decide +kernel
  obtain ⟨s, run, seen⟩ := bind_eq_some_iff.mp outcome
  obtain ⟨s', done, observed⟩ := map_eq_some_iff.mp seen
  obtain ⟨before, rest⟩ := Prod.mk.inj observed
  obtain ⟨after, latest⟩ := Prod.mk.inj rest
  obtain ⟨m, found, statuses⟩ := map_eq_some_iff.mp before
  obtain ⟨m', found', statuses'⟩ := map_eq_some_iff.mp after
  obtain ⟨r, completed⟩ := completed_of_statuses found found' statuses statuses'
  obtain ⟨-, m₁, found₁, -, -, attributed⟩ :=
    (put_sessions_by_latest_putter ⟨_, run⟩ done shard "k").1 m' r completed
  cases found.symm.trans found₁
  exact ⟨s, s', m, done, found, attributed, latest⟩

open Sample in
/-- Client B puts the key again after the segment of A's object has gone from the shard; the
late `PutEnd` of A completes the replica of B. -/
theorem late_putEnd_completes_other_session : ∃ (s s' : SessionState) (m m' : ObjectMetadata _) (r : Replica _),
    Sessions.Reachable params s ∧ s.step params (clientA, .putEnd "k" .memory) = some s' ∧
      Completed s.world s'.world shard "k" m' r ∧ s.world.entry shard "k" = some m ∧
      s.creator m.object = some clientB ∧ clientA ≠ clientB := by
  have outcome : (Run.run (Sessions.step params) (Sessions.start params : SessionState)
      (sentBy clientA (mount segmentA clientA ++ put "k" "a") ++ sentBy clientB (mount segmentB clientB) ++
        sentBy clientA [.unmountSegment 0 segmentA.id clientA, .advance 0] ++ sentBy clientB (put "k" "b"))).bind
      (fun s => (s.step params (clientA, .putEnd "k" .memory)).map (fun s' =>
        ((s.world.entry shard "k").map (fun m => (m.replicas.map Replica.status, s.creator m.object)),
          (s'.world.entry shard "k").map (fun m => m.replicas.map Replica.status)))) =
      some (some ([.processing], some clientB), some [.complete]) := by decide +kernel
  obtain ⟨s, run, seen⟩ := bind_eq_some_iff.mp outcome
  obtain ⟨s', done, observed⟩ := map_eq_some_iff.mp seen
  obtain ⟨before, after⟩ := Prod.mk.inj observed
  obtain ⟨m, found, fields⟩ := map_eq_some_iff.mp before
  obtain ⟨m', found', statuses'⟩ := map_eq_some_iff.mp after
  obtain ⟨statuses, creator⟩ := Prod.mk.inj fields
  obtain ⟨r, completed⟩ := completed_of_statuses found found' statuses statuses'
  exact ⟨s, s', m, m', r, ⟨_, run⟩, done, completed, found, creator, by decide⟩

end Mooncake.Master
