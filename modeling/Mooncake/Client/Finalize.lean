import Mooncake.Client.BatchPut

/-! That a batch of puts is finalized. An operation reaches one of three points before
`FinalizeBatchPut`: the master refused it, its transfers are done, or they failed; both paths
take every operation there, and finalizing depends on nothing else. -/
namespace Mooncake.Client

open Option List PutOperation Indexed
open Master (ErrorCode BufferDescriptor ReplicaDescriptor ReplicaStatus ReplicaType ReplicateConfig)

/-- What the client relies on: replies of the right size, a buffer in memory first for every
put that is started, and an end that never answers that the object exists already. -/
structure MasterClient.Sound (m : MasterClient) : Prop where
  startSize : ∀ keys lengths config, (m.batchPutStart keys lengths config).length = keys.length
  endSize : ∀ keys, (m.batchPutEnd keys).length = keys.length
  revokeSize : ∀ keys, (m.batchPutRevoke keys).length = keys.length
  startMemory : ∀ keys lengths config replicas, .ok replicas ∈ m.batchPutStart keys lengths config →
    ∃ handle more status rest, replicas = .memory (handle :: more) status :: rest
  endError : ∀ keys, .error .objectAlreadyExists ∉ m.batchPutEnd keys

section
variable (c : Context)

def futureOk : Option TransferFuture → Bool
  | some future => future.result == .ok
  | none => false

def memoryTransferred (i : Nat) (slices : List Slice) (replicas : List ReplicaDescriptor) : Bool :=
  replicas.all (fun r => !r.isMemoryReplica || futureOk (c.transferSubmitter.submit i r slices .write))

/-- The segment of the first buffer of a put that is started, and the replica of the buffer. -/
def StartReply.place : StartReply → Option (String × ReplicaDescriptor)
  | .ok (.memory (handle :: more) status :: _) => some (handle.transportEndpoint, .memory (handle :: more) status)
  | _ => none

def segmentTransferred (groups : List SegGroup) (reply : StartReply) : Option Bool :=
  reply.place.map (fun place => (groups.find? (·.segment == place.1)).any (fun group => futureOk group.future))

/-- What the engine makes of the requests of the batch of a segment, unless they are not submitted. -/
def SegGroup.outcome (group : SegGroup) : Option (TransferRequest → Bool) :=
  (c.transferSubmitter.batchRequests group.place .write (group.members.map Prod.snd)).bind
    (c.transferSubmitter.submitTransfer group.place)

/-- The requests for a started key complete, whatever becomes of the others in the batch of its segment. -/
def ownTransferred (groups : List SegGroup) (put : StartReply × List Slice) : Option Bool :=
  put.1.place.map (fun place =>
    ((groups.find? (·.segment == place.1)).bind (·.outcome c)).any
      (TransferSubmitter.entryRequests .write (place.2, put.2)).all)

def StartReply.InMemory (reply : StartReply) : Prop :=
  ∀ replicas, reply = .ok replicas → ∃ handle more status rest, replicas = .memory (handle :: more) status :: rest

/-- How far the operation of a key has got before it is finalized: its start was refused, its
transfers are done, or they failed. -/
inductive Reached (key : String) : StartReply → Option Bool → PutOperation → Prop
  | refused {e : ErrorCode} {op : PutOperation} (same : op.key = key) (state : op.state = .masterFailed)
      (bare : op.replicas = []) (result : op.result = .error e) : Reached key (.error e) none op
  | transferred {replicas : List ReplicaDescriptor} {op : PutOperation} (same : op.key = key)
      (due : op.needsEnd = true) : Reached key (.ok replicas) (some true) op
  | failed {replicas : List ReplicaDescriptor} {op : PutOperation} {e : ErrorCode} (same : op.key = key)
      (due : op.needsRevoke = true) (result : op.result = .error e) (other : e ≠ .objectAlreadyExists) :
      Reached key (.ok replicas) (some false) op

/-- Either every memory replica gets a future, or the loop stops at one that does not. -/
theorem submitLoop_cases (i : Nat) (slices : List Slice) (replicas : List ReplicaDescriptor)
    (pending : List TransferFuture) :
    (∃ futures, submitLoop c i slices replicas pending = (pending ++ futures, true) ∧
      memoryTransferred c i slices replicas = futures.all (fun future => future.result == .ok) ∧
      (∀ future ∈ futures, future.result = .ok ∨ future.result = .transferFail) ∧
      (replicas.any (·.isMemoryReplica) = true → futures ≠ [])) ∨
    (∃ futures, submitLoop c i slices replicas pending = (futures, false) ∧
      memoryTransferred c i slices replicas = false) := by
  induction replicas generalizing pending with
  | nil => exact .inl ⟨[], by simp [submitLoop], rfl, by simp, by simp⟩
  | cons replica rest ih =>
    cases memory : replica.isMemoryReplica with
    | false =>
      have skip : submitLoop c i slices (replica :: rest) pending = submitLoop c i slices rest pending := by
        simp [submitLoop, memory]
      have same : memoryTransferred c i slices (replica :: rest) = memoryTransferred c i slices rest := by
        simp [memoryTransferred, memory]
      rw [skip, same, any_cons, memory, Bool.false_or]
      exact ih pending
    | true =>
      cases submitted : c.transferSubmitter.submit i replica slices .write with
      | none => exact .inr ⟨pending, by simp [submitLoop, memory, submitted],
          by simp [memoryTransferred, memory, submitted, futureOk]⟩
      | some future =>
        have next : submitLoop c i slices (replica :: rest) pending =
            submitLoop c i slices rest (pending ++ [future]) := by
          simp [submitLoop, memory, submitted]
        have first : memoryTransferred c i slices (replica :: rest) =
            (future.result == .ok && memoryTransferred c i slices rest) := by
          simp [memoryTransferred, memory, submitted, futureOk]
        rw [next, first]
        rcases ih (pending ++ [future]) with ⟨futures, looped, all, results, _⟩ | ⟨futures, stopped, none⟩
        · exact .inl ⟨future :: futures, by rw [looped, append_assoc]; rfl, by rw [all, all_cons],
            forall_mem_cons.mpr ⟨c.transferSubmitter.submit_result i submitted, results⟩, by simp⟩
        · exact .inr ⟨futures, stopped, by rw [none, Bool.and_false]⟩

variable {op : PutOperation}

theorem wait_of_failed {future : TransferFuture} (unresolved : op.isResolved = false)
    (first : op.pendingTransfers.find? (fun future => future.result != .ok) = some future) :
    op.wait = op.setError future.result := by
  have some : op.pendingTransfers ≠ [] := ne_nil_of_mem (mem_of_find?_eq_some first)
  simp [wait, unresolved, some, first]

theorem wait_of_ok (unresolved : op.isResolved = false) (some : op.pendingTransfers ≠ [])
    (all : op.pendingTransfers.all (fun future => future.result == .ok) = true) : op.wait = op := by
  have none : op.pendingTransfers.find? (fun future => future.result != .ok) = none := by
    rw [find?_eq_none]
    intro future member wrong
    have fine := all_eq_true.mp all future member
    simp_all
  simp [wait, unresolved, some, none]

theorem wait_of_resolved (resolved : op.isResolved = true) : op.wait = op := by
  simp [wait, resolved]

theorem setError_resolved (op : PutOperation) (e : ErrorCode) : (op.setError e).isResolved = true := by
  simp only [isResolved, setError]
  cases op.replicas.isEmpty <;> cases op.pendingTransfers.isEmpty <;> rfl

theorem needsRevoke_of_resolved (resolved : op.isResolved = true) (replicas : op.replicas ≠ []) :
    op.needsRevoke = true := by
  have failed : (op.state != .pending) = true := resolved
  simp [needsRevoke, needsEnd, resolved, failed, replicas]

theorem setError_needsRevoke (replicas : op.replicas ≠ []) (e : ErrorCode) :
    (op.setError e).needsRevoke = true :=
  needsRevoke_of_resolved (setError_resolved op e) replicas

theorem abandon_resolved (op : PutOperation) : op.abandon.isResolved = true := setError_resolved op .transferFail

/-- The normal path takes every operation to where its start and its transfers lead. -/
theorem reached_normal (i : Nat) (key : String) (slices : List Slice) (reply : StartReply)
    (memory : reply.InMemory) :
    Reached key reply (reply.toOption.map (memoryTransferred c i slices))
      (submitTransfer c i (start { key := key, slices := slices } reply)).wait := by
  cases reply with
  | error e =>
    exact .refused rfl rfl rfl rfl
  | ok replicas =>
    obtain ⟨handle, more, status, rest, shape⟩ := memory replicas rfl
    have some : replicas ≠ [] := by rw [shape]; exact cons_ne_nil _ _
    have any : replicas.any (·.isMemoryReplica) = true := by rw [shape]; rfl
    have submitted : submitTransfer c i (start { key := key, slices := slices } (.ok replicas)) =
        let submitted := submitLoop c i slices replicas []
        if submitted.2 then { key := key, slices := slices, replicas := replicas, pendingTransfers := submitted.1 }
        else abandon
          { key := key, slices := slices, replicas := replicas, pendingTransfers := submitted.1 } := by
      have present : (start { key := key, slices := slices } (.ok replicas)).replicas.isEmpty = false := by
        simpa [start] using some
      unfold submitTransfer
      rw [if_neg (by nofun), if_neg (by simp [present])]
      rfl
    rw [submitted]
    rcases submitLoop_cases c i slices replicas [] with ⟨futures, looped, all, results, nonempty⟩ | ⟨futures, stopped, none⟩
    · simp only [looped, nil_append, Except.toOption, map_some, all, if_true]
      cases verdict : futures.all (fun future => future.result == .ok) with
      | true =>
        rw [wait_of_ok rfl (nonempty any) verdict]
        exact .transferred rfl (by simp [needsEnd, isResolved, some, nonempty any])
      | false =>
        obtain ⟨future, member, wrong⟩ := all_eq_false.mp verdict
        cases first : futures.find? (fun future => future.result != .ok) with
        | none =>
          have fine := find?_eq_none.mp first future member
          simp_all
        | some found =>
          rw [wait_of_failed rfl first]
          refine .failed rfl (setError_needsRevoke some _) rfl ?_
          rcases results found (mem_of_find?_eq_some first) with fine | fail
          · have wrong := find?_some first
            simp [fine] at wrong
          · rw [fail]
            nofun
    · simp only [stopped, Except.toOption, map_some, none, Bool.false_eq_true, if_false]
      rw [wait_of_resolved (abandon_resolved _)]
      exact .failed rfl (needsRevoke_of_resolved (abandon_resolved _) some) rfl (by nofun)

theorem merged_resolved (group : SegGroup) : group.merged.isResolved = !futureOk group.future := by
  unfold SegGroup.merged
  cases group.future with
  | none =>
    simp only [wait_of_resolved (abandon_resolved _), abandon_resolved]
    rfl
  | some future =>
    simp only [futureOk]
    cases fine : future.result == .ok with
    | true => rw [wait_of_ok rfl (by simp) (by simpa using fine)]; rfl
    | false =>
      have first : [future].find? (fun future => future.result != .ok) = some future := by simp [bne, fine]
      rw [wait_of_failed rfl first]
      exact setError_resolved _ _

section
variable {ops : List PutOperation} {group : SegGroup} (grouped : group ∈ segToOps c ops)
include grouped

theorem future_eq :
    group.future = c.transferSubmitter.submitBatch group.place (group.members.map Prod.snd) .write := by
  obtain ⟨g, _, rfl⟩ := mem_mapIdx.mp grouped
  rfl

/-- The batch of a segment succeeds exactly if the requests for all of its members complete. -/
theorem futureOk_iff :
    futureOk group.future = true ↔ ∃ completes, group.outcome c = some completes ∧
      ∀ entry ∈ group.members.map Prod.snd, (TransferSubmitter.entryRequests .write entry).all completes = true := by
  rw [future_eq c grouped, TransferSubmitter.submitBatch, SegGroup.outcome]
  generalize group.members.map Prod.snd = entries
  cases built : c.transferSubmitter.batchRequests group.place .write entries with
  | none => simp [futureOk]
  | some requests =>
    obtain ⟨rfl, -⟩ := TransferSubmitter.batchRequests_spec built
    simp only [bind_some, TransferSubmitter.submitRequests]
    cases c.transferSubmitter.submitTransfer group.place _ with
    | none => simp [futureOk]
    | some completes => simp [futureOk, List.all_flatMap]

end

/-- The path for one node takes every operation to where its start and the batch of its segment lead. -/
theorem reached_sameNode {groups : List SegGroup} (key : String) (slices : List Slice) (reply : StartReply)
    (memory : ∀ replicas, reply = .ok replicas → ∃ handle more status rest,
      replicas = .memory (handle :: more) status :: rest ∧
        ∃ group, groups.find? (·.segment == handle.transportEndpoint) = some group) :
    Reached key reply (segmentTransferred groups reply)
      (shareState groups (checkSameNode (start { key := key, slices := slices } reply))) := by
  cases reply with
  | error e => exact .refused rfl rfl rfl rfl
  | ok replicas =>
    obtain ⟨handle, more, status, rest, rfl, group, found⟩ := memory replicas rfl
    have shared : shareState groups (checkSameNode (start { key := key, slices := slices }
        (.ok (.memory (handle :: more) status :: rest)))) =
        { key := key, slices := slices, replicas := .memory (handle :: more) status :: rest,
          state := group.merged.state, pendingTransfers := [⟨.empty, .ok⟩] } := by
      simp [shareState, checkSameNode, start, isResolved, segmentOf, found]
    have verdict : segmentTransferred groups (.ok (.memory (handle :: more) status :: rest)) =
        some (futureOk group.future) := by
      simp [segmentTransferred, StartReply.place, found]
    have resolved := merged_resolved group
    rw [shared, verdict]
    cases fine : futureOk group.future with
    | true =>
      rw [fine] at resolved
      exact .transferred rfl (by simp [needsEnd, isResolved] at resolved ⊢; exact resolved)
    | false =>
      rw [fine] at resolved
      exact .failed rfl (needsRevoke_of_resolved resolved (cons_ne_nil _ _)) rfl (by nofun)

def keysWith (verdict : Bool) (keys : List String) (verdicts : List (Option Bool)) : List (Nat × String) :=
  Indexed.pick (fun p : String × Option Bool => if p.2 = some verdict then some p.1 else none) (keys.zip verdicts)

variable {keys : List String} {starts : List StartReply} {verdicts : List (Option Bool)} {ops : List PutOperation}
variable {op : PutOperation} {verdict : Option Bool} {start : StartReply} {i : Nat} {key : String}

theorem mem_keysWith {verdict : Bool} :
    (i, key) ∈ keysWith verdict keys verdicts ↔ keys[i]? = some key ∧ verdicts[i]? = some (some verdict) := by
  simp only [keysWith, mem_pick, Prod.exists, getElem?_zip_eq_some]
  constructor
  · rintro ⟨_, _, ⟨keyAt, verdictAt⟩, due⟩
    split at due
    next same =>
      cases due
      exact ⟨keyAt, same ▸ verdictAt⟩
    next => cases due
  · rintro ⟨keyAt, verdictAt⟩
    exact ⟨key, _, ⟨keyAt, verdictAt⟩, if_pos rfl⟩

/-- Calls that send the same messages end as many puts: the same ones, if one ends only puts of the other. -/
theorem ended_of_done {transfers : List (Option Bool)}
    (same : (keysWith true keys verdicts).map (fun p => Message.putEnd p.2 .memory) ++
        (keysWith false keys verdicts).map (fun p => .putRevoke p.2 .memory) =
      (keysWith true keys transfers).map (fun p => Message.putEnd p.2 .memory) ++
        (keysWith false keys transfers).map (fun p => .putRevoke p.2 .memory))
    (ended : ∀ i : Nat, verdicts[i]? = some (some true) → transfers[i]? = some (some true))
    (keyAt : keys[i]? = some key) (done : transfers[i]? = some (some true)) : verdicts[i]? = some (some true) := by
  have count := congrArg (countP (fun m => m matches .putEnd _ _)) same
  have length : (keysWith true keys transfers).length = (keysWith true keys verdicts).length := by
    simpa [countP_append, countP_map, Function.comp_def] using count.symm
  have subset : keysWith true keys verdicts ⊆ keysWith true keys transfers := fun _ inside =>
    mem_keysWith.mpr ((mem_keysWith.mp inside).imp_right (ended _))
  have once : (keysWith true keys verdicts).Nodup := (nodup_pick _ _).of_map
  have all := (once.subperm subset).perm_of_length_le length.le
  exact (mem_keysWith.mp (all.mem_iff.mpr (mem_keysWith.mpr ⟨keyAt, done⟩))).2

def endReplies (keys : List String) (verdicts : List (Option Bool)) : List (Nat × Except ErrorCode Unit) :=
  ((keysWith true keys verdicts).map Prod.fst).zip
    (c.masterClient.batchPutEnd ((keysWith true keys verdicts).map Prod.snd))

structure AllReached (keys : List String) (starts : List StartReply) (verdicts : List (Option Bool))
    (ops : List PutOperation) : Prop where
  keyCount : keys.length = ops.length
  verdictCount : verdicts.length = ops.length
  each : ∀ (i : Nat) op, ops[i]? = some op → ∃ key start verdict, keys[i]? = some key ∧ starts[i]? = some start ∧
    verdicts[i]? = some verdict ∧ Reached key start verdict op

section
variable (h : Reached key start verdict op)
include h

theorem Reached.needsEnd_iff : op.needsEnd = true ↔ verdict = some true := by
  cases h with
  | refused same state bare result => simp [needsEnd, bare]
  | transferred same due => simp [due]
  | failed same due result other =>
    simp only [needsRevoke, Bool.and_eq_true, Bool.not_eq_true'] at due
    simp [due.1.1]

theorem Reached.needsRevoke_iff : op.needsRevoke = true ↔ verdict = some false := by
  cases h with
  | refused same state bare result => simp [needsRevoke, bare]
  | transferred same due => simp [needsRevoke, due]
  | failed same due result other => simp [due]

theorem Reached.key_eq : op.key = key := by
  cases h <;> assumption

end

theorem AllReached.pick_keys (h : AllReached keys starts verdicts ops) {due : PutOperation → Bool} {verdict : Bool}
    (exact : ∀ {key start v op}, Reached key start v op → (due op = true ↔ v = some verdict)) :
    (pick (fun op : PutOperation => if due op then some op else none) ops).map (fun p => (p.1, p.2.key)) =
      keysWith verdict keys verdicts := by
  rw [pick_map, keysWith]
  refine pick_congr (by rw [length_zip, h.keyCount, h.verdictCount, Nat.min_self]) ?_
  rintro i op ⟨key, v⟩ found zipped
  obtain ⟨key', start, v', keyAt, _, verdictAt, reached⟩ := h.each i op found
  obtain ⟨keyAt', verdictAt'⟩ := List.getElem?_zip_eq_some.mp zipped
  cases keyAt.symm.trans keyAt'
  cases verdictAt.symm.trans verdictAt'
  by_cases same : v = some verdict
  · simp [(exact reached).mpr same, same, reached.key_eq]
  · have other : due op = false := by
      simpa using fun d => same ((exact reached).mp d)
    simp [other, same]

theorem finalize_sent (h : AllReached keys starts verdicts ops) :
    (finalizeBatchPut c ops).2 = (keysWith true keys verdicts).map (fun p => .putEnd p.2 .memory) ++
      (keysWith false keys verdicts).map (fun p => .putRevoke p.2 .memory) := by
  rw [← h.pick_keys Reached.needsEnd_iff, ← h.pick_keys Reached.needsRevoke_iff, List.map_map, List.map_map]
  rfl

theorem mem_endable : (i, op) ∈ endable ops ↔ ops[i]? = some op ∧ op.needsEnd = true := by
  simp [endable, mem_pick, ← and_assoc]

theorem notMem_endable (found : ops[i]? = some op) (idle : op.needsEnd = false) : i ∉ (endable ops).map Prod.fst := by
  intro wanted
  obtain ⟨⟨j, op'⟩, member, rfl⟩ := mem_map.mp wanted
  obtain ⟨same, due⟩ := mem_endable.mp member
  cases found.symm.trans same
  rw [idle] at due
  cases due

theorem settle_of_resolved (resolved : op.isResolved = true) : op.settle = op := by
  simp [settle, resolved]

theorem collect_ok (found : ops[i]? = some op) :
    (collectResults ops)[i]? = some (.ok ()) ↔ op.result = .ok () ∨ op.result = .error .objectAlreadyExists := by
  rw [collectResults, getElem?_map, found, map_some, some.injEq]
  split
  · rename_i exists_
    simp [exists_]
  · rename_i other
    simp [other]

theorem finish_result (op : PutOperation) (r : Except ErrorCode Unit) : (op.finish r).result = r := by
  cases r <;> rfl

section
variable (sound : c.masterClient.Sound)
include sound

theorem endWrites_eq (successful : List (Nat × PutOperation)) :
    endWrites c successful = successful.zipWith (fun p r => (p.1, p.2.finish r))
      (c.masterClient.batchPutEnd (successful.map (·.2.key))) := by
  cases successful with
  | nil => rfl
  | cons p rest => simp [endWrites, sound.endSize]

theorem endWrites_places (successful : List (Nat × PutOperation)) :
    (endWrites c successful).map Prod.fst = successful.map Prod.fst := by
  rw [endWrites_eq c sound]
  exact places_zipWith _ (by rw [sound.endSize, length_map])

/-- With replies of the right size, only the answers to `BatchPutEnd` change an operation. -/
theorem finalize_ops (ops : List PutOperation) :
    (finalizeBatchPut c ops).1 = (writes ops (endWrites c (endable ops))).map settle := by
  have revoked : ∀ failed, revokeWrites c failed = [] := by
    intro failed
    simp [revokeWrites, sound.revokeSize]
  simp only [finalizeBatchPut, revoked]
  rfl

theorem finalize_other (found : ops[i]? = some op) (idle : op.needsEnd = false)
    (resolved : op.isResolved = true) : (finalizeBatchPut c ops).1[i]? = some op := by
  have untouched : i ∉ (endWrites c (endable ops)).map Prod.fst := by
    rw [endWrites_places c sound]
    exact notMem_endable found idle
  rw [finalize_ops c sound, getElem?_map, getElem?_writes_of_notMem untouched, found, map_some,
    settle_of_resolved resolved]

theorem finalize_end {j : Nat} {r : Except ErrorCode Unit} (due : (endable ops)[j]? = some (i, op))
    (answer : (c.masterClient.batchPutEnd ((endable ops).map (·.2.key)))[j]? = some r) :
    (finalizeBatchPut c ops).1[i]? = some (op.finish r) := by
  have once : ((endWrites c (endable ops)).map Prod.fst).Nodup := by
    rw [endWrites_places c sound]
    exact nodup_pick _ _
  have written : (i, op.finish r) ∈ endWrites c (endable ops) := by
    rw [endWrites_eq c sound]
    exact mem_of_getElem? (i := j) (getElem?_zipWith_eq_some.mpr ⟨_, _, due, answer, rfl⟩)
  have inside : i < ops.length :=
    (List.getElem?_eq_some_iff.mp (mem_endable.mp (List.mem_of_getElem? due)).1).1
  have resolved : (op.finish r).isResolved = true := by
    cases r with
    | ok => rfl
    | error e => exact setError_resolved op e
  rw [finalize_ops c sound, getElem?_map, getElem?_writes_of_mem once written inside, map_some,
    settle_of_resolved resolved]

theorem finalize_idle (reached : Reached key start verdict op) (found : ops[i]? = some op)
    (idle : op.needsEnd = false) :
    (collectResults (finalizeBatchPut c ops).1)[i]? = some (.ok ()) ↔ start = .error .objectAlreadyExists := by
  cases reached with
  | refused same state bare result =>
    have resolved : op.isResolved = true := by simp [isResolved, state]
    simp [collect_ok (finalize_other c sound found idle resolved), result]
  | transferred same due => simp [due] at idle
  | failed same revoke result other =>
    simp only [needsRevoke, Bool.and_eq_true] at revoke
    simp [collect_ok (finalize_other c sound found idle revoke.1.2), result, other]

/-- A key succeeds exactly if its end is answered well or its start found the object there. -/
theorem finalize_results (h : AllReached keys starts verdicts ops)
    (startCount : starts.length = ops.length) (i : Nat) :
    (collectResults (finalizeBatchPut c ops).1)[i]? = some (.ok ()) ↔
      starts[i]? = some (.error .objectAlreadyExists) ∨ (i, .ok ()) ∈ endReplies c keys verdicts := by
  have places : endReplies c keys verdicts = ((endable ops).map Prod.fst).zip
      (c.masterClient.batchPutEnd ((endable ops).map (·.2.key))) := by
    rw [endReplies, ← h.pick_keys Reached.needsEnd_iff, List.map_map, List.map_map]
    rfl
  have answers := sound.endSize ((endable ops).map (·.2.key))
  rw [places]
  constructor
  · intro ok
    have inside := (List.getElem?_eq_some_iff.mp ok).1
    rw [collectResults, length_map, finalize_ops c sound, length_map, length_writes] at inside
    have found := getElem?_eq_getElem inside
    obtain ⟨key, start, verdict, _, startAt, _, reached⟩ := h.each i _ found
    cases due : ops[i].needsEnd with
    | false => exact .inl (startAt.trans (congrArg some ((finalize_idle c sound reached found due).mp ok)))
    | true =>
      obtain ⟨j, dueAt⟩ := getElem?_of_mem (mem_endable.mpr ⟨found, due⟩)
      have answered : j < (c.masterClient.batchPutEnd ((endable ops).map (·.2.key))).length := by
        rw [answers, length_map]
        exact (List.getElem?_eq_some_iff.mp dueAt).1
      have answerAt := getElem?_eq_getElem answered
      rw [collect_ok (finalize_end c sound dueAt answerAt), finish_result] at ok
      rcases ok with fine | wrong
      · rw [fine] at answerAt
        exact .inr (mem_of_getElem? (i := j) (getElem?_zip_eq_some.mpr
          ⟨by rw [getElem?_map, dueAt]; rfl, answerAt⟩))
      · exact absurd (wrong ▸ getElem_mem answered) (sound.endError _)
  · rintro (existed | answered)
    · have inside : i < ops.length := startCount ▸ (List.getElem?_eq_some_iff.mp existed).1
      have found := getElem?_eq_getElem inside
      obtain ⟨key, start, verdict, _, startAt, _, reached⟩ := h.each i _ found
      cases startAt.symm.trans existed
      refine (finalize_idle c sound reached found ?_).mpr rfl
      cases reached with
      | refused same state bare result => simp [needsEnd, bare]
    · obtain ⟨j, zipped⟩ := getElem?_of_mem answered
      obtain ⟨placeAt, answerAt⟩ := getElem?_zip_eq_some.mp zipped
      rw [getElem?_map, map_eq_some_iff] at placeAt
      obtain ⟨⟨_, op⟩, dueAt, rfl⟩ := placeAt
      rw [collect_ok (finalize_end c sound dueAt answerAt), finish_result]
      exact .inl rfl

end

section
variable (keys : List String) (batchedSlices : List (List Slice)) (config : ReplicateConfig)

abbrev startsOf : List StartReply :=
  startReplies c config (createPutOperations keys batchedSlices)

abbrev startedOps : List PutOperation :=
  startBatchPut c config (createPutOperations keys batchedSlices)

/-- What the paths make of the transfers of each started key: the normal one looks at those of the
key, the one for one node at the batch of its segment. -/
def verdictsOf : List (Option Bool) :=
  let ops := createPutOperations keys batchedSlices
  let starts := startReplies c config ops
  if config.preferAllocInSameNode && config.replicaNum != 1 then []
  else if config.preferAllocInSameNode then
    starts.map (segmentTransferred (segToOps c (startBatchPut c config ops)))
  else (starts.zip batchedSlices).mapIdx (fun i p => p.1.toOption.map (memoryTransferred c i p.2))

/-- Whether the transfers of each started key succeed. -/
def transfersOf : List (Option Bool) :=
  if config.preferAllocInSameNode && config.replicaNum == 1 then
    let ops := createPutOperations keys batchedSlices
    ((startReplies c config ops).zip batchedSlices).map (ownTransferred c (segToOps c (startBatchPut c config ops)))
  else verdictsOf c keys batchedSlices config

def normalOps : List PutOperation :=
  ((startedOps c keys batchedSlices config).mapIdx (submitTransfer c)).map PutOperation.wait

def sameNodeOps : List PutOperation :=
  let started := startedOps c keys batchedSlices config
  started.map (shareState (segToOps c started))

end

/-- Of two keys with buffers in one segment, the transfers of one succeed and those of the other fail. -/
def Parted (starts : List StartReply) (transfers : List (Option Bool)) : Prop :=
  ∃ segment, ∃ a ∈ starts.zip transfers, ∃ b ∈ starts.zip transfers,
    a.1.place.map Prod.fst = some segment ∧ b.1.place.map Prod.fst = some segment ∧ a.2 = some true ∧ b.2 = some false

def diskKeys (keys : List String) (starts : List StartReply) : List String :=
  if c.storageBackend then
    (keys.zip starts).filterMap (fun p => (p.2.toOption.bind diskReplica).map (fun _ => p.1))
  else []

/-- The call and its pool have finalized what they started: one message about the memory
replicas of each started key, an end if its transfers succeeded and a revoke if not; one about
its disk replica; none for other keys. A key succeeds if its end does or the object exists. -/
structure PutOutcome.Finalized (keys : List String) (transfers : List (Option Bool)) (outcome : PutOutcome) :
    Prop where
  memory : outcome.sent = (keysWith true keys transfers).map (fun p => .putEnd p.2 .memory) ++
    (keysWith false keys transfers).map (fun p => .putRevoke p.2 .memory)
  disk : outcome.tasks.map (fun task => (task.run c).about) = (diskKeys c keys outcome.starts).map (fun key => (key, .disk))
  results : ∀ i : Nat, outcome.results[i]? = some (.ok ()) ↔
    outcome.starts[i]? = some (.error .objectAlreadyExists) ∨ (i, .ok ()) ∈ endReplies c keys transfers

variable {batchedSlices : List (List Slice)}

theorem createPutOperations_get : (createPutOperations keys batchedSlices)[i]? = some op ↔
    ∃ key slices, keys[i]? = some key ∧ batchedSlices[i]? = some slices ∧ op = { key := key, slices := slices } := by
  simp only [createPutOperations, getElem?_zipWith_eq_some, eq_comm (a := op)]

theorem createPutOperations_length (pairs : batchedSlices.length = keys.length) :
    (createPutOperations keys batchedSlices).length = keys.length := by
  simp [createPutOperations, pairs]

variable {reply : StartReply}

theorem checkSameNode_started (key : String) (slices : List Slice) (memory : reply.InMemory) :
    checkSameNode (PutOperation.start { key := key, slices := slices } reply) =
      PutOperation.start { key := key, slices := slices } reply := by
  cases reply with
  | error e => rfl
  | ok replicas =>
    obtain ⟨handle, more, status, rest, rfl⟩ := memory replicas rfl
    rfl

theorem storeTasks_started (i : Nat) (key : String) (slices : List Slice)
    (memory : ∀ replicas, reply = .ok replicas → replicas ≠ []) :
    (storeTasks c i (PutOperation.start { key := key, slices := slices } reply)).map (fun task => (task.run c).about) =
      if c.storageBackend then ((reply.toOption.bind diskReplica).map (fun _ => (key, ReplicaType.disk))).toList
      else [] := by
  have about : ∀ task : StoreTask, (task.run c).about = (task.key, .disk) := by
    intro task
    unfold StoreTask.run
    split <;> rfl
  simp only [about]
  cases reply with
  | error e => cases c.storageBackend <;> rfl
  | ok replicas =>
    have some := memory replicas rfl
    have tasks : storeTasks c i (start { key := key, slices := slices } (.ok replicas)) =
        putToLocalFile c i key slices replicas := by
      simp [storeTasks, start, isResolved, some]
    rw [tasks, putToLocalFile]
    cases c.storageBackend with
    | false => rfl
    | true => cases found : diskReplica replicas <;> simp [Except.toOption, found]

theorem batchPut_normal (config : ReplicateConfig) (plain : config.preferAllocInSameNode = false) :
    batchPut c keys batchedSlices config =
      { starts := startsOf c keys batchedSlices config
        results := collectResults (finalizeBatchPut c (normalOps c keys batchedSlices config)).1
        sent := (finalizeBatchPut c (normalOps c keys batchedSlices config)).2
        tasks := ((startedOps c keys batchedSlices config).mapIdx (storeTasks c)).flatten } := by
  simp [batchPut, plain, normalOps]

theorem zip_zip_map {α β γ : Type} (f : α × β → γ) : ∀ (xs : List α) (ys : List β),
    xs.zip ((xs.zip ys).map f) = (xs.zip ys).map (fun p => (p.1, f p))
  | [], _ | _ :: _, [] => rfl
  | _ :: xs, _ :: ys => congrArg (_ :: ·) (zip_zip_map f xs ys)

section
variable (sound : c.masterClient.Sound)
include sound

theorem startReplies_length (config : ReplicateConfig) (ops : List PutOperation) :
    (startReplies c config ops).length = ops.length := by
  rw [startReplies, sound.startSize, length_map]

theorem startedOps_eq (config : ReplicateConfig) : startedOps c keys batchedSlices config =
    (createPutOperations keys batchedSlices).zipWith PutOperation.start (startsOf c keys batchedSlices config) := by
  rw [startedOps, startBatchPut, if_pos (startReplies_length c sound config _)]

variable {config : ReplicateConfig}

theorem startedOps_get : (startedOps c keys batchedSlices config)[i]? = some op ↔
      ∃ key slices reply, keys[i]? = some key ∧ batchedSlices[i]? = some slices ∧
        (startsOf c keys batchedSlices config)[i]? = some reply ∧
        op = PutOperation.start { key := key, slices := slices } reply := by
  rw [startedOps_eq c sound, getElem?_zipWith_eq_some]
  constructor
  · rintro ⟨created, reply, createdAt, replyAt, rfl⟩
    obtain ⟨key, slices, keyAt, slicesAt, rfl⟩ := createPutOperations_get.mp createdAt
    exact ⟨key, slices, reply, keyAt, slicesAt, replyAt, rfl⟩
  · rintro ⟨key, slices, reply, keyAt, slicesAt, replyAt, rfl⟩
    exact ⟨_, reply, createPutOperations_get.mpr ⟨key, slices, keyAt, slicesAt, rfl⟩, replyAt, rfl⟩

theorem startReplies_memory {replicas : List ReplicaDescriptor}
    (at_i : (startReplies c config ops)[i]? = some (.ok replicas)) :
    ∃ handle more status rest, replicas = .memory (handle :: more) status :: rest :=
  sound.startMemory _ _ _ replicas (mem_of_getElem? at_i)

theorem checked_started (config : ReplicateConfig) :
    (startedOps c keys batchedSlices config).map checkSameNode = startedOps c keys batchedSlices config := by
  refine (map_congr_left (fun op member => ?_)).trans (map_id _)
  obtain ⟨i, inside, at_i⟩ := getElem_of_mem member
  obtain ⟨key, slices, reply, _, _, replyAt, rfl⟩ :=
    (startedOps_get c sound).mp (List.getElem?_eq_some_iff.mpr ⟨inside, at_i⟩)
  exact checkSameNode_started key slices (fun replicas same => startReplies_memory c sound (same ▸ replyAt))

theorem batchPut_sameNode (config : ReplicateConfig)
    (prefers : config.preferAllocInSameNode = true) (single : config.replicaNum = 1) :
    batchPut c keys batchedSlices config =
      { starts := startsOf c keys batchedSlices config
        results := collectResults (finalizeBatchPut c (sameNodeOps c keys batchedSlices config)).1
        sent := (finalizeBatchPut c (sameNodeOps c keys batchedSlices config)).2
        tasks := [] } := by
  simp [batchPut, prefers, single, batchPutWhenPreferSameNode, checked_started c sound, sameNodeOps]

variable (config) (pairs : batchedSlices.length = keys.length)
include pairs

theorem startedOps_length :
    (startedOps c keys batchedSlices config).length = keys.length := by
  rw [startedOps_eq c sound, length_zipWith, startReplies_length c sound, createPutOperations_length pairs,
    Nat.min_self]

theorem allReached_normal (plain : config.preferAllocInSameNode = false) :
    AllReached keys (startsOf c keys batchedSlices config)
      (verdictsOf c keys batchedSlices config) (normalOps c keys batchedSlices config) where
  keyCount := by simp [normalOps, startedOps_length c sound config pairs]
  verdictCount := by
    simp [normalOps, verdictsOf, plain, startedOps_length c sound config pairs, startReplies_length c sound,
      createPutOperations_length pairs, pairs]
  each := by
    intro i op found
    simp only [normalOps, getElem?_map, getElem?_mapIdx, Option.map_map, map_eq_some_iff] at found
    obtain ⟨started, startedAt, rfl⟩ := found
    obtain ⟨key, slices, reply, keyAt, slicesAt, replyAt, rfl⟩ := (startedOps_get c sound).mp startedAt
    refine ⟨key, reply, _, keyAt, replyAt, ?_, reached_normal c i key slices reply ?_⟩
    · have zipped : ((startsOf c keys batchedSlices config).zip batchedSlices)[i]? =
          some (reply, slices) := getElem?_zip_eq_some.mpr ⟨replyAt, slicesAt⟩
      simp [verdictsOf, plain, zipped]
    · rintro replicas rfl
      exact startReplies_memory c sound replyAt

section
variable {ops : List PutOperation} (begun : startedOps c keys batchedSlices config = ops)
  {puts : List (StartReply × List Slice)}
  (asked : (startsOf c keys batchedSlices config).zip batchedSlices = puts)
  {put : StartReply × List Slice} {segment : String} {replica : ReplicaDescriptor} {slices : List Slice}
include begun asked

/-- What goes into the batches of the segments are the puts that were started. -/
theorem mem_entries : (∃ key, (segment, (key, replica, slices)) ∈ ops.filterMap (fun op =>
      if op.isResolved then none else (segmentOf op).map (fun s => (s.1, (op.key, s.2, op.slices))))) ↔
    ∃ put ∈ puts, put.1.place = some (segment, replica) ∧ put.2 = slices := by
  have entry (key : String) (slices : List Slice) {i : Nat} {reply : StartReply}
      (replyAt : (startsOf c keys batchedSlices config)[i]? = some reply) :
      let op := PutOperation.start { key := key, slices := slices } reply
      (if op.isResolved then none else (segmentOf op).map (fun s => (s.1, (op.key, s.2, op.slices)))) =
        reply.place.map (fun s => (s.1, (key, s.2, slices))) := by
    cases reply with
    | error e => rfl
    | ok replicas =>
      obtain ⟨handle, more, status, rest, rfl⟩ := startReplies_memory c sound replyAt
      rfl
  simp only [mem_filterMap, ← begun, ← asked]
  constructor
  · rintro ⟨_, op, member, placed⟩
    obtain ⟨i, at_i⟩ := getElem?_of_mem member
    obtain ⟨key, slices, reply, _, slicesAt, replyAt, rfl⟩ := (startedOps_get c sound).mp at_i
    rw [entry key slices replyAt] at placed
    obtain ⟨_, there, same⟩ := map_eq_some_iff.mp placed
    cases same
    exact ⟨(reply, slices), mem_of_getElem? (getElem?_zip_eq_some.mpr ⟨replyAt, slicesAt⟩), there, rfl⟩
  · rintro ⟨put, member, placed, rfl⟩
    obtain ⟨i, at_i⟩ := getElem?_of_mem member
    obtain ⟨replyAt, slicesAt⟩ := getElem?_zip_eq_some.mp at_i
    have inside : i < keys.length := pairs ▸ (List.getElem?_eq_some_iff.mp slicesAt).1
    have startedAt := (startedOps_get c sound).mpr ⟨_, _, _, getElem?_eq_getElem inside, slicesAt, replyAt, rfl⟩
    exact ⟨keys[i], _, mem_of_getElem? startedAt, (entry _ _ replyAt).trans (by rw [placed]; rfl)⟩

theorem mem_members {group : SegGroup} (grouped : group ∈ segToOps c ops) :
    (replica, slices) ∈ group.members.map Prod.snd ↔
      ∃ put ∈ puts, put.1.place = some (group.segment, replica) ∧ put.2 = slices := by
  rw [← mem_entries c sound config pairs begun asked]
  obtain ⟨g, inside, rfl⟩ := mem_mapIdx.mp grouped
  constructor
  · intro member
    obtain ⟨⟨key, _⟩, listed, rfl⟩ := List.mem_map.mp member
    exact ⟨key, (Table.mem_collect (getElem_mem inside)).mp listed⟩
  · rintro ⟨key, entry⟩
    exact List.mem_map.mpr ⟨_, (Table.mem_collect (getElem_mem inside)).mpr entry, rfl⟩

variable (member : put ∈ puts)
include member

theorem segToOps_find (placed : put.1.place = some (segment, replica)) :
    ∃ group ∈ segToOps c ops, group.segment = segment ∧ (segToOps c ops).find? (·.segment == segment) = some group := by
  obtain ⟨key, entry⟩ := (mem_entries c sound config pairs begun asked).mpr ⟨put, member, placed, rfl⟩
  obtain ⟨members, present, _⟩ := Table.collect_of_mem entry
  obtain ⟨g, inside, same⟩ := getElem_of_mem present
  have found : ((segToOps c ops).find? (·.segment == segment)).isSome :=
    find?_isSome.mpr ⟨_, mem_mapIdx.mpr ⟨g, inside, rfl⟩, by simp [same]⟩
  obtain ⟨group, found⟩ := isSome_iff_exists.mp found
  exact ⟨group, mem_of_find?_eq_some found, by simpa using find?_some found, found⟩

/-- The put of a key is ended if the transfers of all keys of its segment succeed. -/
theorem ended_iff (placed : put.1.place = some (segment, replica)) :
    segmentTransferred (segToOps c ops) put.1 = some true ↔ ∀ other ∈ puts,
      other.1.place.map Prod.fst = some segment → ownTransferred c (segToOps c ops) other = some true := by
  obtain ⟨group, grouped, named, found⟩ := segToOps_find c sound config pairs begun asked member placed
  have verdict : segmentTransferred (segToOps c ops) put.1 = some (futureOk group.future) := by
    simp [segmentTransferred, placed, found]
  have own {other : StartReply × List Slice} {replica : ReplicaDescriptor}
    (there : other.1.place = some (segment, replica)) :
      ownTransferred c (segToOps c ops) other =
        some ((group.outcome c).any (TransferSubmitter.entryRequests .write (replica, other.2)).all) := by
    simp [ownTransferred, there, found]
  rw [verdict, some.injEq, futureOk_iff c grouped]
  constructor
  · rintro ⟨completes, answered, all⟩ other listed same
    obtain ⟨⟨_, replica⟩, there, rfl⟩ := map_eq_some_iff.mp same
    rw [own there, answered, any_some,
      all _ ((mem_members c sound config pairs begun asked grouped).mpr ⟨other, listed, named ▸ there, rfl⟩)]
  · intro all
    have mine := all put member (by rw [placed]; rfl)
    rw [own placed, some.injEq, Option.any_eq_true] at mine
    obtain ⟨completes, answered, _⟩ := mine
    refine ⟨completes, answered, fun (replica, slices) inside => ?_⟩
    obtain ⟨other, listed, there, rfl⟩ := (mem_members c sound config pairs begun asked grouped).mp inside
    rw [named] at there
    have fine := all other listed (by rw [there]; rfl)
    rwa [own there, some.injEq, answered] at fine

theorem own_of_ended (ended : segmentTransferred (segToOps c ops) put.1 = some true) :
    ownTransferred c (segToOps c ops) put = some true := by
  obtain ⟨⟨segment, replica⟩, placed, _⟩ := map_eq_some_iff.mp ended
  exact (ended_iff c sound config pairs begun asked member placed).mp ended put member (by rw [placed]; rfl)

theorem own_eq_verdict (whole : ∀ other ∈ puts, put.1.place.map Prod.fst = other.1.place.map Prod.fst →
      ownTransferred c (segToOps c ops) put = some true → ownTransferred c (segToOps c ops) other ≠ some false) :
    ownTransferred c (segToOps c ops) put = segmentTransferred (segToOps c ops) put.1 := by
  cases placed : put.1.place with
  | none => simp [ownTransferred, segmentTransferred, placed]
  | some place =>
    obtain ⟨own, transferred⟩ : ∃ own, ownTransferred c (segToOps c ops) put = some own :=
      ⟨_, by rw [ownTransferred, placed]; rfl⟩
    obtain ⟨ended, verdict⟩ : ∃ ended, segmentTransferred (segToOps c ops) put.1 = some ended :=
      ⟨_, by rw [segmentTransferred, placed]; rfl⟩
    cases own with
    | true =>
      rw [transferred]
      refine ((ended_iff c sound config pairs begun asked member placed).mpr fun other listed same => ?_).symm
      have fine := whole other listed (by rw [placed, same]; rfl) transferred
      obtain ⟨_, there, _⟩ := map_eq_some_iff.mp same
      simpa [ownTransferred, there] using fine
    | false =>
      cases ended with
      | true => exact absurd (transferred.symm.trans
          (own_of_ended c sound config pairs begun asked member verdict)) (by nofun)
      | false => rw [transferred, verdict]

end

theorem allReached_sameNode (prefers : config.preferAllocInSameNode = true) (single : config.replicaNum = 1) :
    AllReached keys (startsOf c keys batchedSlices config)
      (verdictsOf c keys batchedSlices config) (sameNodeOps c keys batchedSlices config) where
  keyCount := by simp [sameNodeOps, startedOps_length c sound config pairs]
  verdictCount := by
    simp [sameNodeOps, verdictsOf, prefers, single, startedOps_length c sound config pairs, startReplies_length c sound,
      createPutOperations_length pairs]
  each := by
    intro i op found
    simp only [sameNodeOps, getElem?_map, map_eq_some_iff] at found
    obtain ⟨started, startedAt, rfl⟩ := found
    obtain ⟨key, slices, reply, keyAt, slicesAt, replyAt, rfl⟩ := (startedOps_get c sound).mp startedAt
    have memory : reply.InMemory := fun replicas same => startReplies_memory c sound (same ▸ replyAt)
    refine ⟨key, reply, _, keyAt, replyAt, by simp [verdictsOf, prefers, single, replyAt]; rfl, ?_⟩
    rw [← checkSameNode_started key slices memory]
    refine reached_sameNode key slices reply (fun replicas same => ?_)
    obtain ⟨handle, more, status, rest, shape⟩ := memory replicas same
    subst same shape
    have asked : (_, slices) ∈ (startsOf c keys batchedSlices config).zip batchedSlices :=
      mem_of_getElem? (getElem?_zip_eq_some.mpr ⟨replyAt, slicesAt⟩)
    obtain ⟨group, _, _, found⟩ := segToOps_find c sound config pairs rfl rfl asked rfl
    exact ⟨handle, more, status, rest, rfl, group, found⟩

theorem storeTasks_about :
    ((startedOps c keys batchedSlices config).mapIdx (storeTasks c)).flatten.map
        (fun task => (task.run c).about) =
      (diskKeys c keys (startsOf c keys batchedSlices config)).map
        (fun key => (key, .disk)) := by
  have each : ((startedOps c keys batchedSlices config).mapIdx (storeTasks c)).map
      (map (fun task => (task.run c).about)) =
      (keys.zip (startsOf c keys batchedSlices config)).map (fun p =>
        if c.storageBackend then ((p.2.toOption.bind diskReplica).map (fun _ => (p.1, ReplicaType.disk))).toList
        else []) := by
    apply ext_getElem?
    intro i
    simp only [getElem?_map, getElem?_mapIdx, Option.map_map]
    cases startedAt : (startedOps c keys batchedSlices config)[i]? with
    | none =>
      have outside := getElem?_eq_none_iff.mp startedAt
      rw [startedOps_length c sound config pairs] at outside
      have missing : (keys.zip (startsOf c keys batchedSlices config))[i]? = none := by
        rw [List.getElem?_eq_none_iff, List.length_zip]
        omega
      rw [missing]
      rfl
    | some op =>
      obtain ⟨key, slices, reply, keyAt, _, replyAt, rfl⟩ := (startedOps_get c sound).mp startedAt
      have zipped : (keys.zip (startsOf c keys batchedSlices config))[i]? = some (key, reply) :=
        getElem?_zip_eq_some.mpr ⟨keyAt, replyAt⟩
      have memory : ∀ replicas, reply = .ok replicas → replicas ≠ [] := by
        intro replicas same
        obtain ⟨handle, more, status, rest, rfl⟩ := startReplies_memory c sound (same ▸ replyAt)
        exact List.cons_ne_nil _ _
      rw [zipped, map_some, map_some, Function.comp_apply, storeTasks_started c i key slices memory]
  rw [map_flatten, each, diskKeys]
  cases c.storageBackend with
  | false => simp
  | true =>
    simp only [if_true, map_filterMap, Option.map_map, ← flatMap_def]
    rw [List.filterMap_eq_flatMap_toList]
    rfl

theorem startReplies_count (ops : List PutOperation) (same : keys.length = ops.length) :
    (startsOf c keys batchedSlices config).length = ops.length := by
  rw [← same, startReplies_length c sound, createPutOperations_length pairs]

theorem batchPut_results (accepted : config.preferAllocInSameNode = true → config.replicaNum = 1) (i : Nat) :
    (batchPut c keys batchedSlices config).results[i]? = some (.ok ()) ↔
      (batchPut c keys batchedSlices config).starts[i]? = some (.error .objectAlreadyExists) ∨
        (i, .ok ()) ∈ endReplies c keys (verdictsOf c keys batchedSlices config) := by
  cases prefers : config.preferAllocInSameNode with
  | false =>
    have reached := allReached_normal c sound config pairs prefers
    rw [batchPut_normal c config prefers]
    exact finalize_results c sound reached (startReplies_count c sound config pairs _ reached.keyCount) i
  | true =>
    have reached := allReached_sameNode c sound config pairs prefers (accepted prefers)
    rw [batchPut_sameNode c sound config prefers (accepted prefers)]
    exact finalize_results c sound reached (startReplies_count c sound config pairs _ reached.keyCount) i

theorem finalized_normal (plain : config.preferAllocInSameNode = false) :
    (batchPut c keys batchedSlices config).Finalized c keys (transfersOf c keys batchedSlices config) := by
  have reached := allReached_normal c sound config pairs plain
  have results := batchPut_results c sound config pairs (by simp [plain])
  have own : transfersOf c keys batchedSlices config = verdictsOf c keys batchedSlices config := by
    simp [transfersOf, plain]
  rw [batchPut_normal c config plain] at results ⊢
  rw [own]
  exact ⟨finalize_sent c reached, storeTasks_about c sound config pairs, results⟩

theorem finalized_sameNode_iff (prefers : config.preferAllocInSameNode = true) (single : config.replicaNum = 1) :
    (batchPut c keys batchedSlices config).Finalized c keys (transfersOf c keys batchedSlices config) ↔
      diskKeys c keys (batchPut c keys batchedSlices config).starts = [] ∧
      ¬ Parted (batchPut c keys batchedSlices config).starts (transfersOf c keys batchedSlices config) := by
  have reached := allReached_sameNode c sound config pairs prefers single
  have results := batchPut_results c sound config pairs (fun _ => single)
  rw [batchPut_sameNode c sound config prefers single] at results ⊢
  generalize asked : (startsOf c keys batchedSlices config).zip batchedSlices = puts
  generalize begun : startedOps c keys batchedSlices config = ops
  have firsts : puts.map Prod.fst = startsOf c keys batchedSlices config := by
    rw [← asked]
    exact map_fst_zip (by rw [startReplies_length c sound, createPutOperations_length pairs, pairs])
  have verdicts : verdictsOf c keys batchedSlices config =
      puts.map (fun put => segmentTransferred (segToOps c ops) put.1) := by
    simp [verdictsOf, prefers, single, begun, ← firsts]
  have transfers : transfersOf c keys batchedSlices config = puts.map (ownTransferred c (segToOps c ops)) := by
    simp [transfersOf, prefers, single, asked, begun]
  have parts : ∀ {a}, a ∈ (startsOf c keys batchedSlices config).zip
      (transfersOf c keys batchedSlices config) ↔ ∃ put ∈ puts, (put.1, ownTransferred c (segToOps c ops) put) = a := by
    intro a
    rw [transfers, ← asked, zip_zip_map, List.mem_map]
  constructor
  · rintro ⟨memory, disk, _⟩
    refine ⟨map_eq_nil_iff.mp disk.symm, ?_⟩
    rintro ⟨segment, _, inside, _, inside', here, there, done, failed⟩
    obtain ⟨put, member, rfl⟩ := parts.mp inside
    obtain ⟨other, listed, rfl⟩ := parts.mp inside'
    obtain ⟨_, placed, rfl⟩ := map_eq_some_iff.mp here
    have ended_done : ∀ k : Nat, (verdictsOf c keys batchedSlices config)[k]? = some (some true) →
        (transfersOf c keys batchedSlices config)[k]? = some (some true) := by
      intro k verdict
      rw [verdicts, getElem?_map] at verdict
      obtain ⟨put, at_k, ended⟩ := map_eq_some_iff.mp verdict
      rw [transfers, getElem?_map, at_k, map_some,
        own_of_ended c sound config pairs begun asked (mem_of_getElem? at_k) ended]
    obtain ⟨k, at_k⟩ := getElem?_of_mem member
    have keyAt : keys[k]? = some _ := getElem?_eq_getElem (by
      have inside := (List.getElem?_eq_some_iff.mp at_k).1
      rw [← asked, length_zip, pairs] at inside
      omega)
    have ended := ended_of_done ((finalize_sent c reached).symm.trans memory) ended_done keyAt
      (by rw [transfers, getElem?_map, at_k]; exact congrArg some done)
    rw [verdicts, getElem?_map, at_k] at ended
    have fine := (ended_iff c sound config pairs begun asked member placed).mp (some.inj ended) other listed there
    cases failed.symm.trans fine
  · rintro ⟨unneeded, whole⟩
    have agree : transfersOf c keys batchedSlices config = verdictsOf c keys batchedSlices config := by
      rw [transfers, verdicts]
      refine map_congr_left fun put member => own_eq_verdict c sound config pairs begun asked member ?_
      intro other listed same done failed
      obtain ⟨⟨segment, _⟩, placed, _⟩ := map_eq_some_iff.mp done
      rw [placed] at same
      exact whole ⟨segment, _, parts.mpr ⟨put, member, rfl⟩, _, parts.mpr ⟨other, listed, rfl⟩, by rw [placed]; rfl,
        same.symm, done, failed⟩
    rw [agree]
    exact ⟨finalize_sent c reached, by simp [unneeded], results⟩

end

/-- Every started put of a batch is finalized, except that the path for one node leaves the disk
replicas of its keys to nobody, and revokes puts whose transfers succeeded when those of another
key with the same segment fail. -/
theorem batchPut_finalizes_iff (sound : c.masterClient.Sound) (config : ReplicateConfig)
    (pairs : batchedSlices.length = keys.length) :
    (batchPut c keys batchedSlices config).Finalized c keys (transfersOf c keys batchedSlices config) ↔
      ¬ (config.preferAllocInSameNode = true ∧
        (diskKeys c keys (batchPut c keys batchedSlices config).starts ≠ [] ∨
          Parted (batchPut c keys batchedSlices config).starts (transfersOf c keys batchedSlices config))) := by
  cases prefers : config.preferAllocInSameNode with
  | false => simpa using finalized_normal c sound config pairs prefers
  | true =>
    by_cases single : config.replicaNum = 1
    · rw [finalized_sameNode_iff c sound config pairs prefers single]
      simp
    · -- The call is refused before anything is started.
      have outcome : batchPut c keys batchedSlices config =
          { starts := [], results := keys.map (fun _ => .error .invalidParams), sent := [], tasks := [] } := by
        simp [batchPut, prefers, single]
      have unjudged : transfersOf c keys batchedSlices config = [] := by simp [transfersOf, verdictsOf, prefers, single]
      have unstarted : diskKeys c keys [] = [] := by simp [diskKeys]
      rw [outcome, unjudged]
      refine ⟨fun _ => by simp [unstarted, Parted],
        fun _ => ⟨by simp [keysWith, pick], by simp [unstarted], fun i => ?_⟩⟩
      rw [getElem?_map]
      simp [endReplies, keysWith, pick]

end

namespace Sample

def master : MasterClient where
  putStart _ _ _ := .ok [.memory [⟨8, 64, "node"⟩] .processing, .disk "/a" 8 .processing]
  batchPutStart keys _ _ := keys.map (fun _ => .ok [.memory [⟨8, 64, "node"⟩] .processing, .disk "/a" 8 .processing])
  putEnd _ _ := .ok ()
  putRevoke _ _ := .ok ()
  batchPutEnd keys := keys.map (fun _ => .ok ())
  batchPutRevoke keys := keys.map (fun _ => .ok ())

theorem master_sound : master.Sound where
  startSize := by simp [master]
  endSize := by simp [master]
  revokeSize := by simp [master]
  startMemory := by
    intro keys lengths config replicas started
    obtain ⟨_, _, same⟩ := mem_map.mp started
    cases Except.ok.inj same
    exact ⟨_, _, _, _, rfl⟩
  endError := by simp [master]

def writer : Context where
  transferSubmitter := submitter
  masterClient := master
  storageBackend := true
  storeObject _ _ := true

/-- The engine completes the requests for the slice at 8 only. -/
def halfway : Context :=
  { writer with
    transferSubmitter := { submitter with submitTransfer := fun _ _ => some (fun request => request.source == 8) }
    storageBackend := false }

end Sample

theorem batchPut_finalizes_two_keys :
    (batchPut Sample.writer ["a", "b"] [[⟨8, 8⟩], [⟨16, 8⟩]] {}).Finalized Sample.writer ["a", "b"]
      (transfersOf Sample.writer ["a", "b"] [[⟨8, 8⟩], [⟨16, 8⟩]] {}) :=
  (batchPut_finalizes_iff Sample.writer Sample.master_sound {} rfl).mpr (by simp)

/-- The path for one node ends the put of its key and never writes the file that it was given. Without
files, it revokes the put of a key whose transfer completes, for that of its neighbour fails. -/
theorem sameNode_forgets_disk_replica :
    (batchPut Sample.writer ["a"] [[⟨8, 8⟩]] { preferAllocInSameNode := true }).sent = [.putEnd "a" .memory] ∧
    (batchPut Sample.writer ["a"] [[⟨8, 8⟩]] { preferAllocInSameNode := true }).tasks = [] ∧
    diskKeys Sample.writer ["a"] (batchPut Sample.writer ["a"] [[⟨8, 8⟩]] { preferAllocInSameNode := true }).starts =
      ["a"] ∧
    ¬ (batchPut Sample.writer ["a"] [[⟨8, 8⟩]] { preferAllocInSameNode := true }).Finalized Sample.writer ["a"]
      (transfersOf Sample.writer ["a"] [[⟨8, 8⟩]] { preferAllocInSameNode := true }) ∧
    transfersOf Sample.halfway ["a", "b"] [[⟨8, 8⟩], [⟨16, 8⟩]] { preferAllocInSameNode := true } =
      [some true, some false] ∧
    (batchPut Sample.halfway ["a", "b"] [[⟨8, 8⟩], [⟨16, 8⟩]] { preferAllocInSameNode := true }).sent =
      [.putRevoke "a" .memory, .putRevoke "b" .memory] := by
  refine ⟨by decide, by decide, by decide, ?_, by decide, by decide⟩
  rintro ⟨_, disk, _⟩
  revert disk
  decide

end Mooncake.Client
