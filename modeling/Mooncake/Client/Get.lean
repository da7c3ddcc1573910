import Mooncake.Lib.Indexed
import Mooncake.Client.Transfer

/-! Reading objects. A query says which replicas an object has and until when its lease
protects them; the read paths transfer from one replica and look at the clock. The log of a
call has its waits and its clock readings in order, so that one can say what came after what.
The readings that only feed the latency metrics are left out. -/
namespace Mooncake.Client

open Option List Indexed
open Master (ErrorCode ReplicaDescriptor ReplicaStatus)

/-- The lease counts from the start of the query. -/
structure QueryResult where
  replicas : List ReplicaDescriptor
  leaseTimeout : Int
deriving DecidableEq

def QueryResult.isLeaseExpired (q : QueryResult) (now : Int) : Bool := decide (q.leaseTimeout ≤ now)

def findFirstCompleteReplica (replicas : List ReplicaDescriptor) : Except ErrorCode ReplicaDescriptor :=
  match replicas.find? (fun r => r.status == .complete) with
  | some replica => .ok replica
  | none => .error .invalidReplica

inductive ReadEvent where
  /-- The future that carries the transfer of the key at place `i` has been waited for. -/
  | completed (i : Nat) (future : TransferFuture)
  | clock (now : Int)
deriving DecidableEq

abbrev Results : Type := List (Except ErrorCode Unit)

section
variable (t : TransferSubmitter)

def transferRead (i : Nat) (replica : ReplicaDescriptor) (slices : List Slice) : ErrorCode × List ReadEvent :=
  if calculateSliceSize slices < calculateTotalSize replica then (.invalidParams, [])
  else
    match t.submit i replica slices .read with
    | none => (.transferFail, [])
    | some future => (future.result, [.completed i future])

/-- A reading of the clock may depend on all that happened before it. -/
def get (clock : List ReadEvent → Int) (q : QueryResult) (slices : List Slice) :
    Except ErrorCode Unit × List ReadEvent :=
  match findFirstCompleteReplica q.replicas with
  | .error e => (.error e, [])
  | .ok replica =>
    let read := transferRead t 0 replica slices
    if read.1 = .ok then
      let now := clock read.2
      (if q.isLeaseExpired now then .error .leaseExpired else .ok (), read.2 ++ [.clock now])
    else (.error read.1, read.2)

structure BatchGetEntry where
  keyIndex : Nat
  replica : ReplicaDescriptor
  slices : List Slice
deriving DecidableEq

variable (slices : Table String (List Slice))

def sameNodeEntry (key : String) (q : QueryResult) : Except ErrorCode (String × ReplicaDescriptor × List Slice) :=
  match slices.lookup key with
  | none => .error .invalidParams
  | some found =>
    match findFirstCompleteReplica q.replicas with
    | .error e => .error e
    | .ok (.memory (handle :: more) status) =>
      .ok (handle.transportEndpoint, .memory (handle :: more) status, found)
    | .ok _ => .error .invalidReplica

variable (checked : List (Except ErrorCode (String × ReplicaDescriptor × List Slice)))

def segEntries : List (String × BatchGetEntry) :=
  (Indexed.pick Except.toOption checked).map (fun p => (p.2.1, ⟨p.1, p.2.2.1, p.2.2.2⟩))

def segToOpMap : Table String (List BatchGetEntry) :=
  Table.collect (segEntries checked)

def submitGroups (groups : Table String (List BatchGetEntry)) : List (List BatchGetEntry × Option TransferFuture) :=
  groups.entries.mapIdx (fun g e =>
    (e.2, t.submitBatch g (e.2.map (fun entry => (entry.replica, entry.slices))) .read))

def groupResult (future : Option TransferFuture) : Except ErrorCode Unit :=
  match future with
  | none => .error .transferFail
  | some future => if future.result = .ok then .ok () else .error .transferFail

def groupLog (group : List BatchGetEntry × Option TransferFuture) : List ReadEvent :=
  match group.2 with
  | none => []
  | some future => group.1.map (fun entry => .completed entry.keyIndex future)

def batchGetWhenPreferSameNode (objectKeys : List String) (queryResults : List QueryResult)
    (slices : Table String (List Slice)) : Results × List ReadEvent :=
  let checked := (objectKeys.zip queryResults).map (fun p => sameNodeEntry slices p.1 p.2)
  let groups := submitGroups t (segToOpMap checked)
  let written := groups.flatMap (fun group => group.1.map (fun entry => (entry.keyIndex, groupResult group.2)))
  (Indexed.writes (checked.map (Except.map (fun _ => ()))) written, groups.flatMap groupLog)

def submitRead (i : Nat) (key : String) (q : QueryResult) : Except ErrorCode TransferFuture :=
  match slices.lookup key with
  | none => .error .invalidParams
  | some found =>
    match findFirstCompleteReplica q.replicas with
    | .error e => .error e
    | .ok replica =>
      match t.submit i replica found .read with
      | none => .error .transferFail
      | some future => .ok future

def submitReads (objectKeys : List String) (queryResults : List QueryResult) :
    List (Except ErrorCode TransferFuture) :=
  (objectKeys.zip queryResults).mapIdx (fun i p => submitRead t slices i p.1 p.2)

variable (submitted : List (Except ErrorCode TransferFuture))

def waitLog : List ReadEvent :=
  (Indexed.pick Except.toOption submitted).map (fun p => .completed p.1 p.2)

def waitResults : Results :=
  Indexed.writes (submitted.map (Except.map (fun _ => ())))
    ((Indexed.pick Except.toOption submitted).map (fun p =>
      (p.1, if p.2.result = .ok then .ok () else .error p.2.result)))

def checkLease (now : Int) (result : Except ErrorCode Unit) (q : QueryResult) : Except ErrorCode Unit :=
  match result with
  | .ok () => if q.isLeaseExpired now then .error .leaseExpired else .ok ()
  | .error e => .error e

/-- All results are held against one reading of the clock, taken after the last wait. -/
def batchGet (clock : List ReadEvent → Int) (objectKeys : List String) (queryResults : List QueryResult)
    (slices : Table String (List Slice)) (preferAllocInSameNode : Bool := false) : Results × List ReadEvent :=
  if queryResults.length ≠ objectKeys.length then (objectKeys.map (fun _ => .error .invalidParams), [])
  else if preferAllocInSameNode then batchGetWhenPreferSameNode t objectKeys queryResults slices
  else
    let submitted := submitReads t slices objectKeys queryResults
    let now := clock (waitLog submitted)
    ((waitResults submitted).zipWith (checkLease now) queryResults, waitLog submitted ++ [.clock now])

end

variable {submitted : List (Except ErrorCode TransferFuture)}

theorem waitResults_ok {i : Nat} :
    (waitResults submitted)[i]? = some (.ok ()) ↔ ∃ future, submitted[i]? = some (.ok future) ∧ future.result = .ok := by
  constructor
  · intro waited
    rcases mem_of_getElem?_writes waited with written | ⟨untouched, kept⟩
    · obtain ⟨⟨_, future⟩, picked, same⟩ := mem_map.mp written
      obtain ⟨rfl, fine⟩ := Prod.mk.inj same
      refine ⟨future, mem_pick_ok.mp picked, ?_⟩
      by_contra wrong
      simp [wrong] at fine
    · obtain ⟨outcome, found, ok⟩ := map_eq_some_iff.mp (getElem?_map.symm.trans kept)
      cases outcome with
      | error e => cases ok
      | ok future =>
        rw [List.map_map] at untouched
        exact absurd (mem_map.mpr ⟨(i, future), mem_pick_ok.mpr found, rfl⟩) untouched
  · rintro ⟨future, found, fine⟩
    refine getElem?_writes_of_mem ?_ (mem_map.mpr ⟨_, mem_pick_ok.mpr found, ?_⟩) ?_
    · rw [List.map_map]
      exact nodup_pick Except.toOption submitted
    · simp [fine]
    · rw [length_map]
      exact (List.getElem?_eq_some_iff.mp found).1

theorem checkLease_ok {now : Int} {result : Except ErrorCode Unit} {q : QueryResult} :
    checkLease now result q = .ok () ↔ result = .ok () ∧ now < q.leaseTimeout := by
  cases result with
  | error e => simp [checkLease]
  | ok =>
    by_cases late : q.leaseTimeout ≤ now
    · simp [checkLease, QueryResult.isLeaseExpired, late]
    · simp [checkLease, QueryResult.isLeaseExpired, late, not_le.mp late]

theorem mem_waitLog {i : Nat} {future : TransferFuture} :
    .completed i future ∈ waitLog submitted ↔ submitted[i]? = some (.ok future) := by
  simp [waitLog, mem_pick_ok]

variable (t : TransferSubmitter) (clock : List ReadEvent → Int)

variable {slices : Table String (List Slice)} {queryResults : List QueryResult} {objectKeys : List String}
    {checked : List (Except ErrorCode (String × ReplicaDescriptor × List Slice))} {replica : ReplicaDescriptor}
    {q : QueryResult} {i : Nat} {future : TransferFuture} {segment key : String} {dst : List Slice}

/-- The key at place `i` of a read without preference succeeds exactly if its transfer does
and the clock, read after all transfers, is still before the end of the lease. -/
theorem batchGet_ok :
    (batchGet t clock objectKeys queryResults slices).1[i]? = some (.ok ()) ↔
      queryResults.length = objectKeys.length ∧ ∃ q future, queryResults[i]? = some q ∧
        (submitReads t slices objectKeys queryResults)[i]? = some (.ok future) ∧ future.result = .ok ∧
        clock (waitLog (submitReads t slices objectKeys queryResults)) < q.leaseTimeout := by
  unfold batchGet
  by_cases sizes : queryResults.length = objectKeys.length
  · rw [if_neg (not_not.mpr sizes), if_neg Bool.false_ne_true]
    simp only [getElem?_zipWith_eq_some, checkLease_ok, exists_and_left, sizes, true_and]
    constructor
    · rintro ⟨r, waited, q, found, rfl, before⟩
      obtain ⟨future, submitted, fine⟩ := waitResults_ok.mp waited
      exact ⟨q, found, future, submitted, fine, before⟩
    · rintro ⟨q, found, future, submitted, fine, before⟩
      exact ⟨.ok (), waitResults_ok.mpr ⟨future, submitted, fine⟩, q, found, rfl, before⟩
  · rw [if_pos sizes, getElem?_map]
    simp [sizes]

theorem findFirstCompleteReplica_ok {replicas : List ReplicaDescriptor}
    (chosen : findFirstCompleteReplica replicas = .ok replica) : replica ∈ replicas ∧ replica.status = .complete := by
  unfold findFirstCompleteReplica at chosen
  split at chosen
  next found =>
    cases Except.ok.inj chosen
    exact ⟨mem_of_find?_eq_some found, by simpa using find?_some found⟩
  next => cases chosen

theorem submitRead_ok (submitted : submitRead t slices i key q = .ok future) :
    ∃ dst replica, slices.lookup key = some dst ∧ findFirstCompleteReplica q.replicas = .ok replica ∧
      t.submit i replica dst .read = some future := by
  unfold submitRead at submitted
  cases found : slices.lookup key with
  | none => simp [found] at submitted
  | some dst =>
    cases chosen : findFirstCompleteReplica q.replicas with
    | error e => simp [found, chosen] at submitted
    | ok replica =>
      cases taken : t.submit i replica dst .read with
      | none => simp [found, chosen, taken] at submitted
      | some future' =>
        simp only [found, chosen, taken, Except.ok.injEq] at submitted
        exact ⟨dst, replica, rfl, rfl, submitted ▸ taken⟩

theorem sameNodeEntry_ok (checked : sameNodeEntry slices key q = .ok (segment, replica, dst)) :
    slices.lookup key = some dst ∧ findFirstCompleteReplica q.replicas = .ok replica := by
  unfold sameNodeEntry at checked
  cases found : slices.lookup key with
  | none => simp [found] at checked
  | some dst' =>
    simp only [found] at checked
    split at checked
    next => cases checked
    next chosen =>
      cases Except.ok.inj checked
      exact ⟨rfl, chosen⟩
    next => cases checked

theorem mem_group {group : List BatchGetEntry × Option TransferFuture} {entry : BatchGetEntry}
    (grouped : group ∈ submitGroups t (segToOpMap checked)) (listed : entry ∈ group.1) :
    ∃ outcome, checked[entry.keyIndex]? = some (.ok outcome) ∧ outcome.2 = (entry.replica, entry.slices) := by
  obtain ⟨g, inside, rfl⟩ := mem_mapIdx.mp grouped
  have present : ⟨((segToOpMap checked).entries[g]).1, ((segToOpMap checked).entries[g]).2⟩ ∈
      (Table.collect (segEntries checked)).entries := getElem_mem inside
  rw [(Table.mem_entries_collect.mp present).1] at listed
  obtain ⟨pair, filtered, rfl⟩ := mem_map.mp listed
  obtain ⟨picked, member, rfl⟩ := mem_map.mp (mem_filter.mp filtered).1
  obtain ⟨outcome, found, ok⟩ := mem_pick.mp member
  cases outcome with
  | error e => cases ok
  | ok outcome =>
    cases ok
    exact ⟨_, found, rfl⟩

theorem group_of_checked (checkedAt : checked[i]? = some (.ok (segment, replica, dst))) :
    ∃ group ∈ submitGroups t (segToOpMap checked), ⟨i, replica, dst⟩ ∈ group.1 := by
  have picked : (i, segment, replica, dst) ∈ pick Except.toOption checked :=
    mem_pick.mpr ⟨_, checkedAt, rfl⟩
  have entry : (segment, ⟨i, replica, dst⟩) ∈ segEntries checked := mem_map.mpr ⟨_, picked, rfl⟩
  obtain ⟨members, present, listed⟩ : ∃ members, ⟨segment, members⟩ ∈ (segToOpMap checked).entries ∧
      ⟨i, replica, dst⟩ ∈ members := Table.collect_of_mem entry
  obtain ⟨g, inside, same⟩ := getElem_of_mem present
  exact ⟨_, mem_mapIdx.mpr ⟨g, inside, rfl⟩, by rw [same]; exact listed⟩

/-- A key that succeeds on the path for one node has passed the checks, and the batch of its
segment, of which it is part, has succeeded. -/
theorem sameNode_ok (success : (batchGetWhenPreferSameNode t objectKeys queryResults slices).1[i]? = some (.ok ())) :
    ∃ key q segment replica dst g entries future, objectKeys[i]? = some key ∧ queryResults[i]? = some q ∧
      sameNodeEntry slices key q = .ok (segment, replica, dst) ∧ (replica, dst) ∈ entries ∧
      t.submitBatch g entries .read = some future ∧ future.result = .ok ∧
      .completed i future ∈ (batchGetWhenPreferSameNode t objectKeys queryResults slices).2 := by
  simp only [batchGetWhenPreferSameNode] at success ⊢
  generalize listed_eq : (objectKeys.zip queryResults).map (fun p => sameNodeEntry slices p.1 p.2) = checked at success ⊢
  rcases mem_of_getElem?_writes success with written | ⟨untouched, kept⟩
  · obtain ⟨group, grouped, member⟩ := mem_flatMap.mp written
    obtain ⟨entry, listed, same⟩ := mem_map.mp member
    obtain ⟨rfl, fine⟩ := Prod.mk.inj same
    obtain ⟨⟨segment, replica, dst⟩, checkedAt, parts⟩ := mem_group t grouped listed
    cases parts
    rw [← listed_eq, getElem?_map] at checkedAt
    obtain ⟨⟨key, q⟩, zipped, entryOk⟩ := map_eq_some_iff.mp checkedAt
    obtain ⟨keyAt, queryAt⟩ := getElem?_zip_eq_some.mp zipped
    obtain ⟨g, inside, submitted⟩ := mem_mapIdx.mp grouped
    cases future : group.2 with
    | none => simp [future, groupResult] at fine
    | some f =>
      refine ⟨key, q, segment, _, _, g, group.1.map (fun entry => (entry.replica, entry.slices)), f, keyAt, queryAt,
        entryOk, mem_map.mpr ⟨_, listed, rfl⟩, by rw [← future, ← submitted], ?_, ?_⟩
      · by_contra wrong
        simp [future, groupResult, wrong] at fine
      · refine mem_flatMap.mpr ⟨group, grouped, ?_⟩
        rw [groupLog, future]
        exact mem_map.mpr ⟨_, listed, rfl⟩
  · -- A key that has passed the checks is in a group.
    obtain ⟨outcome, checkedAt, ok⟩ := map_eq_some_iff.mp (getElem?_map.symm.trans kept)
    cases outcome with
    | error e => cases ok
    | ok entry =>
      obtain ⟨group, grouped, listed⟩ := group_of_checked t checkedAt
      refine absurd (mem_map.mpr ⟨(i, groupResult group.2), mem_flatMap.mpr ⟨group, grouped, ?_⟩, rfl⟩) untouched
      exact mem_map.mpr ⟨_, listed, rfl⟩

/-- Every transfer that a call has waited for was submitted for slices of its table. -/
theorem batchGet_log {preferAllocInSameNode : Bool}
    (waited : .completed i future ∈ (batchGet t clock objectKeys queryResults slices preferAllocInSameNode).2) :
    (∃ key dst replica, slices.lookup key = some dst ∧ t.submit i replica dst .read = some future) ∨
      ∃ g entries, t.submitBatch g entries .read = some future ∧
        ∀ entry ∈ entries, ∃ key, slices.lookup key = some entry.2 := by
  unfold batchGet at waited
  split at waited
  · cases waited
  · split at waited
    · obtain ⟨group, grouped, logged⟩ := mem_flatMap.mp waited
      obtain ⟨g, batch⟩ : ∃ g, group.2 =
        t.submitBatch g (group.1.map (fun entry => (entry.replica, entry.slices))) .read := by
        obtain ⟨g, _, rfl⟩ := mem_mapIdx.mp grouped
        exact ⟨g, rfl⟩
      have submitted : group.2 = some future := by
        unfold groupLog at logged
        split at logged
        · cases logged
        next f submitted =>
          obtain ⟨entry, -, same⟩ := mem_map.mp logged
          cases same
          exact submitted
      refine .inr ⟨g, _, batch.symm.trans submitted, fun entry listed => ?_⟩
      obtain ⟨member, inside, rfl⟩ := mem_map.mp listed
      obtain ⟨⟨segment, replica, dst⟩, checkedAt, same⟩ := mem_group t grouped inside
      obtain ⟨⟨key, q⟩, -, entryOk⟩ := map_eq_some_iff.mp (getElem?_map.symm.trans checkedAt)
      cases same
      exact ⟨key, (sameNodeEntry_ok entryOk).1⟩
    · rcases mem_append.mp waited with submitted | reading
      · obtain ⟨⟨key, q⟩, -, submitted⟩ :=
          map_eq_some_iff.mp (getElem?_mapIdx.symm.trans (mem_waitLog.mp submitted))
        obtain ⟨dst, replica, found, -, taken⟩ := submitRead_ok t submitted
        exact .inl ⟨key, dst, replica, found, taken⟩
      · cases mem_singleton.mp reading

theorem length_batchGet (slices : Table String (List Slice)) (preferAllocInSameNode : Bool)
    (sizes : queryResults.length = objectKeys.length) :
    (batchGet t clock objectKeys queryResults slices preferAllocInSameNode).1.length = objectKeys.length := by
  rw [batchGet, if_neg (not_not.mpr sizes)]
  cases preferAllocInSameNode with
  | true => simp [batchGetWhenPreferSameNode, sizes]
  | false => simp [waitResults, submitReads, sizes]

/-- The transfer of the key at place `i` has completed, and a reading of the clock taken after
that is before the end of the lease. -/
def ReadInTime (q : QueryResult) (i : Nat) (log : List ReadEvent) : Prop :=
  ∃ before future after now, log = before ++ .completed i future :: after ∧ future.result = .ok ∧
    .clock now ∈ after ∧ now < q.leaseTimeout

def BatchInTime (queryResults : List QueryResult) (outcome : Results × List ReadEvent) : Prop :=
  ∀ i, outcome.1[i]? = some (.ok ()) → ∃ q, queryResults[i]? = some q ∧ ReadInTime q i outcome.2

/-- A read that succeeds has transferred from the first complete replica, and has then found the
clock before the end of the lease. -/
theorem get_ok {slices : List Slice} (success : (get t clock q slices).1 = .ok ()) :
    ∃ replica future now, findFirstCompleteReplica q.replicas = .ok replica ∧
      t.submit 0 replica slices .read = some future ∧ future.result = .ok ∧
      (get t clock q slices).2 = [.completed 0 future, .clock now] ∧ now < q.leaseTimeout := by
  unfold get at success ⊢
  cases chosen : findFirstCompleteReplica q.replicas with
  | error e => simp [chosen] at success
  | ok replica =>
    simp only [chosen] at success ⊢
    by_cases done : (transferRead t 0 replica slices).1 = .ok
    · rw [if_pos done] at success ⊢
      have early : clock (transferRead t 0 replica slices).2 < q.leaseTimeout := by
        by_contra late
        simp [QueryResult.isLeaseExpired, not_lt.mp late] at success
      unfold transferRead at done early ⊢
      split at done
      next => cases done
      next large =>
        simp only [if_neg large] at early ⊢
        split at done
        next => cases done
        next future submitted =>
          simp only [submitted] at early ⊢
          exact ⟨replica, future, _, rfl, submitted, done, rfl, early⟩
    · rw [if_neg done] at success
      cases success

theorem get_inTime {slices : List Slice} (success : (get t clock q slices).1 = .ok ()) :
    ReadInTime q 0 (get t clock q slices).2 := by
  obtain ⟨replica, future, now, -, -, fine, log, early⟩ := get_ok t clock success
  rw [log]
  exact ⟨[], future, [.clock now], now, rfl, fine, mem_singleton.mpr rfl, early⟩

theorem batchGet_inTime (objectKeys : List String) (queryResults : List QueryResult)
    (slices : Table String (List Slice)) :
    BatchInTime queryResults (batchGet t clock objectKeys queryResults slices) := by
  intro i success
  obtain ⟨sizes, q, future, found, submitted, fine, early⟩ := (batchGet_ok t clock).mp success
  refine ⟨q, found, ?_⟩
  obtain ⟨before, after, split⟩ := append_of_mem (mem_waitLog.mpr submitted)
  refine ⟨before, future, after ++ [.clock _], _, ?_, fine, mem_append.mpr (.inr (mem_singleton.mpr rfl)), early⟩
  rw [batchGet, if_neg (not_not.mpr sizes), if_neg Bool.false_ne_true]
  simp only [split, append_assoc, cons_append]

/-- The path for one node waits for its transfers and never looks at the clock. -/
theorem sameNode_reads_no_clock (objectKeys : List String) (queryResults : List QueryResult)
    (slices : Table String (List Slice)) (now : Int) :
    .clock now ∉ (batchGetWhenPreferSameNode t objectKeys queryResults slices).2 := by
  simp only [batchGetWhenPreferSameNode, mem_flatMap, not_exists, not_and]
  intro group _ read
  unfold groupLog at read
  split at read
  · cases read
  · simp at read

/-- So a success of that path is never held against the clock. -/
theorem sameNode_not_inTime (q : QueryResult) (i : Nat) :
    ¬ ReadInTime q i (batchGet t clock objectKeys queryResults slices true).2 := by
  rintro ⟨before, future, after, now, log, _, reading, _⟩
  have looked : .clock now ∈ (batchGet t clock objectKeys queryResults slices true).2 := by
    rw [log]
    exact mem_append.mpr (.inr (mem_cons_of_mem _ reading))
  unfold batchGet at looked
  split at looked
  · cases looked
  · rw [if_pos rfl] at looked
    exact sameNode_reads_no_clock t objectKeys queryResults slices now looked

/-- A read with `Get` succeeds only if the clock was before the end of the lease after the transfer.
Of a key that a batch read reports as a success, this is so exactly without the preference for one node. -/
theorem reads_in_time_iff (q : QueryResult) (dst : List Slice) (objectKeys : List String)
    (queryResults : List QueryResult) (slices : Table String (List Slice)) (preferAllocInSameNode : Bool) :
    ((get t clock q dst).1 = .ok () → ReadInTime q 0 (get t clock q dst).2) ∧
    ∀ i : Nat, (batchGet t clock objectKeys queryResults slices preferAllocInSameNode).1[i]? = some (Except.ok ()) →
      ((∃ q, queryResults[i]? = some q ∧
          ReadInTime q i (batchGet t clock objectKeys queryResults slices preferAllocInSameNode).2) ↔
        preferAllocInSameNode = false) := by
  refine ⟨get_inTime t clock, fun i success => ?_⟩
  cases preferAllocInSameNode with
  | false => exact iff_of_true (batchGet_inTime t clock objectKeys queryResults slices i success) rfl
  | true =>
    refine iff_of_false ?_ nofun
    rintro ⟨q, _, read⟩
    exact sameNode_not_inTime t clock q i read

namespace Sample

def wholeReplica : ReplicaDescriptor := .memory [⟨8, 64, "node"⟩] .complete

def oneKey (slices : List Slice) : Table String (List Slice) := (∅ : Table String (List Slice)).insert "a" slices

end Sample

/-- The lease ends at 10 and the transfers at 1000: the path for one node reports success. -/
theorem sameNode_reads_after_lease :
    (batchGet Sample.submitter (fun _ => 1000) ["a"] [⟨[Sample.wholeReplica], 10⟩] (Sample.oneKey [⟨8, 8⟩]) true).1 =
      [.ok ()] ∧
    ¬ BatchInTime [⟨[Sample.wholeReplica], 10⟩]
      (batchGet Sample.submitter (fun _ => 1000) ["a"] [⟨[Sample.wholeReplica], 10⟩] (Sample.oneKey [⟨8, 8⟩]) true) ∧
    (batchGet Sample.submitter (fun _ => 1000) ["a"] [⟨[Sample.wholeReplica], 10⟩] (Sample.oneKey [⟨8, 8⟩])).1 =
      [.error .leaseExpired] := by
  have success : (batchGet Sample.submitter (fun _ => 1000) ["a"] [⟨[Sample.wholeReplica], 10⟩]
      (Sample.oneKey [⟨8, 8⟩]) true).1 = [.ok ()] := by decide
  refine ⟨success, fun inTime => ?_, by decide⟩
  obtain ⟨q, _, read⟩ := inTime 0 (by rw [success]; rfl)
  exact sameNode_not_inTime _ _ q 0 read

end Mooncake.Client
