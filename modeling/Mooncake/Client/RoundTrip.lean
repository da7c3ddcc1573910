import Mooncake.Master.Registration
import Mooncake.Client.Get
import Mooncake.Client.Service
import Mooncake.Client.Slicing

/-! What is read is what was put. A put leaves the bytes of its slices in every replica that it
completes, and a read takes them from the replica that it picks: the two halves meet at what is
stored. In between the buffers and the files stay as they are. -/
namespace Mooncake.Client

open Option List
open Master (BufferDescriptor ReplicaDescriptor ReplicateConfig)

inductive PutCall where
  | put (key : String) (slices : List Slice)
  | batchPut (keys : List String) (batchedSlices : List (List Slice))

namespace PutCall
variable (c : Context) (config : ReplicateConfig)

def outcome : PutCall → PutOutcome
  | put key slices => Client.put c key slices config
  | batchPut keys batchedSlices => Client.batchPut c keys batchedSlices config

def sources : PutCall → List (List Slice)
  | put _ slices => [slices]
  | batchPut _ batchedSlices => batchedSlices

def Paired : PutCall → Prop
  | put _ _ => True
  | batchPut keys batchedSlices => batchedSlices.length = keys.length

def waited : PutCall → List (Nat × TransferFuture)
  | put key slices =>
    match c.masterClient.putStart key (slices.map (·.size)) config with
    | .error _ => []
    | .ok replicas => (transferWrites c slices replicas).2.map (fun future => (0, future))
  | batchPut keys batchedSlices =>
    let started := startBatchPut c config (createPutOperations keys batchedSlices)
    if config.preferAllocInSameNode then Indexed.pick SegGroup.future (segToOps c started)
    else (started.mapIdx (fun i op => (submitTransfer c i op).pendingTransfers.map (fun future => (i, future)))).flatten

/-- The slices at place `i` have been stored: the call has started their put and reports success,
and what it has waited for and left to the pool has been performed. -/
structure Stored (call : PutCall) (i : Nat) (source : Slicing) (replicas : List ReplicaDescriptor) (files : Files)
    (m m' : Memory) : Prop where
  paired : call.Paired
  success : (call.outcome c config).results[i]? = some (Except.ok ())
  started : (call.outcome c config).starts[i]? = some (Except.ok replicas)
  slices : call.sources[i]? = some source.slices
  real : source.Real
  prepared : source.Prepared (m c.transferSubmitter.localIpAndPort)
  small : calculateSliceSize source.slices < 2 ^ 64
  performed : ∀ p ∈ call.waited c config, p.2.Performed c.transferSubmitter p.1 files m m'
  written : ∀ task ∈ (call.outcome c config).tasks, c.storeObject task.place task.path = true →
    files task.path = gather (m c.transferSubmitter.localIpAndPort) task.slices

end PutCall

/-- The replicas of the put at place `i` that may be complete: those in memory, and the file that
the pool was left with and has written. -/
inductive Ready (c : Context) (outcome : PutOutcome) (i : Nat) (replicas : List ReplicaDescriptor) :
    ReplicaDescriptor → Prop
  | memory {handles : List BufferDescriptor} {status : Master.ReplicaStatus} (given : .memory handles status ∈ replicas) :
      Ready c outcome i replicas (.memory handles .complete)
  | disk {task : StoreTask} {size : Nat} {status : Master.ReplicaStatus} (given : .disk task.path size status ∈ replicas)
      (left : task ∈ outcome.tasks) (place : task.place = i) (written : c.storeObject task.place task.path = true) :
      Ready c outcome i replicas (.disk task.path size .complete)

/-! Writing. -/

/-- What the master allots to a put: in memory one buffer for each slice, or one for all of them
on the path for one node, which has a single replica; on disk a file of the size of the value. -/
structure Allotted (merged : Bool) (src : List Slice) (replicas : List ReplicaDescriptor) : Prop where
  buffers : ∀ handles status, .memory handles status ∈ replicas →
    handles.map (·.size) = if merged then [calculateSliceSize src] else src.map (·.size)
  single : merged = true → ∀ r ∈ replicas.tail, r.isMemoryReplica = false
  file : ∀ path size status, .disk path size status ∈ replicas → size = calculateSliceSize src

theorem allotted_of_handedOut {key : String} {config : ReplicateConfig} {merged : Bool} {src : List Slice}
    {sizes : List Nat} {replicas : List ReplicaDescriptor} (handed : Master.HandedOut key sizes config replicas)
    (small : calculateSliceSize src < 2 ^ 64)
    (asked : sizes = if merged then [calculateSliceSize src] else src.map (·.size))
    (single : merged = true → config.replicaNum = 1) : Allotted merged src replicas := by
  obtain ⟨-, memory, disk, rfl, some_replica, short, sized, files⟩ := handed.allotment
  have total : sizes.sum = calculateSliceSize src := by
    rw [asked]
    cases merged
    · rfl
    · simp
  rw [total, Nat.mod_eq_of_lt small] at files
  refine ⟨?_, ?_, ?_⟩
  · intro handles status member
    rcases mem_append.mp member with inMemory | onDisk
    · obtain ⟨_, same, sizes⟩ := sized _ inMemory
      cases same
      exact sizes.trans asked
    · obtain ⟨_, same⟩ := files _ onDisk
      cases same
  · intro merges r member
    rw [single merges] at short
    cases memory with
    | nil => exact absurd rfl some_replica
    | cons first others =>
      cases length_eq_zero_iff.mp (Nat.le_zero.mp (Nat.le_of_succ_le_succ short))
      obtain ⟨_, rfl⟩ := files r member
      rfl
  · intro path size status member
    rcases mem_append.mp member with inMemory | onDisk
    · obtain ⟨_, same, _⟩ := sized _ inMemory
      cases same
    · obtain ⟨_, same⟩ := files _ onDisk
      cases same
      rfl

section Writing
variable {c : Context} {config : ReplicateConfig} {files : Files} {m m' : Memory}

variable {replicas : List ReplicaDescriptor} {batchedSlices : List (List Slice)} {handles : List BufferDescriptor}
    {status : Master.ReplicaStatus} {i : Nat} {slices src : List Slice} {keys : List String} {r : ReplicaDescriptor}
    {task : StoreTask} {source : Slicing} {call : PutCall} {key : String}

theorem submitLoop_mem {pending futures : List TransferFuture}
    (looped : submitLoop c i slices replicas pending = (futures, true)) :
    (∀ f ∈ pending, f ∈ futures) ∧ ∀ r ∈ replicas, r.isMemoryReplica = true →
      ∃ f ∈ futures, c.transferSubmitter.submit i r slices .write = some f := by
  induction replicas generalizing pending with
  | nil =>
    cases looped
    exact ⟨fun f member => member, fun r none => nomatch none⟩
  | cons replica rest ih =>
    unfold submitLoop at looped
    split at looped
    · cases submitted : c.transferSubmitter.submit i replica slices .write with
      | none => simp [submitted] at looped
      | some future =>
        simp only [submitted] at looped
        obtain ⟨kept, found⟩ := ih looped
        exact ⟨fun f member => kept f (mem_append.mpr (.inl member)),
          forall_mem_cons.mpr ⟨fun _ => ⟨future, kept future (by simp), submitted⟩, found⟩⟩
    next other =>
      obtain ⟨kept, found⟩ := ih looped
      exact ⟨kept, forall_mem_cons.mpr ⟨fun memory => absurd memory other, found⟩⟩

theorem transferWrites_mem (fine : (transferWrites c slices replicas).1 = .ok) (member : r ∈ replicas)
    (isMemory : r.isMemoryReplica = true) :
    ∃ f ∈ (transferWrites c slices replicas).2, f.result = .ok ∧
      c.transferSubmitter.submit 0 r slices .write = some f := by
  induction replicas with
  | nil => cases member
  | cons replica rest ih =>
    unfold transferWrites at fine ⊢
    by_cases memory : replica.isMemoryReplica = true
    · simp only [if_pos memory] at fine ⊢
      cases submitted : c.transferSubmitter.submit 0 replica slices .write with
      | none => simp [submitted] at fine
      | some future =>
        simp only [submitted] at fine ⊢
        by_cases ok : future.result = .ok
        · rw [if_pos ok] at fine ⊢
          rcases mem_cons.mp member with rfl | later
          · exact ⟨future, mem_cons_self, ok, submitted⟩
          · obtain ⟨f, listed, rest⟩ := ih fine later
            exact ⟨f, mem_cons_of_mem _ listed, rest⟩
        · rw [if_neg ok] at fine
          exact absurd fine ok
    · simp only [if_neg memory] at fine ⊢
      rcases mem_cons.mp member with rfl | later
      · exact absurd isMemory memory
      · exact ih fine later

theorem verdict_of_success (sound : c.masterClient.Sound) (pairs : batchedSlices.length = keys.length)
    (success : (batchPut c keys batchedSlices config).results[i]? = some (Except.ok ()))
    (started : (batchPut c keys batchedSlices config).starts[i]? = some (Except.ok replicas)) :
    (config.preferAllocInSameNode = true → config.replicaNum = 1) ∧
      (verdictsOf c keys batchedSlices config)[i]? = some (some true) := by
  have accepted : config.preferAllocInSameNode = true → config.replicaNum = 1 := by
    intro prefers
    by_contra several
    simp [batchPut, prefers, several] at started
  refine ⟨accepted, ?_⟩
  rcases (batchPut_results c sound config pairs accepted i).mp success with exists_ | ended
  · rw [started] at exists_
    cases exists_
  · obtain ⟨⟨_, key⟩, picked, rfl⟩ := mem_map.mp (of_mem_zip ended).1
    exact (mem_keysWith.mp picked).2

/-- `Put` has copied its slices to every replica in memory. -/
theorem put_wrote (start : c.masterClient.putStart key (src.map (·.size)) config = .ok replicas)
    (success : (put c key src config).results[0]? = some (Except.ok ())) (allotted : Allotted false src replicas)
    (real : ∀ s ∈ src, s.ptr ≠ 0)
    (performed : ∀ p ∈ (PutCall.put key src).waited c config, p.2.Performed c.transferSubmitter p.1 files m m')
    (given : .memory handles status ∈ replicas) :
    content m' handles = gather (m c.transferSubmitter.localIpAndPort) src := by
  have fine : (transferWrites c src replicas).1 = .ok := by
    by_contra failed
    simp only [put, start, if_neg failed, getElem?_cons_zero, some.injEq] at success
    cases revoked : c.masterClient.putRevoke key .memory <;> simp [revoked, Except.bind] at success
  obtain ⟨f, waited, ok, taken⟩ := transferWrites_mem fine given rfl
  refine TransferSubmitter.submit_write taken ok (performed (0, f) ?_) real (allotted.buffers handles status given)
  simp only [PutCall.waited, start]
  exact mem_map.mpr ⟨f, waited, rfl⟩

section BatchPut
variable (sound : c.masterClient.Sound)
  (started : (startsOf c keys batchedSlices config)[i]? = some (Except.ok replicas))
  (sliced : batchedSlices[i]? = some src)
  (verdict : (verdictsOf c keys batchedSlices config)[i]? = some (some true))
  (performed : ∀ p ∈ (PutCall.batchPut keys batchedSlices).waited c config,
    p.2.Performed c.transferSubmitter p.1 files m m')
  (given : .memory handles status ∈ replicas)
include sound started sliced verdict performed given

theorem batchPut_wrote_normal (keyed : i < keys.length) (plain : config.preferAllocInSameNode = false)
    (allotted : Allotted false src replicas) (real : ∀ s ∈ src, s.ptr ≠ 0) :
    content m' handles = gather (m c.transferSubmitter.localIpAndPort) src := by
  have zipped : ((startsOf c keys batchedSlices config).zip batchedSlices)[i]? =
      some (.ok replicas, src) := getElem?_zip_eq_some.mpr ⟨started, sliced⟩
  have transferred : memoryTransferred c i src replicas = true := by
    simpa [verdictsOf, plain, zipped, Except.toOption] using verdict
  have startedAt := (startedOps_get c sound).mpr
    ⟨keys[i], src, _, getElem?_eq_getElem keyed, sliced, started, rfl⟩
  have some_replica : replicas ≠ [] := ne_nil_of_mem given
  rcases submitLoop_cases c i src replicas [] with ⟨futures, looped, -⟩ | ⟨futures, -, failed⟩
  · rw [nil_append] at looped
    obtain ⟨-, found⟩ := submitLoop_mem looped
    obtain ⟨f, pending, taken⟩ := found _ given rfl
    have ok : f.result = .ok := by
      have fine := all_eq_true.mp transferred _ given
      simpa [ReplicaDescriptor.isMemoryReplica, taken, futureOk] using fine
    refine TransferSubmitter.submit_write taken ok (performed (i, f) ?_) real (allotted.buffers handles status given)
    rw [PutCall.waited, if_neg (by simp [plain])]
    refine mem_flatten.mpr ⟨_, mem_of_getElem? (i := i) (getElem?_mapIdx.trans (by rw [startedAt]; rfl)), ?_⟩
    refine mem_map.mpr ⟨f, ?_, rfl⟩
    simp [submitTransfer, PutOperation.start, PutOperation.isResolved, some_replica, looped, pending]
  · rw [transferred] at failed
    cases failed

theorem batchPut_wrote_sameNode (pairs : batchedSlices.length = keys.length)
    (prefers : config.preferAllocInSameNode = true) (single : config.replicaNum = 1)
    (allotted : Allotted true src replicas) :
    content m' handles = gather (m c.transferSubmitter.localIpAndPort) src := by
  obtain ⟨handle, more, status₀, rest, rfl⟩ := startReplies_memory c sound started
  have asked : (_, src) ∈ (startsOf c keys batchedSlices config).zip batchedSlices :=
    mem_of_getElem? (getElem?_zip_eq_some.mpr ⟨started, sliced⟩)
  generalize opsAre : startedOps c keys batchedSlices config = ops
  -- The batch of the segment has succeeded, and the operation is part of it.
  obtain ⟨group, grouped, segment, found⟩ := segToOps_find c sound config pairs opsAre rfl asked rfl
  have transferred : futureOk group.future = true := by
    simpa [verdictsOf, prefers, single, started, opsAre, segmentTransferred, StartReply.place, found] using verdict
  have listed := (mem_members c sound config pairs opsAre rfl grouped).mpr ⟨_, asked, by rw [segment]; rfl, rfl⟩
  cases taken : group.future with
  | none => simp [taken, futureOk] at transferred
  | some f =>
    have ok : f.result = .ok := by simpa [taken, futureOk] using transferred
    obtain ⟨k, inside, at_k⟩ := getElem_of_mem grouped
    have waited : (k, f) ∈ (PutCall.batchPut keys batchedSlices).waited c config := by
      subst opsAre
      rw [PutCall.waited, if_pos prefers]
      exact Indexed.mem_pick.mpr ⟨group, List.getElem?_eq_some_iff.mpr ⟨inside, at_k⟩, taken⟩
    obtain ⟨_, _, _, same, size, copied⟩ :=
      TransferSubmitter.submitBatch_write ((future_eq c grouped).symm.trans taken) ok (performed (k, f) waited) listed
    cases same
    rcases mem_cons.mp given with head | later
    · cases head
      have sizes : (handle :: more).map (·.size) = [calculateSliceSize src] := allotted.buffers _ _ given
      cases map_eq_nil_iff.mp (cons.inj sizes).2
      rw [content_cons]
      exact (append_nil _).trans copied
    · have none := allotted.single rfl _ later
      cases none

end BatchPut

theorem put_starts (key : String) (src : List Slice) :
    (put c key src config).starts = [c.masterClient.putStart key (src.map (·.size)) config] := by
  unfold put
  simp only
  split
  · rfl
  · split <;> rfl

theorem mem_putToLocalFile {place : Nat} (left : task ∈ putToLocalFile c place key slices replicas) :
    task.place = place ∧ task.slices = slices := by
  unfold putToLocalFile at left
  split at left
  · obtain ⟨path, -, rfl⟩ := mem_map.mp left
    exact ⟨rfl, rfl⟩
  · cases left

theorem PutCall.task_slices (sound : c.masterClient.Sound) (call : PutCall)
    (left : task ∈ (call.outcome c config).tasks) : call.sources[task.place]? = some task.slices := by
  cases call with
  | put key slices =>
    have local_ : ∃ replicas, task ∈ putToLocalFile c 0 key slices replicas := by
      simp only [outcome, Client.put] at left
      split at left
      · cases left
      · split at left <;> exact ⟨_, left⟩
    obtain ⟨replicas, left⟩ := local_
    obtain ⟨place, same⟩ := mem_putToLocalFile left
    rw [place, same]
    rfl
  | batchPut keys batchedSlices =>
    cases prefers : config.preferAllocInSameNode with
    | true =>
      have none : (Client.batchPut c keys batchedSlices config).tasks = [] := by
        unfold Client.batchPut
        simp only [prefers, if_true]
        split
        · rfl
        · rfl
      rw [outcome, none] at left
      cases left
    | false =>
      rw [outcome, batchPut_normal c config prefers] at left
      obtain ⟨tasks, listed, left⟩ := mem_flatten.mp left
      obtain ⟨j, at_j⟩ := mem_iff_getElem?.mp listed
      obtain ⟨op, opAt, rfl⟩ := map_eq_some_iff.mp (getElem?_mapIdx.symm.trans at_j)
      obtain ⟨key, slices, reply, -, slicesAt, -, rfl⟩ := (startedOps_get c sound).mp opAt
      unfold storeTasks at left
      split at left
      · cases left
      · obtain ⟨place, same⟩ := mem_putToLocalFile left
        have kept : (PutOperation.start { key := key, slices := slices } reply).slices = slices := by
          cases reply <;> rfl
        rw [place, same, kept]
        exact slicesAt

/-- What a put has been allotted, and that its replicas in memory hold the value. -/
theorem PutCall.Stored.wrote (served : c.masterClient.Served)
    (put : call.Stored c config i source replicas files m m') :
    (∃ merged, Allotted merged source.slices replicas) ∧ ∀ handles status, .memory handles status ∈ replicas →
      content m' handles = gather (m c.transferSubmitter.localIpAndPort) source.slices := by
  obtain ⟨paired, success, started, slices, real, -, small, performed, -⟩ := put
  cases call with
  | put key src =>
    obtain ⟨rfl, rfl⟩ : i = 0 ∧ src = source.slices := by simpa [sources, getElem?_singleton] using slices
    rw [outcome, put_starts] at started
    have start := some.inj started
    have allotted : Allotted false source.slices replicas :=
      allotted_of_handedOut (served.started _ _ _ _ start) small rfl (fun merges => nomatch merges)
    exact ⟨⟨false, allotted⟩, fun handles status given =>
      put_wrote start success allotted (Slicing.slices_real real) performed given⟩
  | batchPut keys batchedSlices =>
    have sound := served.sound
    have pairs : batchedSlices.length = keys.length := paired
    obtain ⟨accepted, verdict⟩ := verdict_of_success sound pairs success started
    have startedAt : (startsOf c keys batchedSlices config)[i]? = some (Except.ok replicas) := by
      cases prefers : config.preferAllocInSameNode with
      | false => rwa [outcome, batchPut_normal c config prefers] at started
      | true => rwa [outcome, batchPut_sameNode c sound config prefers (accepted prefers)] at started
    have keyed : i < keys.length := pairs ▸ (List.getElem?_eq_some_iff.mp slices).1
    obtain ⟨key, lens, preferred, -, lensAt, handed⟩ := served.batchStarted _ _ _ i replicas startedAt
    have asked : allocSliceLens config lens =
        if config.preferAllocInSameNode then [calculateSliceSize source.slices] else source.slices.map (·.size) := by
      obtain ⟨op, opAt, rfl⟩ := map_eq_some_iff.mp (getElem?_map.symm.trans lensAt)
      obtain ⟨_, _, -, sliceAt, rfl⟩ := createPutOperations_get.mp opAt
      cases slices.symm.trans sliceAt
      have sum : (source.slices.map (·.size)).sum % 2 ^ 64 = calculateSliceSize source.slices := Nat.mod_eq_of_lt small
      rw [allocSliceLens, Master.foldl_mod_eq (by decide) _ (by decide), Nat.zero_add, sum]
    have allotted : Allotted config.preferAllocInSameNode source.slices replicas :=
      allotted_of_handedOut handed small asked accepted
    refine ⟨⟨_, allotted⟩, fun handles status given => ?_⟩
    cases prefers : config.preferAllocInSameNode with
    | false =>
      rw [prefers] at allotted
      exact batchPut_wrote_normal sound startedAt slices verdict performed given keyed prefers allotted
        (Slicing.slices_real real)
    | true =>
      rw [prefers] at allotted
      exact batchPut_wrote_sameNode sound startedAt slices verdict performed given pairs prefers (accepted prefers) allotted

/-- Every replica that may be complete holds the value that was put, and has its size. -/
theorem PutCall.Stored.holds (served : c.masterClient.Served)
    (put : call.Stored c config i source replicas files m m') (ready : Ready c (call.outcome c config) i replicas r) :
    stored files m' r = source.value (m c.transferSubmitter.localIpAndPort) ∧
      (stored files m' r).length = calculateTotalSize r := by
  obtain ⟨⟨merged, allotted⟩, wrote⟩ := put.wrote served
  have value := Slicing.gather_slices put.prepared
  cases ready with
  | memory given => exact ⟨(wrote _ _ given).trans value, length_content m' _⟩
  | disk given left place written =>
    have slices := put.slices
    rw [← place, call.task_slices served.sound left, some.injEq] at slices
    have file := put.written _ left written
    rw [slices] at file
    refine ⟨file.trans value, ?_⟩
    rw [stored, file, length_gather]
    exact (allotted.file _ _ _ given).symm

end Writing

/-! Reading. -/

inductive GetCall where
  | get (queryResult : QueryResult) (slices : List Slice)
  | batchGet (objectKeys : List String) (queryResults : List QueryResult) (slices : Table String (List Slice))
      (preferAllocInSameNode : Bool)

namespace GetCall

def outcome (t : TransferSubmitter) (clock : List ReadEvent → Int) : GetCall → Results × List ReadEvent
  | get queryResult slices => ([(Client.get t clock queryResult slices).1], (Client.get t clock queryResult slices).2)
  | batchGet objectKeys queryResults slices preferAllocInSameNode =>
    Client.batchGet t clock objectKeys queryResults slices preferAllocInSameNode

def queries : GetCall → List QueryResult
  | get queryResult _ => [queryResult]
  | batchGet _ queryResults _ _ => queryResults

def destination (j : Nat) : GetCall → Option (List Slice)
  | get _ slices => [slices][j]?
  | batchGet objectKeys _ slices _ => objectKeys[j]?.bind slices.lookup

def sameNode : GetCall → Bool
  | get _ _ => false
  | batchGet _ _ _ preferAllocInSameNode => preferAllocInSameNode

structure Fetched (t : TransferSubmitter) (clock : List ReadEvent → Int) (call : GetCall) (j : Nat) (q : QueryResult)
    (dst : List Slice) (files : Files) (m m' : Memory) : Prop where
  success : (call.outcome t clock).1[j]? = some (Except.ok ())
  query : call.queries[j]? = some q
  destination : call.destination j = some dst
  real : ∀ s ∈ dst, s.ptr ≠ 0
  performed : ∀ k f, .completed k f ∈ (call.outcome t clock).2 → f.Performed t k files m m'

end GetCall

section Reading
variable {t : TransferSubmitter} {clock : List ReadEvent → Int} {files : Files} {m m' : Memory}

theorem submit_read_front {i : Nat} {replica : ReplicaDescriptor} {dst : List Slice} {future : TransferFuture}
    (taken : t.submit i replica dst .read = some future) (fine : future.result = .ok)
    (done : future.Performed t i files m m') (real : ∀ s ∈ dst, s.ptr ≠ 0) :
    objectBytes files m replica <+: gather (m' t.localIpAndPort) dst := by
  have read := TransferSubmitter.submit_read taken fine done
  cases replica with
  | memory handles status =>
    have front := gather_of_holds (fun s member => real s (mem_of_mem_take member)) read.1
    rw [read.2, take_length] at front
    rw [objectBytes_memory, ← take_append_drop handles.length dst, gather_append, front]
    exact prefix_append _ _
  | disk filePath objectSize status =>
    have all := gather_of_holds real read.1
    rw [read.2] at all
    rw [all]
    exact prefix_rfl

/-- What a key that succeeds has got: its first complete replica at the front of the destination,
or, on the path for one node, as much of it as the destination takes. -/
theorem GetCall.Fetched.got {call : GetCall} {j : Nat} {q : QueryResult} {dst : List Slice}
    (read : call.Fetched t clock j q dst files m m') :
    ∃ r, findFirstCompleteReplica q.replicas = .ok r ∧
      (call.sameNode = false → objectBytes files m r <+: gather (m' t.localIpAndPort) dst) ∧
      (call.sameNode = true → gather (m' t.localIpAndPort) dst <+: objectBytes files m r) := by
  obtain ⟨success, query, destination, real, performed⟩ := read
  cases call with
  | get queryResult slices =>
    obtain ⟨rfl, rfl⟩ : j = 0 ∧ queryResult = q := by simpa [queries, getElem?_singleton] using query
    cases destination
    obtain ⟨r, future, now, chosen, taken, fine, log, -⟩ := get_ok t clock (some.inj success)
    have done := performed 0 future (by rw [outcome, log]; exact mem_cons_self)
    exact ⟨r, chosen, fun _ => submit_read_front taken fine done real, fun never => by cases never⟩
  | batchGet objectKeys queryResults slices preferAllocInSameNode =>
    obtain ⟨key, keyAt, found⟩ := bind_eq_some_iff.mp destination
    cases preferAllocInSameNode with
    | false =>
      obtain ⟨sizes, q', future, queryAt, submitted, fine, -⟩ := (batchGet_ok t clock).mp success
      obtain ⟨⟨key', q''⟩, zipped, submitted'⟩ :=
        map_eq_some_iff.mp (getElem?_mapIdx.symm.trans submitted)
      obtain ⟨keyAt', queryAt'⟩ := getElem?_zip_eq_some.mp zipped
      cases keyAt.symm.trans keyAt'
      cases query.symm.trans queryAt'
      obtain ⟨dst', r, found', chosen, taken⟩ := submitRead_ok t submitted'
      cases found.symm.trans found'
      have done := performed j future (by
        rw [outcome, Client.batchGet, if_neg (not_not.mpr sizes), if_neg Bool.false_ne_true]
        exact mem_append.mpr (.inl (mem_waitLog.mpr submitted)))
      exact ⟨r, chosen, fun _ => submit_read_front taken fine done real, fun never => by cases never⟩
    | true =>
      by_cases sizes : queryResults.length = objectKeys.length
      · have path : outcome t clock (batchGet objectKeys queryResults slices true) =
            batchGetWhenPreferSameNode t objectKeys queryResults slices := by
          rw [outcome, Client.batchGet, if_neg (not_not.mpr sizes), if_pos rfl]
        rw [path] at success performed
        obtain ⟨key', q', segment, r, dst', g, entries, future, keyAt', queryAt', checked, listed, taken,
          fine, completed⟩ :=
          sameNode_ok t success
        cases keyAt.symm.trans keyAt'
        cases query.symm.trans queryAt'
        obtain ⟨found', chosen⟩ := sameNodeEntry_ok checked
        cases found.symm.trans found'
        obtain ⟨handle, more, status, rfl, size, copied⟩ :=
          TransferSubmitter.submitBatch_read taken fine (performed j future completed) listed
        refine ⟨_, chosen, fun never => ?_, fun _ => ?_⟩
        · cases never
        rw [copied, ← size, objectBytes_memory, content_cons]
        exact prefix_append _ _
      · rw [outcome, Client.batchGet, if_pos sizes, getElem?_map] at success
        simp at success

end Reading

/-- The round trip. What a successful read leaves in its destination begins with the value that
was put, or, on the path for one node, is a beginning of it; it is the value exactly if the
destination has the size of the value. -/
theorem round_trip {c : Context} {config : ReplicateConfig} {put : PutCall} {i : Nat} {source : Slicing}
    {replicas : List ReplicaDescriptor} {files : Files} {m m₁ : Memory} {t : TransferSubmitter}
    {clock : List ReadEvent → Int} {get : GetCall} {j : Nat} {q : QueryResult} {dst : List Slice} {files₂ : Files}
    {m₂ m₃ : Memory} (served : c.masterClient.Served) (written : put.Stored c config i source replicas files m m₁)
    (listed : ∀ r ∈ q.replicas, r.status = .complete → Ready c (put.outcome c config) i replicas r)
    (kept : ∀ r, Ready c (put.outcome c config) i replicas r → stored files₂ m₂ r = stored files m₁ r)
    (read : get.Fetched t clock j q dst files₂ m₂ m₃) :
    let value := source.value (m c.transferSubmitter.localIpAndPort)
    let got := gather (m₃ t.localIpAndPort) dst
    (get.sameNode = false → value <+: got) ∧ (get.sameNode = true → got <+: value) ∧
      (got = value ↔ calculateSliceSize dst = value.length) := by
  intro value got
  obtain ⟨r, chosen, normal, sameNode⟩ := read.got
  obtain ⟨member, complete⟩ := findFirstCompleteReplica_ok chosen
  have ready := listed r member complete
  obtain ⟨holds, whole⟩ := written.holds served ready
  have bytes : objectBytes files₂ m₂ r = value := by
    rw [objectBytes, kept r ready, ← whole, take_length]
    exact holds
  rw [bytes] at normal sameNode
  refine ⟨normal, sameNode, fun same => by rw [← same, length_gather], fun size => ?_⟩
  rw [← length_gather (m₃ t.localIpAndPort)] at size
  cases path : get.sameNode with
  | false => exact ((normal path).eq_of_length size.symm).symm
  | true => exact (sameNode path).eq_of_length size

namespace Sample
open Master Master.Sample

def segmentConfig : ReplicateConfig := { preferredSegment := "a" }

def twoBuffers : List BufferDescriptor := [⟨4, 4096, "a:1"⟩, ⟨4, 4100, "a:1"⟩]

theorem twoBuffers_handedOut : HandedOut "k" [4, 4] segmentConfig [.memory twoBuffers .processing] := by
  have outcome : (Run.run (World.step params) (World.start params : State)
      (mount segmentA clientA ++ .putStart "k" [4, 4] segmentConfig :: replicate 6 (.putAdvance shard []))).bind
        (fun w => (w.exec params (.putAdvance shard [])).map (fun r =>
          (r.2, (w.busy shard).map (fun task => (task.key, task.sliceLengths, task.config))))) =
      some (.replicas (.ok [.memory twoBuffers .processing]), some ("k", [4, 4], segmentConfig)) := by decide +kernel
  obtain ⟨w, reached, seen⟩ := reached_of_outcome outcome
  obtain ⟨⟨w', reply⟩, done, observed⟩ := map_eq_some_iff.mp seen
  obtain ⟨answer, asked⟩ := Prod.mk.inj observed
  obtain ⟨⟨key, sizes, config, phase⟩, busy, same⟩ := map_eq_some_iff.mp asked
  cases same
  subst answer
  exact ⟨_, _, _, params, w, w', shard, [], phase, reached, busy, done⟩

def servant : MasterClient where
  putStart key lengths config :=
    if key = "k" ∧ lengths = [4, 4] ∧ config = segmentConfig then .ok [.memory twoBuffers .processing]
    else .error .noAvailableHandle
  batchPutStart keys _ _ := keys.map (fun _ => .error .noAvailableHandle)
  putEnd _ _ := .ok ()
  putRevoke _ _ := .ok ()
  batchPutEnd keys := keys.map (fun _ => .error .rpcFail)
  batchPutRevoke keys := keys.map (fun _ => .ok ())

theorem servant_served : servant.Served where
  startSize := by simp [servant]
  endSize := by simp [servant]
  revokeSize := by simp [servant]
  started := by
    intro key lengths config replicas start
    simp only [servant] at start
    split at start
    next asked =>
      obtain ⟨rfl, rfl, rfl⟩ := asked
      cases Except.ok.inj start
      exact twoBuffers_handedOut
    next => cases start
  batchStarted := by
    intro keys lengths config i replicas start
    rw [servant, getElem?_map] at start
    simp at start
  ended := by simp [servant]

def store : Context :=
  { transferSubmitter := submitter, masterClient := servant, storageBackend := false, storeObject := fun _ _ => false }

def values : List UInt8 := [1, 2, 3, 4, 5, 6, 7, 8]

def memoryWith (endpoint : String) (address : Nat) (bytes : List UInt8) (m : Memory) : Memory :=
  fun e => if e = endpoint then Extent.write (m e) address bytes else m e

def blank : Memory := fun _ _ => 0
def before : Memory := memoryWith "here" 8 values blank
def between : Memory := memoryWith "a:1" 4096 values before

def putTwo : PutCall := .put "k" [⟨8, 4⟩, ⟨12, 4⟩]
def twoSlices : Slicing := .multiBuffers [(8, 4), (12, 4)]

theorem putTwo_stored : putTwo.Stored store segmentConfig 0 twoSlices [.memory twoBuffers .processing] (fun _ => [])
    before between where
  paired := trivial
  success := by decide
  started := by decide
  slices := rfl
  real := by
    intro b member
    revert b
    decide
  prepared := trivial
  small := by decide
  performed := by
    have waited : putTwo.waited store segmentConfig =
        [(0, ⟨.engine [⟨.write, 8, "a:1", 4096, 4⟩, ⟨.write, 12, "a:1", 4100, 4⟩], .ok⟩)] := by decide
    rw [waited]
    intro p member
    cases mem_singleton.mp member
    intro _
    decide
  written := by
    have none : (putTwo.outcome store segmentConfig).tasks = [] := by decide
    rw [none]
    exact fun task left => nomatch left

def found : QueryResult := ⟨[.memory twoBuffers .complete], 1000⟩

theorem found_ready : ∀ r ∈ found.replicas, r.status = .complete →
    Ready store (putTwo.outcome store segmentConfig) 0 [.memory twoBuffers .processing] r := by
  intro r member _
  cases mem_singleton.mp member
  exact .memory mem_cons_self

theorem fetched_of_log (requests : List TransferRequest) (rest : List ReadEvent) {call : GetCall}
    {dst : List Slice} {m' : Memory}
    (success : (call.outcome submitter (fun _ => 0)).1[0]? = some (Except.ok ()))
    (query : call.queries[0]? = some found) (destination : call.destination 0 = some dst)
    (real : ∀ s ∈ dst, s.ptr ≠ 0)
    (log : (call.outcome submitter (fun _ => 0)).2 = .completed 0 ⟨.engine requests, .ok⟩ :: rest)
    (others : ∀ e ∈ rest, e = .clock 0) (performed : ∀ r ∈ requests, r.Performed "here" between m') :
    call.Fetched submitter (fun _ => 0) 0 found dst (fun _ => []) between m' := by
  refine ⟨success, query, destination, real, fun k f completed => ?_⟩
  rw [log] at completed
  rcases mem_cons.mp completed with same | later
  · cases same
    exact fun _ => performed
  · cases others _ later

def getInto (dst : List Slice) : GetCall := .get found dst
def getSameNode (dst : List Slice) : GetCall :=
  .batchGet ["k"] [found] ((∅ : Table String (List Slice)).insert "k" dst) true

def after (bytes : List UInt8) : Memory := memoryWith "here" 100 bytes between

theorem getWhole_fetched : (getInto [⟨100, 4⟩, ⟨104, 4⟩]).Fetched submitter (fun _ => 0) 0 found [⟨100, 4⟩, ⟨104, 4⟩]
    (fun _ => []) between (after values) :=
  fetched_of_log [⟨.read, 100, "a:1", 4096, 4⟩, ⟨.read, 104, "a:1", 4100, 4⟩] [.clock 0]
    (by decide) rfl rfl (by decide) (by decide) (by decide) (by decide)

theorem getMore_fetched : (getInto [⟨100, 4⟩, ⟨104, 4⟩, ⟨108, 4⟩]).Fetched submitter (fun _ => 0) 0 found
    [⟨100, 4⟩, ⟨104, 4⟩, ⟨108, 4⟩] (fun _ => []) between (after values) :=
  fetched_of_log [⟨.read, 100, "a:1", 4096, 4⟩, ⟨.read, 104, "a:1", 4100, 4⟩] [.clock 0]
    (by decide) rfl rfl (by decide) (by decide) (by decide) (by decide)

theorem getPart_fetched : (getSameNode [⟨100, 2⟩, ⟨102, 2⟩]).Fetched submitter (fun _ => 0) 0 found
    [⟨100, 2⟩, ⟨102, 2⟩] (fun _ => []) between (after [1, 2, 3, 4]) :=
  fetched_of_log [⟨.read, 100, "a:1", 4096, 2⟩, ⟨.read, 102, "a:1", 4098, 2⟩] []
    (by decide) rfl (by decide) (by decide) (by decide) (by decide) (by decide)

end Sample

open Sample in
theorem round_trip_two_buffers : gather (after values "here") [⟨100, 4⟩, ⟨104, 4⟩] = values :=
  ((round_trip servant_served putTwo_stored found_ready (fun _ _ => rfl) getWhole_fetched).2.2.mpr (by decide)).trans
    (by decide)

open Sample in
/-- The object has eight bytes in two buffers. A read into slices of four bytes in all succeeds on
the path for one node, because only the first buffer is compared; a read into slices of twelve
bytes succeeds with the last four untouched. -/
theorem reads_succeed_without_the_value :
    store.masterClient.Served ∧
    putTwo.Stored store segmentConfig 0 twoSlices [.memory twoBuffers .processing] (fun _ => []) before between ∧
    (∀ r ∈ found.replicas, r.status = .complete →
      Ready store (putTwo.outcome store segmentConfig) 0 [.memory twoBuffers .processing] r) ∧
    twoSlices.value (before "here") = values ∧
    ((getSameNode [⟨100, 2⟩, ⟨102, 2⟩]).Fetched submitter (fun _ => 0) 0 found [⟨100, 2⟩, ⟨102, 2⟩] (fun _ => []) between
        (after [1, 2, 3, 4]) ∧
      gather (after [1, 2, 3, 4] "here") [⟨100, 2⟩, ⟨102, 2⟩] = [1, 2, 3, 4]) ∧
    ((getInto [⟨100, 4⟩, ⟨104, 4⟩, ⟨108, 4⟩]).Fetched submitter (fun _ => 0) 0 found [⟨100, 4⟩, ⟨104, 4⟩, ⟨108, 4⟩]
        (fun _ => []) between (after values) ∧
      gather (after values "here") [⟨100, 4⟩, ⟨104, 4⟩, ⟨108, 4⟩] = values ++ [0, 0, 0, 0]) :=
  ⟨servant_served, putTwo_stored, found_ready, by decide, ⟨getPart_fetched, by decide⟩, getMore_fetched, by decide⟩

end Mooncake.Client
