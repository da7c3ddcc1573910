import Mooncake.Client.RoundTrip
import Mooncake.Client.Uniform

/-! The batch reads of the Python client. All three query the keys, prepare a destination for
each key that can be read, hand the destinations to `BatchGet` in a map, and report by index. -/
namespace Mooncake.Client

open List Indexed
open Master (ErrorCode ReplicaDescriptor)

structure Plan (ρ : Type) where
  slices : List Slice
  report : ρ

/-- `allocate` answers for the key at a place of the batch. A key that is skipped has a null handle. -/
def prepareBuffer (allocate : Nat → Nat → Option BufferHandle) (i : Nat) (q : QueryResult) :
    Except Unit (Plan BufferHandle) :=
  match q.replicas with
  | [] => .error ()
  | replica :: _ =>
    if calculateTotalSize replica = 0 then .error ()
    else
      match allocate i (calculateTotalSize replica) with
      | none => .error ()
      | some handle => .ok ⟨allocateSlices replica handle.ptr, handle⟩

def prepareInto (buffer size : Nat) (q : QueryResult) : Except ErrorCode (Plan Nat) :=
  match q.replicas with
  | [] => .error .invalidReplica
  | replica :: _ =>
    if size < calculateTotalSize replica then .error .invalidParams
    else .ok ⟨allocateSlices replica buffer, calculateTotalSize replica⟩

def prepareIntoMultiBuffers (buffers sizes : List Nat) (q : QueryResult) : Except ErrorCode (Plan Nat) :=
  match q.replicas with
  | [] => .error .invalidReplica
  | replica :: _ =>
    if sizes.sum < calculateTotalSize replica then .error .invalidParams
    else if replica.isMemoryReplica then .ok ⟨buffers.zipWith Slice.mk sizes, calculateTotalSize replica⟩
    else .error .invalidParams

section
variable (t : TransferSubmitter) (clock : List ReadEvent → Int) {ε ρ : Type}

def planKey (fail : ErrorCode → ε) (prepare : QueryResult → Except ε (Plan ρ))
    (result : Except ErrorCode QueryResult) : Except ε (QueryResult × Plan ρ) :=
  match result with
  | .error e => .error (fail e)
  | .ok q => (prepare q).map (fun plan => (q, plan))

variable (keys : List String)

def validOperations (planned : List (Except ε (QueryResult × Plan ρ))) :
    List (Nat × String × QueryResult × Plan ρ) :=
  Indexed.pick (fun p : String × Except ε (QueryResult × Plan ρ) => p.2.toOption.map (fun o => (p.1, o)))
    (keys.zip planned)

def batchSlices (valid : List (Nat × String × QueryResult × Plan ρ)) : Table String (List Slice) :=
  Table.assign (valid.map (fun op => (op.2.1, op.2.2.2.slices)))

def batchTransfer (preferAllocInSameNode : Bool) (valid : List (Nat × String × QueryResult × Plan ρ)) :
    Results × List ReadEvent :=
  batchGet t clock (valid.map (·.2.1)) (valid.map (·.2.2.1)) (batchSlices valid) preferAllocInSameNode

def batchRead (fail : ErrorCode → ε) (preferAllocInSameNode : Bool) (keys : List String)
    (planned : List (Except ε (QueryResult × Plan ρ))) : List (Except ε ρ) × List ReadEvent :=
  let valid := validOperations keys planned
  let reported := planned.map (Except.map (fun o => o.2.report))
  if valid.isEmpty then (reported, [])
  else
    let got := batchTransfer t clock preferAllocInSameNode valid
    let results := valid.zipWith (fun op result => (op.1, (result.mapError fail).map (fun _ => op.2.2.2.report))) got.1
    (Indexed.writes reported results, got.2)

variable (queries : List (Except ErrorCode QueryResult))

def planBuffer (allocate : Nat → Nat → Option BufferHandle) :
    List (Except Unit (QueryResult × Plan BufferHandle)) :=
  queries.mapIdx (fun i => planKey (fun _ => ()) (prepareBuffer allocate i))

def planInto (buffers sizes : List Nat) : List (Except ErrorCode (QueryResult × Plan Nat)) :=
  (queries.zip (buffers.zip sizes)).map (fun p => planKey id (prepareInto p.2.1 p.2.2) p.1)

def planIntoMultiBuffers (allBuffers allSizes : List (List Nat)) :
    List (Except ErrorCode (QueryResult × Plan Nat)) :=
  (queries.zip (allBuffers.zip allSizes)).map (fun p => planKey id (prepareIntoMultiBuffers p.2.1 p.2.2) p.1)

/-- `queries` is what `BatchQuery` returns for the keys. -/
def batchGetBufferInternal (allocate : Nat → Nat → Option BufferHandle) : List (Option BufferHandle) × List ReadEvent :=
  let read := batchRead t clock (fun _ => ()) false keys (planBuffer queries allocate)
  (read.1.map Except.toOption, read.2)

def batchGetIntoInternal (buffers sizes : List Nat) : List (Except ErrorCode Nat) × List ReadEvent :=
  if keys.length ≠ buffers.length ∨ keys.length ≠ sizes.length then (keys.map (fun _ => .error .invalidParams), [])
  else batchRead t clock id false keys (planInto queries buffers sizes)

def batchGetIntoMultiBuffersInternal (allBuffers allSizes : List (List Nat)) (preferAllocInSameNode : Bool) :
    List (Except ErrorCode Nat) × List ReadEvent :=
  if keys.length ≠ allBuffers.length ∨ keys.length ≠ allSizes.length then
    (keys.map (fun _ => .error .invalidParams), [])
  else batchRead t clock id preferAllocInSameNode keys (planIntoMultiBuffers queries allBuffers allSizes)

variable (queryResult : Except ErrorCode QueryResult)

def getBuffer (allocate : Nat → Option BufferHandle) : Option BufferHandle × List ReadEvent :=
  match planKey (fun _ => ()) (prepareBuffer (fun _ => allocate) 0) queryResult with
  | .error () => (none, [])
  | .ok (q, plan) => ((get t clock q plan.slices).1.toOption.map (fun _ => plan.report), (get t clock q plan.slices).2)

def getIntoInternal (buffer size : Nat) : Except ErrorCode Nat × List ReadEvent :=
  match queryResult with
  | .error e => (.error e, [])
  | .ok q =>
    match q.replicas with
    | [] => (.error .invalidParams, [])
    | replica :: _ =>
      if size < calculateTotalSize replica then (.error .invalidParams, [])
      else
        let read := get t clock q (allocateSlices replica buffer)
        (read.1.map (fun _ => calculateTotalSize replica), read.2)

end

/-! The destination of an index: the buffer that was allocated for it, or the one that was given. -/

def bufferDestination (queries : List (Except ErrorCode QueryResult)) (allocate : Nat → Nat → Option BufferHandle)
    (i : Nat) : List Slice :=
  match (planBuffer queries allocate)[i]? with
  | some (.ok o) => [⟨o.2.report.ptr, o.2.report.size⟩]
  | _ => []

def intoDestination (buffers sizes : List Nat) (i : Nat) : List Slice := (buffers.zipWith Slice.mk sizes)[i]?.toList

def multiDestination (allBuffers allSizes : List (List Nat)) (i : Nat) : List Slice :=
  ((allBuffers.zipWith (fun buffers sizes => buffers.zipWith Slice.mk sizes) allSizes)[i]?).getD []

def HoldsObject (t : TransferSubmitter) (log : List ReadEvent) (q : QueryResult) (destination : List Slice) : Prop :=
  ∀ files m m', (∀ k f, .completed k f ∈ log → f.Performed t k files m m') →
    ∀ r, q.replicas.head? = some r → objectBytes files m r <+: gather (m' t.localIpAndPort) destination

def Passes {ε α : Type} (planned : List (Except ε α)) (i : Nat) : Prop := ∃ o, planned[i]? = some (Except.ok o)

/-- The object has no bytes, or its key does not come again at a later place that passes the checks. -/
def LastOfKey (keys : List String) (passes : Nat → Prop) (q : QueryResult) (i : Nat) : Prop :=
  (∀ r, q.replicas.head? = some r → calculateTotalSize r = 0) ∨ ∀ j, i < j → keys[j]? = keys[i]? → ¬ passes j

structure Separate (destination : Nat → List Slice) : Prop where
  real : ∀ i, ∀ s ∈ destination i, s.ptr ≠ 0
  apart : ∀ i j, i ≠ j → ∀ a, Covered (destination i) a → ¬ Covered (destination j) a

structure Fits {ρ : Type} (preferAllocInSameNode : Bool) (destination : List Slice) (q : QueryResult)
    (plan : Plan ρ) : Prop where
  front : ∀ m, gather m plan.slices <+: gather m destination
  within : ∀ a, Covered plan.slices a → Covered destination a
  real : ∀ s ∈ plan.slices, s.ptr ≠ 0
  large : preferAllocInSameNode = true → ∀ r, q.replicas.head? = some r →
    calculateTotalSize r ≤ calculateSliceSize plan.slices

section
variable {t : TransferSubmitter} {clock : List ReadEvent → Int} {ε ρ : Type} {fail : ErrorCode → ε}
  {preferAllocInSameNode : Bool} {keys : List String} {planned : List (Except ε (QueryResult × Plan ρ))}

theorem mem_validOperations {i : Nat} {key : String} {q : QueryResult} {plan : Plan ρ} :
    (i, key, q, plan) ∈ validOperations keys planned ↔ keys[i]? = some key ∧ planned[i]? = some (.ok (q, plan)) := by
  simp only [validOperations, mem_pick]
  constructor
  · rintro ⟨⟨key', outcome⟩, zipped, picked⟩
    obtain ⟨keyAt, plannedAt⟩ := List.getElem?_zip_eq_some.mp zipped
    cases outcome with
    | error e => cases picked
    | ok o =>
      cases picked
      exact ⟨keyAt, plannedAt⟩
  · rintro ⟨keyAt, plannedAt⟩
    exact ⟨(key, .ok (q, plan)), List.getElem?_zip_eq_some.mpr ⟨keyAt, plannedAt⟩, rfl⟩

/-- The slices of a key are those of the last place at which it is read. -/
theorem lookup_batchSlices {key : String} {dst : List Slice} :
    (batchSlices (validOperations keys planned)).lookup key = some dst ↔
      ∃ (i : Nat) (q : QueryResult) (plan : Plan ρ), keys[i]? = some key ∧ planned[i]? = some (.ok (q, plan)) ∧
        plan.slices = dst ∧ ∀ (j : Nat) o, keys[j]? = some key → planned[j]? = some (.ok o) → j ≤ i := by
  have entries : batchSlices (validOperations keys planned) = Table.assign
      (((validOperations keys planned).map (fun op => (op.1, op.2.1, op.2.2.2.slices))).map Prod.snd) := by
    rw [batchSlices, map_map]
    rfl
  have sorted : (((validOperations keys planned).map (fun op => (op.1, op.2.1, op.2.2.2.slices))).map Prod.fst).Pairwise
      (· < ·) := by
    rw [map_map]
    exact pairwise_pick _ _
  have member : ∀ i dst, (i, key, dst) ∈ (validOperations keys planned).map (fun op => (op.1, op.2.1, op.2.2.2.slices)) ↔
      ∃ q plan, keys[i]? = some key ∧ planned[i]? = some (.ok (q, plan)) ∧ plan.slices = dst := by
    simp [mem_map, mem_validOperations, and_assoc]
  rw [entries, Table.lookup_assign sorted]
  constructor
  · rintro ⟨i, listed, last⟩
    obtain ⟨q, plan, keyAt, plannedAt, same⟩ := (member i dst).mp listed
    exact ⟨i, q, plan, keyAt, plannedAt, same, fun j o keyAt' plannedAt' =>
      last j o.2.slices ((member j _).mpr ⟨o.1, o.2, keyAt', plannedAt', rfl⟩)⟩
  · rintro ⟨i, q, plan, keyAt, plannedAt, same, last⟩
    refine ⟨i, (member i dst).mpr ⟨q, plan, keyAt, plannedAt, same⟩, fun j w listed => ?_⟩
    obtain ⟨q', plan', keyAt', plannedAt', -⟩ := (member j w).mp listed
    exact last j _ keyAt' plannedAt'

theorem batchRead_ok (lengths : planned.length = keys.length) {i : Nat} {report : ρ}
    (success : (batchRead t clock fail preferAllocInSameNode keys planned).1[i]? = some (Except.ok report)) :
    let valid := validOperations keys planned
    let got := batchTransfer t clock preferAllocInSameNode valid
    (batchRead t clock fail preferAllocInSameNode keys planned).2 = got.2 ∧
      ∃ (a : Nat) (op : String × QueryResult × Plan ρ), valid[a]? = some (i, op) ∧ got.1[a]? = some (Except.ok ()) ∧
        op.2.2.report = report := by
  intro valid got
  have sizes : got.1.length = valid.length :=
    (length_batchGet t clock _ _ (by rw [length_map, length_map])).trans (length_map _)
  have read : batchRead t clock fail preferAllocInSameNode keys planned =
      if valid.isEmpty then (planned.map (Except.map (fun o => o.2.report)), [])
      else (writes (planned.map (Except.map (fun o => o.2.report))) (valid.zipWith
        (fun op result => (op.1, (result.mapError fail).map (fun _ => op.2.2.2.report))) got.1), got.2) := rfl
  -- A place that passes the checks is valid.
  have passed (kept : (planned.map (Except.map (fun o => o.2.report)))[i]? = some (Except.ok report)) :
      i ∈ valid.map Prod.fst := by
    obtain ⟨outcome, plannedAt, same⟩ := Option.map_eq_some_iff.mp (List.getElem?_map.symm.trans kept)
    have keyed : i < keys.length := lengths ▸ (List.getElem?_eq_some_iff.mp plannedAt).1
    cases outcome with
    | error e => cases same
    | ok o => exact mem_map.mpr ⟨_, mem_validOperations.mpr ⟨List.getElem?_eq_getElem keyed, plannedAt⟩, rfl⟩
  rw [read] at success ⊢
  split at success
  next none =>
    have listed := passed success
    rw [isEmpty_iff.mp none] at listed
    cases listed
  next some =>
    rw [if_neg some]
    rcases mem_of_getElem?_writes success with written | ⟨untouched, kept⟩
    · obtain ⟨a, zipped⟩ := getElem?_of_mem written
      obtain ⟨⟨_, op⟩, result, at_a, resultAt, same⟩ := List.getElem?_zipWith_eq_some.mp zipped
      obtain ⟨rfl, fine⟩ := Prod.mk.inj same
      cases result with
      | ok => exact ⟨rfl, a, op, at_a, resultAt, Except.ok.inj fine⟩
      | error e => cases fine
    · rw [places_zipWith _ sizes] at untouched
      exact absurd (passed kept) untouched

section
variable {queries : List (Except ErrorCode QueryResult)} {destination : Nat → List Slice}

/-- The master lists complete replicas only, so the first one is read. -/
theorem ListAnswered.first {replicas : List ReplicaDescriptor} {r r' : ReplicaDescriptor}
    (answered : ListAnswered replicas) (first : replicas.head? = some r)
    (chosen : findFirstCompleteReplica replicas = .ok r') : r' = r := by
  obtain ⟨rest, rfl⟩ := head?_eq_some_iff.mp first
  have complete := answered.complete.2 r mem_cons_self
  simp only [findFirstCompleteReplica, find?_cons, complete, beq_self_eq_true] at chosen
  exact (Except.ok.inj chosen).symm

variable {i : Nat} {q : QueryResult} {plan : Plan ρ}
  (plans : ∀ (i : Nat) q plan, planned[i]? = some (Except.ok (q, plan)) →
    Fits preferAllocInSameNode (destination i) q plan ∧ ListAnswered q.replicas)
include plans

theorem holds_of_last {a : Nat} {key : String}
    (valid : (validOperations keys planned)[a]? = some (i, key, q, plan))
    (last : LastOfKey keys (Passes planned) q i)
    (fine : (batchTransfer t clock preferAllocInSameNode (validOperations keys planned)).1[a]? =
      some (Except.ok ())) :
    HoldsObject t (batchTransfer t clock preferAllocInSameNode (validOperations keys planned)).2 q (destination i) := by
  obtain ⟨keyAt, plannedAt⟩ := mem_validOperations.mp (mem_of_getElem? valid)
  obtain ⟨fits, answered⟩ := plans i q plan plannedAt
  intro files m m' performed r first
  rcases last with empty | last
  · rw [objectBytes, empty r first, take_zero]
    exact nil_prefix
  have own : (batchSlices (validOperations keys planned)).lookup key = some plan.slices := by
    refine lookup_batchSlices.mpr ⟨i, q, plan, keyAt, plannedAt, rfl, fun j o keyAt' passes => ?_⟩
    by_contra later
    exact last j (Nat.lt_of_not_le later) (keyAt'.trans keyAt.symm) ⟨o, passes⟩
  have read : (GetCall.batchGet ((validOperations keys planned).map (·.2.1))
      ((validOperations keys planned).map (·.2.2.1)) (batchSlices (validOperations keys planned))
      preferAllocInSameNode).Fetched t clock a q plan.slices files m m' := by
    refine ⟨fine, ?_, ?_, fits.real, performed⟩
    · rw [GetCall.queries, List.getElem?_map, valid]
      rfl
    · rw [GetCall.destination, List.getElem?_map, valid]
      exact own
  obtain ⟨r', chosen, normal, sameNode⟩ := read.got
  cases answered.first first chosen
  refine List.IsPrefix.trans ?_ (fits.front _)
  cases path : preferAllocInSameNode with
  | false => exact normal path
  | true =>
    -- The slices have room for the object, so what they hold is all of it.
    have room := fits.large path r first
    have size : (objectBytes files m r).length ≤ (gather (m' t.localIpAndPort) plan.slices).length := by
      rw [length_gather, objectBytes, length_take]
      exact (Nat.min_le_left _ _).trans room
    rw [(sameNode path).eq_of_length_le size]

theorem last_of_holds (separate : Separate destination)
    (holds : HoldsObject t (batchTransfer t clock preferAllocInSameNode (validOperations keys planned)).2 q
      (destination i)) : LastOfKey keys (Passes planned) q i := by
  classical
  by_contra repeated
  obtain ⟨⟨r, first, some_bytes⟩, j, later, sameKey, passes⟩ : (∃ r, q.replicas.head? = some r ∧ 0 < calculateTotalSize r) ∧
      ∃ j, i < j ∧ keys[j]? = keys[i]? ∧ Passes planned j := by
    simpa [LastOfKey, not_or, Nat.pos_iff_ne_zero] using repeated
  -- Everything there is to read is 1, and after the call 1 is where the slices of the table are.
  let Reached : Nat → Prop := fun x => ∃ key dst, (batchSlices (validOperations keys planned)).lookup key = some dst ∧
    Covered dst x
  let length := ((validOperations keys planned).map (fun op => calculateSliceSize op.2.2.2.slices)).sum + 1
  let after : Memory := fun _ x => if Reached x then 1 else 0
  have slices : ∀ key dst, (batchSlices (validOperations keys planned)).lookup key = some dst →
      calculateSliceSize dst ≤ length ∧ ∀ x, Covered dst x → after t.localIpAndPort x = 1 := by
    intro key dst found
    refine ⟨?_, fun x covered => if_pos ⟨key, dst, found, covered⟩⟩
    obtain ⟨l, q', plan, keyAt, plannedAt, rfl, -⟩ := lookup_batchSlices.mp found
    have member : calculateSliceSize plan.slices ∈
        (validOperations keys planned).map (fun op => calculateSliceSize op.2.2.2.slices) :=
      mem_map.mpr ⟨_, mem_validOperations.mpr ⟨keyAt, plannedAt⟩, rfl⟩
    exact (le_sum_of_mem member).trans (Nat.le_succ _)
  have performed : ∀ k f, .completed k f ∈ (batchTransfer t clock preferAllocInSameNode (validOperations keys planned)).2 →
      f.Performed t k (uniformFiles 1 length) (uniform 1) after := by
    intro k f completed
    rcases batchGet_log t clock completed with ⟨key, dst, replica, found, taken⟩ | ⟨g, entries, taken, found⟩
    · exact TransferSubmitter.submit_uniform taken (slices key dst found).1 (slices key dst found).2
    · refine TransferSubmitter.submitBatch_uniform taken (fun entry listed => ?_)
      obtain ⟨key, found⟩ := found entry listed
      exact (slices key entry.2 found).2
  -- None of these slices is part of the destination.
  have untouched : ∀ x, Covered (destination i) x → after t.localIpAndPort x = 0 := by
    intro x covered
    refine if_neg ?_
    rintro ⟨key, dst, found, reached⟩
    obtain ⟨l, q', plan, keyAt, plannedAt, rfl, last⟩ := lookup_batchSlices.mp found
    have other : i ≠ l := by
      rintro rfl
      obtain ⟨o, passes⟩ := passes
      have before := last j o (sameKey.trans keyAt) passes
      omega
    exact separate.apart i l other x covered ((plans l q' plan plannedAt).1.within x reached)
  obtain ⟨n, bytes⟩ := objectBytes_uniform 1 (Nat.succ_pos _ : 0 < length) r some_bytes
  have front := holds (uniformFiles 1 length) (uniform 1) after performed r first
  rw [bytes, gather_eq_replicate untouched] at front
  have one : (1 : UInt8) ∈ replicate (calculateSliceSize (destination i)) 0 :=
    front.subset (mem_replicate.mpr ⟨Nat.succ_ne_zero n, rfl⟩)
  have equal := eq_of_mem_replicate one
  cases equal

/-- An index that succeeds gets its object exactly if its key does not come again. -/
theorem batchRead_holds_iff (lengths : planned.length = keys.length) (separate : Separate destination)
    {report : ρ}
    (success : (batchRead t clock fail preferAllocInSameNode keys planned).1[i]? = some (Except.ok report)) :
    ∃ q plan, planned[i]? = some (Except.ok (q, plan)) ∧ plan.report = report ∧
      (HoldsObject t (batchRead t clock fail preferAllocInSameNode keys planned).2 q (destination i) ↔
        LastOfKey keys (Passes planned) q i) := by
  obtain ⟨log, a, ⟨key, q, plan⟩, valid, fine, reported⟩ := batchRead_ok lengths success
  refine ⟨q, plan, (mem_validOperations.mp (mem_of_getElem? valid)).2, reported, ?_⟩
  rw [log]
  exact ⟨last_of_holds plans separate, fun last => holds_of_last plans valid last fine⟩

end

end

end Mooncake.Client
