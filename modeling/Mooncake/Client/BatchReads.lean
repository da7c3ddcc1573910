import Mooncake.Client.PyGet

/-! The three batch reads, index by index. An index that is reported as read has its object in its
own destination unless its key comes again; the calls for one key always have it there. -/
namespace Mooncake.Client

open Option List
open Master (ErrorCode ReplicaDescriptor)

variable {q : QueryResult} {r : ReplicaDescriptor} {plan : Plan Nat} {ρ : Type}

theorem planKey_ok {ε : Type} {fail : ErrorCode → ε} {prepare : QueryResult → Except ε (Plan ρ)}
    {result : Except ErrorCode QueryResult} {plan : Plan ρ} (planned : planKey fail prepare result = .ok (q, plan)) :
    result = .ok q ∧ prepare q = .ok plan := by
  cases result with
  | error e => cases planned
  | ok q' =>
    simp only [planKey] at planned
    cases prepared : prepare q' with
    | error e => simp [prepared, Except.map] at planned
    | ok plan' =>
      rw [prepared] at planned
      cases planned
      exact ⟨rfl, prepared⟩

variable {allocate : Nat → Nat → Option BufferHandle}

theorem prepareBuffer_ok {i : Nat} {plan : Plan BufferHandle}
    (prepared : prepareBuffer allocate i q = .ok plan) :
    ∃ r, q.replicas.head? = some r ∧ allocate i (calculateTotalSize r) = some plan.report ∧
      plan.slices = allocateSlices r plan.report.ptr := by
  unfold prepareBuffer at prepared
  split at prepared
  · cases prepared
  next r rest listed =>
    split at prepared
    · cases prepared
    · split at prepared
      · cases prepared
      next handle allocated =>
        cases prepared
        exact ⟨r, by rw [listed]; rfl, allocated, rfl⟩

theorem prepareInto_ok {buffer size : Nat} (prepared : prepareInto buffer size q = .ok plan) :
    ∃ r, q.replicas.head? = some r ∧ calculateTotalSize r ≤ size ∧ plan.slices = allocateSlices r buffer := by
  unfold prepareInto at prepared
  split at prepared
  · cases prepared
  next r rest listed =>
    split at prepared
    · cases prepared
    next enough =>
      cases prepared
      exact ⟨r, by rw [listed]; rfl, Nat.le_of_not_lt enough, rfl⟩

theorem prepareIntoMultiBuffers_ok {buffers sizes : List Nat}
    (prepared : prepareIntoMultiBuffers buffers sizes q = .ok plan) :
    ∃ r, q.replicas.head? = some r ∧ calculateTotalSize r ≤ sizes.sum ∧ plan.slices = buffers.zipWith Slice.mk sizes := by
  unfold prepareIntoMultiBuffers at prepared
  split at prepared
  · cases prepared
  next r rest listed =>
    split at prepared
    · cases prepared
    next enough =>
      split at prepared
      · cases prepared
        exact ⟨r, by rw [listed]; rfl, Nat.le_of_not_lt enough, rfl⟩
      · cases prepared

theorem fits_allocateSlices (preferAllocInSameNode : Bool) {buffer size : Nat} {plan : Plan ρ}
    (first : q.replicas.head? = some r) (enough : calculateTotalSize r ≤ size) (real : buffer ≠ 0)
    (cut : plan.slices = allocateSlices r buffer) : Fits preferAllocInSameNode [⟨buffer, size⟩] q plan where
  front m := by
    rw [cut, gather_allocateSlices, gather_cons, gather_nil, append_nil, ← Nat.add_sub_cancel' enough, Extent.read_add]
    exact prefix_append _ _
  within a covered := by
    obtain ⟨s, member, lower, upper⟩ := covered
    rw [cut] at member
    have inside := allocateSlices_within r buffer s member
    exact ⟨_, mem_singleton.mpr rfl, by simp only; omega, by simp only; omega⟩
  real := by
    rw [cut]
    exact allocateSlices_real r real
  large := by
    rintro - r' first'
    cases first.symm.trans first'
    rw [cut, ← length_gather (fun _ => 0), gather_allocateSlices, Extent.length_read]

theorem fits_whole (preferAllocInSameNode : Bool) {buffers sizes : List Nat} {plan : Plan ρ}
    (first : q.replicas.head? = some r) (enough : calculateTotalSize r ≤ sizes.sum)
    (matching : buffers.length = sizes.length) (real : ∀ s ∈ buffers.zipWith Slice.mk sizes, s.ptr ≠ 0)
    (whole : plan.slices = buffers.zipWith Slice.mk sizes) :
    Fits preferAllocInSameNode (buffers.zipWith Slice.mk sizes) q plan where
  front m := by rw [whole]
  within a covered := by rwa [whole] at covered
  real := by rwa [whole]
  large := by
    rintro - r' first'
    cases first.symm.trans first'
    have own : (buffers.zipWith Slice.mk sizes).map (·.size) = sizes :=
      ext_getElem (by simp [matching]) (fun k _ _ => by simp)
    rw [whole, calculateSliceSize, own]
    exact enough

section
variable {t : TransferSubmitter} {clock : List ReadEvent → Int} {queries : List (Except ErrorCode QueryResult)}

variable {q : QueryResult} {i : Nat} {plan : Plan Nat}

theorem planBuffer_ok {plan : Plan BufferHandle}
    (planned : (planBuffer queries allocate)[i]? = some (Except.ok (q, plan))) :
    queries[i]? = some (Except.ok q) ∧ prepareBuffer allocate i q = .ok plan := by
  obtain ⟨result, queryAt, key⟩ := map_eq_some_iff.mp (getElem?_mapIdx.symm.trans planned)
  obtain ⟨rfl, prepared⟩ := planKey_ok key
  exact ⟨queryAt, prepared⟩

theorem planInto_ok {buffers sizes : List Nat}
    (planned : (planInto queries buffers sizes)[i]? = some (Except.ok (q, plan))) :
    ∃ buffer size, queries[i]? = some (Except.ok q) ∧ intoDestination buffers sizes i = [⟨buffer, size⟩] ∧
      prepareInto buffer size q = .ok plan := by
  obtain ⟨⟨result, buffer, size⟩, zipped, key⟩ := map_eq_some_iff.mp (getElem?_map.symm.trans planned)
  obtain ⟨queryAt, given⟩ := getElem?_zip_eq_some.mp zipped
  obtain ⟨bufferAt, sizeAt⟩ := getElem?_zip_eq_some.mp given
  obtain ⟨rfl, prepared⟩ := planKey_ok key
  refine ⟨buffer, size, queryAt, ?_, prepared⟩
  rw [intoDestination, getElem?_zipWith_eq_some.mpr ⟨_, _, bufferAt, sizeAt, rfl⟩]
  rfl

theorem planIntoMultiBuffers_ok {allBuffers allSizes : List (List Nat)}
    (planned : (planIntoMultiBuffers queries allBuffers allSizes)[i]? = some (Except.ok (q, plan))) :
    ∃ buffers sizes, queries[i]? = some (Except.ok q) ∧ (buffers, sizes) ∈ allBuffers.zip allSizes ∧
      multiDestination allBuffers allSizes i = buffers.zipWith Slice.mk sizes ∧
      prepareIntoMultiBuffers buffers sizes q = .ok plan := by
  obtain ⟨⟨result, buffers, sizes⟩, zipped, key⟩ := map_eq_some_iff.mp (getElem?_map.symm.trans planned)
  obtain ⟨queryAt, given⟩ := getElem?_zip_eq_some.mp zipped
  obtain ⟨bufferAt, sizeAt⟩ := getElem?_zip_eq_some.mp given
  obtain ⟨rfl, prepared⟩ := planKey_ok key
  refine ⟨buffers, sizes, queryAt, mem_of_getElem? given, ?_, prepared⟩
  rw [multiDestination, getElem?_zipWith_eq_some.mpr ⟨_, _, bufferAt, sizeAt, rfl⟩]
  rfl

section
variable {keys : List String} (sizes : queries.length = keys.length)
  (answered : ∀ q, .ok q ∈ queries → ListAnswered q.replicas)
include sizes answered

theorem batchGetBuffer_holds_iff (asked : ∀ i size handle, allocate i size = some handle → handle.size = size)
    (separate : Separate (bufferDestination queries allocate)) {i : Nat} {handle : BufferHandle}
    (success : (batchGetBufferInternal t clock keys queries allocate).1[i]? = some (some handle)) :
    ∃ q, queries[i]? = some (Except.ok q) ∧
      (HoldsObject t (batchGetBufferInternal t clock keys queries allocate).2 q [⟨handle.ptr, handle.size⟩] ↔
        LastOfKey keys (Passes (planBuffer queries allocate)) q i) := by
  obtain ⟨outcome, outcomeAt, fine⟩ := map_eq_some_iff.mp (getElem?_map.symm.trans success)
  have succeeded : outcome = Except.ok handle := by
    cases outcome with
    | error e => cases fine
    | ok h => exact congrArg Except.ok (some.inj fine)
  rw [succeeded] at outcomeAt
  have destination : ∀ (i : Nat) q plan, (planBuffer queries allocate)[i]? = some (Except.ok (q, plan)) →
      bufferDestination queries allocate i = [⟨plan.report.ptr, plan.report.size⟩] := by
    intro i q plan planned
    rw [bufferDestination, planned]
  have plans : ∀ (i : Nat) q plan, (planBuffer queries allocate)[i]? = some (Except.ok (q, plan)) →
      Fits false (bufferDestination queries allocate i) q plan ∧ ListAnswered q.replicas := by
    intro i q plan planned
    obtain ⟨queryAt, prepared⟩ := planBuffer_ok planned
    obtain ⟨r, first, allocated, cut⟩ := prepareBuffer_ok prepared
    have own := destination i q plan planned
    have real := separate.real i _ (own ▸ mem_singleton.mpr rfl)
    rw [own]
    exact ⟨fits_allocateSlices _ first (asked _ _ _ allocated).ge real cut, answered q (mem_of_getElem? queryAt)⟩
  have lengths : (planBuffer queries allocate).length = keys.length := by rw [planBuffer, length_mapIdx, sizes]
  obtain ⟨q, plan, planned, rfl, holds⟩ := batchRead_holds_iff plans lengths separate outcomeAt
  rw [destination i q plan planned] at holds
  exact ⟨q, (planBuffer_ok planned).1, holds⟩

theorem batchGetInto_holds_iff {buffers lengths : List Nat}
    (separate : Separate (intoDestination buffers lengths)) {i n : Nat}
    (success : (batchGetIntoInternal t clock keys queries buffers lengths).1[i]? = some (Except.ok n)) :
    ∃ q, queries[i]? = some (Except.ok q) ∧
      (HoldsObject t (batchGetIntoInternal t clock keys queries buffers lengths).2 q (intoDestination buffers lengths i) ↔
        LastOfKey keys (Passes (planInto queries buffers lengths)) q i) := by
  have plans : ∀ (i : Nat) q plan, (planInto queries buffers lengths)[i]? = some (Except.ok (q, plan)) →
      Fits false (intoDestination buffers lengths i) q plan ∧ ListAnswered q.replicas := by
    intro i q plan planned
    obtain ⟨buffer, size, queryAt, own, prepared⟩ := planInto_ok planned
    obtain ⟨r, first, enough, cut⟩ := prepareInto_ok prepared
    have real := separate.real i _ (own ▸ mem_singleton.mpr rfl)
    rw [own]
    exact ⟨fits_allocateSlices _ first enough real cut, answered q (mem_of_getElem? queryAt)⟩
  unfold batchGetIntoInternal at success ⊢
  split at success
  · rw [getElem?_map] at success
    simp at success
  next matching =>
    rw [if_neg matching]
    obtain ⟨oneBuffer, oneSize⟩ := not_or.mp matching
    have length : (planInto queries buffers lengths).length = keys.length := by
      simp only [planInto, length_map, length_zip]
      omega
    obtain ⟨q, plan, planned, -, holds⟩ := batchRead_holds_iff plans length separate success
    obtain ⟨buffer, size, queryAt, -⟩ := planInto_ok planned
    exact ⟨q, queryAt, holds⟩

theorem batchGetIntoMultiBuffers_holds_iff {allBuffers allSizes : List (List Nat)} {prefer : Bool}
    (paired : ∀ p ∈ allBuffers.zip allSizes, p.1.length = p.2.length)
    (separate : Separate (multiDestination allBuffers allSizes)) {i n : Nat}
    (success : (batchGetIntoMultiBuffersInternal t clock keys queries allBuffers allSizes prefer).1[i]? =
      some (Except.ok n)) :
    ∃ q, queries[i]? = some (Except.ok q) ∧
      (HoldsObject t (batchGetIntoMultiBuffersInternal t clock keys queries allBuffers allSizes prefer).2 q
          (multiDestination allBuffers allSizes i) ↔
        LastOfKey keys (Passes (planIntoMultiBuffers queries allBuffers allSizes)) q i) := by
  have plans : ∀ (i : Nat) q plan, (planIntoMultiBuffers queries allBuffers allSizes)[i]? = some (Except.ok (q, plan)) →
      Fits prefer (multiDestination allBuffers allSizes i) q plan ∧ ListAnswered q.replicas := by
    intro i q plan planned
    obtain ⟨buffers, lengths, queryAt, listed, own, prepared⟩ := planIntoMultiBuffers_ok planned
    obtain ⟨r, first, enough, whole⟩ := prepareIntoMultiBuffers_ok prepared
    have real := separate.real i
    rw [own] at real ⊢
    exact ⟨fits_whole _ first enough (paired _ listed) real whole, answered q (mem_of_getElem? queryAt)⟩
  unfold batchGetIntoMultiBuffersInternal at success ⊢
  split at success
  · rw [getElem?_map] at success
    simp at success
  next matching =>
    rw [if_neg matching]
    obtain ⟨oneList, oneSizes⟩ := not_or.mp matching
    have length : (planIntoMultiBuffers queries allBuffers allSizes).length = keys.length := by
      simp only [planIntoMultiBuffers, length_map, length_zip]
      omega
    obtain ⟨q, plan, planned, -, holds⟩ := batchRead_holds_iff plans length separate success
    obtain ⟨buffers, lengths, queryAt, -⟩ := planIntoMultiBuffers_ok planned
    exact ⟨q, queryAt, holds⟩

end

theorem get_holds {q : QueryResult} {destination : List Slice} {ρ : Type} {plan : Plan ρ}
    (answered : ListAnswered q.replicas) (fits : Fits false destination q plan)
    (success : (get t clock q plan.slices).1 = .ok ()) :
    HoldsObject t (get t clock q plan.slices).2 q destination := by
  intro files m m' performed r first
  have read : (GetCall.get q plan.slices).Fetched t clock 0 q plan.slices files m m' :=
    ⟨congrArg some success, rfl, rfl, fits.real, performed⟩
  obtain ⟨r', chosen, normal, -⟩ := read.got
  cases answered.first first chosen
  exact (normal rfl).trans (fits.front _)

theorem getBuffer_holds {q : QueryResult} {allocate : Nat → Option BufferHandle} {handle : BufferHandle}
    (answered : ListAnswered q.replicas) (asked : ∀ size handle, allocate size = some handle → handle.size = size)
    (real : handle.ptr ≠ 0) (success : (getBuffer t clock (.ok q) allocate).1 = some handle) :
    HoldsObject t (getBuffer t clock (.ok q) allocate).2 q [⟨handle.ptr, handle.size⟩] := by
  unfold getBuffer at success ⊢
  cases planned : planKey (fun _ => ()) (prepareBuffer (fun _ => allocate) 0) (.ok q) with
  | error e => simp [planned] at success
  | ok o =>
    obtain ⟨q', plan⟩ := o
    obtain ⟨same, prepared⟩ := planKey_ok planned
    cases same
    obtain ⟨r, first, allocated, cut⟩ := prepareBuffer_ok prepared
    simp only [planned] at success ⊢
    cases fine : (get t clock q plan.slices).1 with
    | error e => simp [fine, Except.toOption] at success
    | ok =>
      obtain rfl : plan.report = handle := by simpa [fine, Except.toOption] using success
      exact get_holds answered (fits_allocateSlices _ first (asked _ _ allocated).ge real cut) fine

theorem getInto_holds {q : QueryResult} {buffer size n : Nat} (answered : ListAnswered q.replicas) (real : buffer ≠ 0)
    (success : (getIntoInternal t clock (.ok q) buffer size).1 = .ok n) :
    HoldsObject t (getIntoInternal t clock (.ok q) buffer size).2 q [⟨buffer, size⟩] := by
  simp only [getIntoInternal] at success ⊢
  cases listed : q.replicas with
  | nil => simp [listed] at success
  | cons r rest =>
    simp only [listed] at success ⊢
    split at success
    · cases success
    next enough =>
      rw [if_neg enough]
      cases fine : (get t clock q (allocateSlices r buffer)).1 with
      | error e => simp [fine, Except.map] at success
      | ok =>
        have first : q.replicas.head? = some r := by rw [listed]; rfl
        have fits : Fits false [⟨buffer, size⟩] q (⟨allocateSlices r buffer, ()⟩ : Plan Unit) :=
          fits_allocateSlices false first (Nat.le_of_not_lt enough) real rfl
        exact get_holds answered fits fine

end

/-- A call for one key that succeeds leaves the object in its destination. So does a batch call at
an index exactly if the object has no bytes or the key does not come again at a later index that
passes the checks. -/
theorem batch_reads_hold_iff (t : TransferSubmitter) (clock : List ReadEvent → Int) {keys : List String}
    {queries : List (Except ErrorCode QueryResult)} (sizes : queries.length = keys.length)
    (answered : ∀ q, .ok q ∈ queries → ListAnswered q.replicas) :
    (∀ q allocate handle, .ok q ∈ queries → (∀ size h, allocate size = some h → h.size = size) → handle.ptr ≠ 0 →
      (getBuffer t clock (.ok q) allocate).1 = some handle →
      HoldsObject t (getBuffer t clock (.ok q) allocate).2 q [⟨handle.ptr, handle.size⟩]) ∧
    (∀ q buffer size n, .ok q ∈ queries → buffer ≠ 0 → (getIntoInternal t clock (.ok q) buffer size).1 = .ok n →
      HoldsObject t (getIntoInternal t clock (.ok q) buffer size).2 q [⟨buffer, size⟩]) ∧
    (∀ allocate, (∀ i size h, allocate i size = some h → h.size = size) →
      Separate (bufferDestination queries allocate) → ∀ (i : Nat) handle,
        (batchGetBufferInternal t clock keys queries allocate).1[i]? = some (some handle) →
        ∃ q, queries[i]? = some (Except.ok q) ∧
          (HoldsObject t (batchGetBufferInternal t clock keys queries allocate).2 q [⟨handle.ptr, handle.size⟩] ↔
            LastOfKey keys (Passes (planBuffer queries allocate)) q i)) ∧
    (∀ buffers lengths, Separate (intoDestination buffers lengths) → ∀ i n : Nat,
        (batchGetIntoInternal t clock keys queries buffers lengths).1[i]? = some (Except.ok n) →
        ∃ q, queries[i]? = some (Except.ok q) ∧
          (HoldsObject t (batchGetIntoInternal t clock keys queries buffers lengths).2 q
              (intoDestination buffers lengths i) ↔
            LastOfKey keys (Passes (planInto queries buffers lengths)) q i)) ∧
    (∀ allBuffers allSizes prefer, (∀ p ∈ allBuffers.zip allSizes, p.1.length = p.2.length) →
      Separate (multiDestination allBuffers allSizes) → ∀ i n : Nat,
        (batchGetIntoMultiBuffersInternal t clock keys queries allBuffers allSizes prefer).1[i]? = some (Except.ok n) →
        ∃ q, queries[i]? = some (Except.ok q) ∧
          (HoldsObject t (batchGetIntoMultiBuffersInternal t clock keys queries allBuffers allSizes prefer).2 q
              (multiDestination allBuffers allSizes i) ↔
            LastOfKey keys (Passes (planIntoMultiBuffers queries allBuffers allSizes)) q i)) :=
  ⟨fun q _ _ found asked real success => getBuffer_holds (answered q found) asked real success,
    fun q _ _ _ found real success => getInto_holds (answered q found) real success,
    fun _ asked separate _ _ success => batchGetBuffer_holds_iff sizes answered asked separate success,
    fun _ _ separate _ _ success => batchGetInto_holds_iff sizes answered separate success,
    fun _ _ _ paired separate _ _ success => batchGetIntoMultiBuffers_holds_iff sizes answered paired separate success⟩

namespace Sample
open Master Master.Sample

theorem found_answered : ListAnswered found.replicas := by
  have outcome : ((Run.run (World.step params) (World.start params : State)
      (mount segmentA clientA ++ .putStart "k" [4, 4] segmentConfig :: replicate 7 (.putAdvance shard []) ++
        [.putEnd "k" .memory])).bind (fun w => (w.exec params (.getReplicaList "k")).map (·.2))) =
      some (.replicas (.ok found.replicas)) := by decide +kernel
  obtain ⟨w, -, seen⟩ := reached_of_outcome outcome
  obtain ⟨⟨w', reply⟩, done, rfl⟩ := map_eq_some_iff.mp seen
  exact ⟨_, _, _, params, w, w', "k", done⟩

def twice : List String := ["k", "k"]
def foundTwice : List (Except ErrorCode QueryResult) := [.ok found, .ok found]

theorem two_separate : Separate (intoDestination [100, 200] [8, 8]) where
  real i s member := by
    match i with
    | 0 => cases mem_singleton.mp member; decide
    | 1 => cases mem_singleton.mp member; decide
    | _ + 2 => cases member
  apart i j other a first second := by
    obtain ⟨s, inFirst, lower, upper⟩ := first
    obtain ⟨s', inSecond, lower', upper'⟩ := second
    match i, j with
    | 0, 0 => exact other rfl
    | 0, 1 | 1, 0 =>
      cases mem_singleton.mp inFirst
      cases mem_singleton.mp inSecond
      simp only at lower upper lower' upper'
      omega
    | 1, 1 => exact other rfl
    | _ + 2, _ => cases inFirst
    | 0, _ + 2 | 1, _ + 2 => cases inSecond

def readTwice : List ReadEvent :=
  let requests : List TransferRequest := [⟨.read, 200, "a:1", 4096, 4⟩, ⟨.read, 204, "a:1", 4100, 4⟩]
  [.completed 0 ⟨.engine requests, .ok⟩, .completed 1 ⟨.engine requests, .ok⟩, .clock 0]

end Sample

open Sample in
theorem batch_reads_hold_second :
    let log := (batchGetIntoInternal submitter (fun _ => 0) twice foundTwice [100, 200] [8, 8]).2
    ¬ HoldsObject submitter log found [⟨100, 8⟩] ∧ HoldsObject submitter log found [⟨200, 8⟩] := by
  intro log
  have answered : ∀ q, .ok q ∈ foundTwice → ListAnswered q.replicas := by
    intro q member
    have same : q = found := by simpa [foundTwice] using member
    exact same ▸ found_answered
  have sizes : foundTwice.length = twice.length := rfl
  have into := (batch_reads_hold_iff submitter (fun _ => 0) sizes answered).2.2.2.1 [100, 200] [8, 8] two_separate
  have passes : Passes (planInto foundTwice [100, 200] [8, 8]) 1 := ⟨_, rfl⟩
  constructor
  · obtain ⟨q, queryAt, holds⟩ := into 0 8 (by decide)
    cases Except.ok.inj (some.inj queryAt)
    intro held
    rcases holds.mp held with empty | last
    · exact absurd (empty _ rfl) (by decide)
    · exact last 1 (by decide) rfl passes
  · obtain ⟨q, queryAt, holds⟩ := into 1 8 (by decide)
    cases Except.ok.inj (some.inj queryAt)
    refine holds.mpr (.inr (fun j later same => ?_))
    have outside : twice.length ≤ j := later
    rw [getElem?_eq_none outside] at same
    cases same

open Sample in
/-- All three calls report success at both indices, and only the second destination has the object. -/
theorem first_of_two_gets_nothing :
    batchGetBufferInternal submitter (fun _ => 0) twice foundTwice (fun i size => some ⟨100 * (i + 1), size⟩) =
      ([some ⟨100, 8⟩, some ⟨200, 8⟩], readTwice) ∧
    batchGetIntoInternal submitter (fun _ => 0) twice foundTwice [100, 200] [8, 8] = ([.ok 8, .ok 8], readTwice) ∧
    batchGetIntoMultiBuffersInternal submitter (fun _ => 0) twice foundTwice [[100, 104], [200, 204]] [[4, 4], [4, 4]]
      false = ([.ok 8, .ok 8], readTwice) ∧
    (∀ k f, .completed k f ∈ readTwice →
      f.Performed submitter k (fun _ => []) between (memoryWith "here" 200 values between)) ∧
    objectBytes (fun _ => []) between (.memory twoBuffers .complete) = values ∧
    gather (memoryWith "here" 200 values between "here") [⟨100, 8⟩] = List.replicate 8 0 ∧
    gather (memoryWith "here" 200 values between "here") [⟨200, 8⟩] = values := by
  refine ⟨by decide, by decide, by decide, fun k f completed => ?_, by decide, by decide, by decide⟩
  have engine : f = ⟨.engine [⟨.read, 200, "a:1", 4096, 4⟩, ⟨.read, 204, "a:1", 4100, 4⟩], .ok⟩ := by
    simp only [readTwice, mem_cons, ReadEvent.completed.injEq, reduceCtorEq, not_mem_nil, or_false] at completed
    rcases completed with ⟨-, same⟩ | ⟨-, same⟩ <;> exact same
  rw [engine]
  intro _
  decide

end Mooncake.Client
