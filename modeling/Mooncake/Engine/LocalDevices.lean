import Mooncake.Engine.PublishedDevices
import Mooncake.Engine.Submission

/-! How a submission to the RDMA transport cuts its requests, and which local device each slice is given to. A
device is drawn once for a whole request, without regard to the retry count or to whether the device is active;
the search at each slice only runs where that draw has found none. The loops are those of the world of batches,
with the local devices for its searches, and keep the contexts and the keys that do not matter there. -/
namespace Mooncake.Engine.LocalDevices
open Batch Engine.Topology List

/-- The random numbers of a call by task and offset, and which of its slices come from the cache. -/
structure Draws where
  forRequest : (task : Nat) → Nat → Nat × Nat
  forSlice : (task offset retry : Nat) → Nat → Nat × Nat
  fromCache : (task offset : Nat) → Bool

structure Cut where
  slice : Slice
  sourceLkey : Option Nat

structure Task where
  slices : List Cut
  totalBytes : Nat

/-- `slicesToPost` and what has been posted, with the contexts. -/
structure Plan where
  slicesToPost : List (Nat × Cut)
  posted : List (Nat × Cut)
  nrSlices : Nat

namespace Plan

def push (p : Plan) (device : Nat) (cut : Cut) (fromCache : Bool) : Plan :=
  ⟨p.slicesToPost ++ [(device, cut)], p.posted, if fromCache then p.nrSlices else p.nrSlices + 1⟩

def submitPostSend (p : Plan) : Plan := ⟨[], p.posted ++ p.slicesToPost, 0⟩

end Plan

section
variable (c : GlobalConfig) (desc : SegmentDesc) (active : Nat → Bool) (draws : Draws) (task : Nat)
  (request : TransferRequest)

def devices : Devices where
  forRequest task request := desc.selectDevice request.source request.length "" 0 (draws.forRequest task)
  forSlice task request offset retry :=
    let slice := c.slice (0, task) request offset
    desc.selectDevice slice.sourceAddr slice.length "" retry (draws.forSlice task offset retry)
  active _ _ _ device := active device
  stillActive _ _ device := active device

def sliceBody (s : Plan × Task) (offset : Nat) : (Plan × Task) × Status :=
  let slice := c.slice (0, task) request offset
  match (devices c desc active draws).pick c request task offset with
  | none => (s, .addressNotRegistered)
  | some (buffer, device) =>
    if active device then
      let cut := ⟨slice, desc.buffers[buffer]?.bind (·.lkey[device]?)⟩
      let p := s.1.push device cut (draws.fromCache task offset)
      ((if c.submitWatermark ≤ p.nrSlices then p.submitPostSend else p,
        ⟨s.2.slices ++ [cut], s.2.totalBytes + slice.length⟩), .ok)
    else (s, .invalidArgument)

def submitTask (s : Plan × List Task) : (Plan × List Task) × Status :=
  let last := Rdma.sliceLoop c request (sliceBody c desc active draws task request) request.length
    ({ s.1 with nrSlices := 0 }, ⟨[], 0⟩) 0
  ((last.1.1, s.2 ++ [last.1.2]), last.2)

def submitTransferTask (requests : List TransferRequest) : Except Status (Plan × List Task) :=
  let r := Rdma.taskLoop (submitTask c desc active draws) 0 requests (⟨[], [], 0⟩, [])
  if r.2 = .ok then .ok (r.1.1.submitPostSend, r.1.2) else .error r.2

end

/-! ## Where the slices are -/

/-- The slices cover the request from one offset to another, each at the same distance from both ends. -/
def Tiles (request : TransferRequest) : (first : Nat) → List Cut → (last : Nat) → Prop
  | first, [], last => first = last
  | first, s :: rest, last =>
    s.slice.sourceAddr = request.source + first ∧ s.slice.destAddr = request.targetOffset + first ∧
      0 < s.slice.length ∧ Tiles request (first + s.slice.length) rest last

/-- The slice has the key of a buffer around it, and has one if the buffer has a key for each device, as
registered ones do. -/
def Keyed (desc : SegmentDesc) (device : Nat) (s : Cut) : Prop :=
  ∃ buffer ∈ desc.buffers, (buffer.addr ≤ s.slice.sourceAddr ∧
    s.slice.sourceAddr + s.slice.length ≤ buffer.addr + buffer.length) ∧
    s.sourceLkey = buffer.lkey[device]? ∧
      (buffer.lkey.length = (resolve desc.topology).hcaList.length → s.sourceLkey.isSome)

/-- Each slice is given to one context, once. -/
structure Placed (desc : SegmentDesc) (slices : List Cut) (given : List (Nat × Cut)) : Prop where
  once : given.map Prod.snd = slices
  keyed : ∀ x ∈ given, Keyed desc x.1 x.2

structure Complete (c : GlobalConfig) (request : TransferRequest) (t : Task) : Prop where
  tiles : Tiles request 0 t.slices request.length
  total : t.totalBytes = request.length
  sizes : ∀ s ∈ t.slices, s.slice.length ≤ c.sliceSize + c.fragmentLimit ∧
    (1 < t.slices.length → min c.sliceSize (c.fragmentLimit + 1) ≤ s.slice.length)

variable {c : GlobalConfig} {desc : SegmentDesc} {active : Nat → Bool} {draws : Draws} {task offset : Nat}
  {request : TransferRequest} {s s' : Plan × Task}

theorem Tiles.snoc {slices : List Cut} {x : Cut} {first last : Nat} (tiles : Tiles request first slices last)
    (source : x.slice.sourceAddr = request.source + last) (dest : x.slice.destAddr = request.targetOffset + last)
    (positive : 0 < x.slice.length) : Tiles request first (slices ++ [x]) (last + x.slice.length) := by
  induction slices generalizing first with
  | nil =>
    cases tiles
    exact ⟨source, dest, positive, rfl⟩
  | cons y rest ih => exact ⟨tiles.1, tiles.2.1, tiles.2.2.1, ih tiles.2.2.2⟩

theorem Placed.snoc {slices : List Cut} {given : List (Nat × Cut)} {device : Nat} {x : Cut}
    (placed : Placed desc slices given) (keyed : Keyed desc device x) :
    Placed desc (slices ++ [x]) (given ++ [(device, x)]) := by
  refine ⟨by rw [map_append, placed.once]; rfl, fun y member => ?_⟩
  rcases mem_append.mp member with old | new
  · exact placed.keyed y old
  · cases mem_singleton.mp new
    exact keyed

/-! ## One slice -/

theorem selected_holds {source length retry buffer device : Nat} {random : Nat → Nat × Nat}
    (selected : desc.selectDevice source length "" retry random = some (buffer, device)) :
    ∃ b, desc.buffers[buffer]? = some b ∧ (b.addr ≤ source ∧ source + length ≤ b.addr + b.length) ∧
      device < (resolve desc.topology).hcaList.length := by
  obtain ⟨i, b, place, found, range, picked⟩ := SegmentDesc.selectFrom_cases selected
  rw [Nat.zero_add] at place
  have means : ∃ location, Means (resolve desc.topology).hcaList (mentions desc.topology) location device :=
    picked.elim (fun here => ⟨_, selectDevice_means here⟩) (fun anywhere => ⟨_, selectDevice_means anywhere.2⟩)
  obtain ⟨-, hca, named, -⟩ := means
  exact ⟨b, place ▸ found, range, (List.getElem?_eq_some_iff.mp named).1⟩

theorem findDevice_selected {d : Devices} {retry rounds : Nat} {found : Nat × Nat}
    (result : d.findDevice task request offset retry rounds = some found) :
    ∃ retry', d.forSlice task request offset retry' = some found := by
  induction rounds generalizing retry with
  | zero => cases result
  | succ rounds ih =>
    unfold Devices.findDevice at result
    split at result
    · exact ih result
    next selected =>
      split at result
      · cases result
        exact ⟨retry, selected⟩
      · exact ih result

theorem pick_holds {buffer device : Nat} (inside : offset < request.length)
    (chosen : (devices c desc active draws).pick c request task offset = some (buffer, device)) :
    ∃ b, desc.buffers[buffer]? = some b ∧ (b.addr ≤ (c.slice (0, task) request offset).sourceAddr ∧
      (c.slice (0, task) request offset).sourceAddr + (c.slice (0, task) request offset).length ≤ b.addr + b.length) ∧
      device < (resolve desc.topology).hcaList.length := by
  rcases Option.or_eq_some_iff.mp chosen with drawn | ⟨-, searched⟩
  · obtain ⟨b, found, range, known⟩ := selected_holds drawn
    have within : offset + (c.slice (0, task) request offset).length ≤ request.length := by
      have cover := Rdma.offset_add_length c (0, task) inside
      split at cover
      · exact Nat.le_of_eq cover
      · omega
    have start : (c.slice (0, task) request offset).sourceAddr = request.source + offset := rfl
    exact ⟨b, found, by omega, known⟩
  · obtain ⟨retry, selected⟩ := findDevice_selected searched
    exact selected_holds selected

/-- The loop's invariant. Before the last slice all have the full size. -/
structure Cutting (c : GlobalConfig) (request : TransferRequest) (t : Task) (offset : Nat) : Prop where
  tiles : Tiles request 0 t.slices offset
  total : t.totalBytes = offset
  sizes : ∀ s ∈ t.slices, s.slice.length = c.sliceSize ∨ offset = request.length ∧
    s.slice.length ≤ c.sliceSize + c.fragmentLimit ∧ (t.slices.length = 1 ∨ c.fragmentLimit < s.slice.length)
  first : offset = 0 → t.slices = []

structure Kept (c : GlobalConfig) (desc : SegmentDesc) (request : TransferRequest) (before : List Cut)
    (s : Plan × Task) (offset : Nat) : Prop where
  cutting : Cutting c request s.2 offset
  placed : Placed desc (before ++ s.2.slices) (s.1.posted ++ s.1.slicesToPost)

theorem Cutting.step {t : Task} {x : Cut} (cutting : Cutting c request t offset) (cuts : c.Cuts request offset)
    (cut : x.slice = c.slice (0, task) request offset) :
    Cutting c request ⟨t.slices ++ [x], t.totalBytes + x.slice.length⟩ (offset + x.slice.length) := by
  have inside := cuts.inside
  have cover := Rdma.offset_add_length c (0, task) inside
  have merge := cut ▸ cover
  have positive : 0 < x.slice.length := cut ▸ Rdma.slice_length_pos inside
  have full : ∀ s ∈ t.slices, s.slice.length = c.sliceSize := by
    intro s member
    rcases cutting.sizes s member with full | ⟨last, -⟩
    · exact full
    · omega
  refine ⟨cutting.tiles.snoc (by rw [cut]; rfl) (by rw [cut]; rfl) positive, congrArg (· + x.slice.length) cutting.total,
    fun s member => ?_, fun none => by omega⟩
  rcases mem_append.mp member with old | new
  · exact .inl (full s old)
  · cases mem_singleton.mp new
    split at merge
    next final =>
      refine .inr ⟨merge, ?_, ?_⟩
      · simp only [GlobalConfig.mergeFinalSlice, decide_eq_true_eq] at final
        omega
      · rcases cuts.rest with first | rest
        · exact .inl (by rw [cutting.first first]; rfl)
        · exact .inr (by omega)
    · exact .inl merge.1

theorem sliceBody_kept {before : List Cut} (kept : Kept c desc request before s offset)
    (cuts : c.Cuts request offset) :
    Rdma.Ends (Kept c desc request before · (offset + (c.slice (0, task) request offset).length)) (fun _ _ => True)
      (sliceBody c desc active draws task request s offset) := by
  unfold sliceBody
  split
  · trivial
  next buffer device chosen =>
    split
    · obtain ⟨b, found, range, known⟩ := pick_holds cuts.inside chosen
      have keyed : Keyed desc device ⟨c.slice (0, task) request offset, desc.buffers[buffer]?.bind (·.lkey[device]?)⟩ := by
        refine ⟨b, mem_of_getElem? found, range, by rw [found]; rfl, fun each => ?_⟩
        rw [found, Option.bind_some, isSome_getElem?, each]
        exact known
      refine ⟨kept.cutting.step cuts rfl, ?_⟩
      have placed := kept.placed.snoc keyed
      rw [append_assoc, append_assoc] at placed
      simp only
      split
      · exact (append_nil _).symm ▸ placed
      · exact placed
    · trivial

/-! ## A whole call -/

theorem Cutting.complete {t : Task} (cutting : Cutting c request t request.length) : Complete c request t := by
  refine ⟨cutting.tiles, cutting.total, fun s member => ?_⟩
  rcases cutting.sizes s member with full | ⟨-, small, large⟩
  · omega
  · omega

/-- What a call has done when some of its requests are left. -/
structure Done (c : GlobalConfig) (desc : SegmentDesc) (requests left : List TransferRequest)
    (s : Plan × List Task) : Prop where
  complete : ∃ done, requests = done ++ left ∧ Forall₂ (Complete c) done s.2
  placed : Placed desc (s.2.flatMap Task.slices) (s.1.posted ++ s.1.slicesToPost)

theorem submitTask_done {requests left : List TransferRequest} {s : Plan × List Task}
    (done : Done c desc requests (request :: left) s) :
    Rdma.Ends (Done c desc requests left) (fun _ _ => True) (submitTask c desc active draws task request s) := by
  have start : Kept c desc request (s.2.flatMap Task.slices) ({ s.1 with nrSlices := 0 }, ⟨[], 0⟩) 0 :=
    ⟨⟨rfl, rfl, fun _ none => (not_mem_nil none).elim, fun _ => rfl⟩, (append_nil _).symm ▸ done.placed⟩
  have kept : Rdma.Ends (Kept c desc request (s.2.flatMap Task.slices) · request.length) (fun _ _ => True)
      (Rdma.sliceLoop c request (sliceBody c desc active draws task request) request.length _ 0) :=
    Rdma.sliceLoop_rule (0, task) (fun s offset cuts before => sliceBody_kept before cuts) start
  unfold Rdma.Ends
  split
  next fine =>
    have after := kept.ok fine
    obtain ⟨before, split, complete⟩ := done.complete
    refine ⟨⟨before ++ [request], by rw [split, append_assoc]; rfl,
      rel_append complete (.cons after.cutting.complete .nil)⟩, ?_⟩
    simpa [submitTask] using after.placed
  · trivial

/-- Every slice that has been put on a list has been posted when the call returns. -/
theorem slices_tile_requests (c : GlobalConfig) (desc : SegmentDesc) (active : Nat → Bool) (draws : Draws)
    (requests : List TransferRequest) (p : Plan) (tasks : List Task)
    (done : submitTransferTask c desc active draws requests = .ok (p, tasks)) :
    Forall₂ (Complete c) requests tasks ∧ Placed desc (tasks.flatMap Task.slices) p.posted := by
  have start : Done c desc requests requests (⟨[], [], 0⟩, []) :=
    ⟨⟨[], rfl, .nil⟩, rfl, fun _ none => (not_mem_nil none).elim⟩
  have loops : Rdma.Ends (Done c desc requests []) (fun _ _ => True)
      (Rdma.taskLoop (submitTask c desc active draws) 0 requests _) :=
    Rdma.taskLoop_rule (P := fun _ => Done c desc requests) (fun _ _ _ _ before => submitTask_done before) start
  simp only [submitTransferTask] at done
  split at done
  next fine =>
    have after := loops.ok fine
    obtain ⟨all, split, complete⟩ := after.complete
    rw [append_nil] at split
    subst split
    cases done
    exact ⟨complete, after.placed⟩
  · cases done

namespace LocalSample

def config : GlobalConfig := ⟨4, 1, 9, 1, 2, by decide⟩

def segment (avail : List String) : SegmentDesc :=
  ⟨"node", [], [⟨"cpu:0", 4096, 64, [7, 8], [7, 8]⟩], (∅ : Matrix).insert "cpu:0" ⟨["a"], avail⟩⟩

def zeros : Draws := ⟨fun _ _ => (0, 0), fun _ _ _ _ => (0, 0), fun _ _ => false⟩

def ten : TransferRequest := ⟨4096, 0, 0, 10, 0⟩

end LocalSample

open LocalSample in
theorem slices_tile_request_of_ten : ∃ p tasks,
    submitTransferTask config (segment []) (fun _ => true) zeros [ten] = .ok (p, tasks) ∧
      Forall₂ (Complete config) [ten] tasks ∧ Placed (segment []) (tasks.flatMap Task.slices) p.posted := by
  have computed : (submitTransferTask config (segment []) (fun _ => true) zeros [ten]).isOk = true := by decide +kernel
  cases result : submitTransferTask config (segment []) (fun _ => true) zeros [ten] with
  | error status =>
    rw [result] at computed
    cases computed
  | ok s => exact ⟨s.1, s.2, rfl, slices_tile_requests config (segment []) (fun _ => true) zeros [ten] s.1 s.2 result⟩

/-! ## The world of batches -/

/-- A call ends in the world of batches as it does here. -/
theorem submitTransferTask_status (thread : Nat) (tasks : List (TaskRef × TransferRequest)) (w : World) :
    (Rdma.submitTransferTask c (devices c desc active draws) thread tasks w).2 =
      match submitTransferTask c desc active draws (tasks.map Prod.snd) with
      | .ok _ => .ok
      | .error status => status := by
  have slice (task : Nat) (ref : TaskRef) (request : TransferRequest) (p : Posting) (s : Plan × Task) (offset : Nat) :
      (Rdma.sliceBody c (devices c desc active draws) thread task ref request p offset).2 =
        (sliceBody c desc active draws task request s offset).2 := by
    unfold Rdma.sliceBody sliceBody
    cases (devices c desc active draws).pick c request task offset with
    | none => rfl
    | some chosen => cases up : active chosen.2 <;> simp [devices, up]
  have whole : (Rdma.taskLoop (Rdma.submitTask c (devices c desc active draws) thread) 0 tasks ⟨w, [], 0⟩).2 =
      (Rdma.taskLoop (submitTask c desc active draws) 0 (tasks.map Prod.snd) (⟨[], [], 0⟩, [])).2 :=
    Rdma.taskLoop_status (fun task x _ _ => Rdma.sliceLoop_status (slice task x.1 x.2) ..) ..
  simp only [Rdma.submitTransferTask, submitTransferTask, whole]
  by_cases fine : (Rdma.taskLoop (submitTask c desc active draws) 0 (tasks.map Prod.snd) (⟨[], [], 0⟩, [])).2 = .ok
  · simp only [fine, if_true]
  · simp only [if_neg fine]

/-! ## Retries -/

/-- How an attempt that has been submitted ends: with the transfer, with its failure or the timeout of its
slices, or with the timeout of the call. -/
inductive Polled where
  | completed
  | failed
  | expired
deriving DecidableEq

/-- The submissions of `transferSync` in the order of their retry counts, and what it returns. -/
structure Sync where
  attempts : List (Except Status Plan)
  result : Int

def attemptLoop (submit : Nat → Except Status Plan) (polled : Nat → Polled) : (retry rounds : Nat) → Sync
  | _, 0 => ⟨[], -1⟩
  | retry, rounds + 1 =>
    match submit retry with
    | .error status => ⟨[.error status], -1⟩
    | .ok p =>
      match polled retry with
      | .completed => ⟨[.ok p], 0⟩
      | .expired => ⟨[.ok p], -1⟩
      | .failed =>
        let later := attemptLoop submit polled (retry + 1) rounds
        ⟨.ok p :: later.attempts, later.result⟩

section
variable (c : GlobalConfig) (desc : SegmentDesc) (active : Nat → Bool) (request : TransferRequest)

def submitAttempt (draws : Draws) (retry : Nat) : Except Status Plan :=
  (submitTransferTask c desc active draws [{ request with adviseRetryCnt := retry }]).map Prod.fst

/-- One attempt for each context and one more. -/
def transferSync (draws : Nat → Draws) (polled : Nat → Polled) : Sync :=
  attemptLoop (fun retry => submitAttempt c desc active request (draws retry) retry) polled 0
    ((resolve desc.topology).hcaList.length + 1)

end

/-- A submission is refused only if no listed device is active, and if all attempts are made, then those after
the first have tried every listed device. -/
structure Sync.Reaches (sync : Sync) (desc : SegmentDesc) (active : Nat → Bool) (location : String) : Prop where
  refused : ∀ status, .error status ∈ sync.attempts → ∀ device ∈ candidates desc.topology location, active device = false
  tried : sync.attempts.length = (resolve desc.topology).hcaList.length + 1 → ∀ device ∈ candidates desc.topology location,
    ∃ retry p, 1 ≤ retry ∧ sync.attempts[retry]? = some (.ok p) ∧ ∃ x ∈ p.posted, x.1 = device

section
variable {submit : Nat → Except Status Plan} {polled : Nat → Polled}

theorem attemptLoop_get {retry rounds k : Nat} {a : Except Status Plan}
    (made : (attemptLoop submit polled retry rounds).attempts[k]? = some a) : a = submit (retry + k) := by
  induction rounds generalizing retry k with
  | zero => cases made
  | succ rounds ih =>
    have first : ∀ {x : Except Status Plan}, submit retry = x → [x][k]? = some a → a = submit (retry + k) := by
      intro x submitted made
      obtain ⟨inside, same⟩ := List.getElem?_eq_some_iff.mp made
      cases Nat.lt_one_iff.mp inside
      exact same.symm.trans submitted.symm
    unfold attemptLoop at made
    split at made
    next submitted => exact first submitted made
    next p submitted =>
      split at made
      · exact first submitted made
      · exact first submitted made
      · cases k with
        | zero => exact (Option.some.inj made).symm.trans submitted.symm
        | succ k =>
          rw [Nat.add_comm k 1, ← Nat.add_assoc]
          exact ih made

theorem attemptLoop_length (retry rounds : Nat) (fine : ∀ k, ∃ p, submit k = .ok p) :
    (attemptLoop submit (fun _ => .failed) retry rounds).attempts.length = rounds := by
  induction rounds generalizing retry with
  | zero => rfl
  | succ rounds ih =>
    obtain ⟨p, submitted⟩ := fine retry
    simp [attemptLoop, submitted, ih]

end

section
variable {bufferId device : Nat} {buffer : BufferDesc}

/-- A draw gives a listed device, if there is one. -/
theorem draw_candidate (registered : desc.buffers[bufferId]? = some buffer)
    (inside : buffer.addr ≤ request.source ∧ request.source + request.length ≤ buffer.addr + buffer.length)
    (alone : ∀ i b, desc.buffers[i]? = some b → b.addr ≤ request.source →
      request.source + request.length ≤ b.addr + b.length →
      i = bufferId) (some_device : candidates desc.topology buffer.name ≠ []) (random : Nat → Nat × Nat) :
    ∃ device ∈ candidates desc.topology buffer.name,
      desc.selectDevice request.source request.length "" 0 random = some (bufferId, device) := by
  rw [SegmentDesc.selectDevice, SegmentDesc.selectFrom_alone registered inside alone, Nat.zero_add]
  cases picked : (Topology.selectDevice desc.topology buffer.name "" 0 (random bufferId).1).or
      (Topology.selectDevice desc.topology kWildcardLocation "" 0 (random bufferId).2) with
  | none => exact absurd (candidates_eq_nil picked) some_device
  | some device => exact ⟨device, select_candidate picked, rfl⟩

variable (request)
  (drawn : desc.selectDevice request.source request.length "" 0 (draws.forRequest 0) = some (bufferId, device))
include drawn

theorem pick_drawn (offset : Nat) : (devices c desc active draws).pick c request 0 offset = some (bufferId, device) :=
  Option.or_eq_some_iff.mpr (.inl drawn)

variable (some_bytes : 0 < request.length)
include some_bytes

/-- The device that is drawn for the request gets all its slices. -/
theorem submitTransferTask_active (up : active device = true) :
    ∃ p tasks, submitTransferTask c desc active draws [request] = .ok (p, tasks) ∧ p.posted ≠ [] ∧
      ∀ x ∈ p.posted, x.1 = device := by
  let P (s : Plan × Task) (offset : Nat) : Prop :=
    (0 < offset → s.1.posted ++ s.1.slicesToPost ≠ []) ∧ ∀ x ∈ s.1.posted ++ s.1.slicesToPost, x.1 = device
  have body : ∀ s offset, c.Cuts request offset → P s offset →
      Rdma.Ends (P · (offset + (c.slice (0, 0) request offset).length)) (fun _ _ => False)
        (sliceBody c desc active draws 0 request s offset) := by
    intro s offset _ before
    simp only [sliceBody, pick_drawn request drawn, up, if_true]
    have all : ∀ cut, ∀ x ∈ s.1.posted ++ (s.1.slicesToPost ++ [(device, cut)]), x.1 = device := by
      intro cut x member
      rw [← append_assoc] at member
      rcases mem_append.mp member with old | new
      · exact before.2 x old
      · rw [mem_singleton.mp new]
    split
    · exact ⟨fun _ => by simp [Plan.push, Plan.submitPostSend], (append_nil _).symm ▸ all _⟩
    · exact ⟨fun _ => by simp [Plan.push], all _⟩
  have loops := Rdma.sliceLoop_rule (0, 0) body (s := (⟨[], [], 0⟩, ⟨[], 0⟩))
    ⟨fun zero => absurd zero (Nat.lt_irrefl 0), by simp⟩
  have fine := Classical.not_not.mp loops.error
  simp only [submitTransferTask, Rdma.taskLoop, submitTask, fine, if_true]
  exact ⟨_, _, rfl, (loops.ok fine).1 some_bytes, (loops.ok fine).2⟩

theorem submitTransferTask_inactive (down : active device = false) :
    submitTransferTask c desc active draws [request] = .error .invalidArgument := by
  obtain ⟨n, length⟩ := Nat.exists_eq_add_one.mpr some_bytes
  simp [submitTransferTask, Rdma.taskLoop, submitTask, length, Rdma.sliceLoop, sliceBody, pick_drawn request drawn, down]

variable {request}

theorem submitAttempt_active (up : active device = true) (retry : Nat) :
    ∃ p, submitAttempt c desc active request draws retry = .ok p ∧ p.posted ≠ [] ∧ ∀ x ∈ p.posted, x.1 = device := by
  obtain ⟨p, tasks, submitted, given⟩ :=
    submitTransferTask_active (c := c) { request with adviseRetryCnt := retry } drawn some_bytes up
  exact ⟨p, by rw [submitAttempt, submitted]; rfl, given⟩

end

section
variable {draws : Nat → Draws} (polled : Nat → Polled) {bufferId device : Nat} (some_bytes : 0 < request.length)
include some_bytes

theorem transferSync_inactive (down : active device = false)
    (drawn : desc.selectDevice request.source request.length "" 0 ((draws 0).forRequest 0) = some (bufferId, device)) :
    (transferSync c desc active request draws polled).attempts = [.error .invalidArgument] := by
  rw [transferSync, attemptLoop, submitAttempt,
    submitTransferTask_inactive { request with adviseRetryCnt := 0 } drawn some_bytes down]
  rfl

theorem transferSync_active (up : active device = true) (drawn : ∀ k,
      desc.selectDevice request.source request.length "" 0 ((draws k).forRequest 0) = some (bufferId, device)) :
    ∀ a ∈ (transferSync c desc active request draws polled).attempts, ∃ p, a = .ok p ∧ p.posted ≠ [] ∧
      ∀ x ∈ p.posted, x.1 = device := by
  intro a made
  obtain ⟨k, there⟩ := mem_iff_getElem?.mp made
  rw [attemptLoop_get there]
  exact submitAttempt_active (drawn _) some_bytes up _

end

/-- Where several devices are listed and one is active, the draws can name an inactive one, or the same one each
time. -/
theorem retries_reach_devices_iff (c : GlobalConfig) (desc : SegmentDesc) (active : Nat → Bool)
    (request : TransferRequest) (some_bytes : 0 < request.length) (bufferId : Nat) (buffer : BufferDesc)
    (registered : desc.buffers[bufferId]? = some buffer)
    (inside : buffer.addr ≤ request.source ∧ request.source + request.length ≤ buffer.addr + buffer.length)
    (alone : ∀ i b, desc.buffers[i]? = some b → b.addr ≤ request.source →
      request.source + request.length ≤ b.addr + b.length →
      i = bufferId) :
    (∀ draws polled, (transferSync c desc active request draws polled).Reaches desc active buffer.name) ↔
      (∀ device ∈ candidates desc.topology buffer.name, active device = false) ∨
        ∀ device ∈ candidates desc.topology buffer.name, ∀ other ∈ candidates desc.topology buffer.name,
          device = other := by
  have draw := draw_candidate registered inside alone
  constructor
  · intro reaches
    by_cases some_up : ∃ device ∈ candidates desc.topology buffer.name, active device = true
    · refine .inr ?_
      obtain ⟨up, listed, is_up⟩ := some_up
      -- the same random numbers in all attempts give one device
      let zeros : Draws := ⟨fun _ _ => (0, 0), fun _ _ _ _ => (0, 0), fun _ _ => false⟩
      obtain ⟨device, member, drawn⟩ := draw (ne_nil_of_mem listed) (zeros.forRequest 0)
      obtain ⟨refused, tried⟩ := reaches (fun _ => zeros) (fun _ => .failed)
      cases usable : active device with
      | false =>
        rw [transferSync_inactive _ some_bytes usable drawn] at refused
        exact nomatch is_up.symm.trans (refused _ (mem_singleton_self _) up listed)
      | true =>
        have only : ∀ other ∈ candidates desc.topology buffer.name, other = device := by
          intro other member
          obtain ⟨retry, p, -, made, x, given, rfl⟩ := tried (attemptLoop_length 0 _ fun retry =>
            (submitAttempt_active drawn some_bytes usable retry).imp fun _ both => both.1) other member
          obtain ⟨_, ⟨⟩, -, all⟩ := transferSync_active _ some_bytes usable (fun _ => drawn) _ (mem_of_getElem? made)
          exact all x given
        intro a listed b listed'
        rw [only a listed, only b listed']
    · exact .inl fun device member => by simpa using fun up => some_up ⟨device, member, up⟩
  · intro condition draws polled
    by_cases some_device : candidates desc.topology buffer.name = []
    · exact ⟨fun _ _ device member => absurd member (some_device ▸ not_mem_nil),
        fun _ device member => absurd member (some_device ▸ not_mem_nil)⟩
    · obtain ⟨device, member, drawn⟩ := draw some_device ((draws 0).forRequest 0)
      have known := candidates_length (fun _ => rfl) member
      cases usable : active device with
      | false =>
        have down : ∀ other ∈ candidates desc.topology buffer.name, active other = false :=
          condition.elim id fun same other listed => same device member other listed ▸ usable
        refine ⟨fun _ _ => down, fun all => ?_⟩
        rw [transferSync_inactive _ some_bytes usable drawn, length_singleton] at all
        omega
      | true =>
        have same := condition.resolve_left fun down => nomatch usable.symm.trans (down device member)
        -- every attempt that is made has the one device
        have attempt := transferSync_active (c := c) polled some_bytes usable fun k => by
          obtain ⟨device', member', drawn'⟩ := draw some_device ((draws k).forRequest 0)
          rwa [← same device member device' member'] at drawn'
        refine ⟨fun _ failed => (nomatch attempt _ failed), fun all other listed => ?_⟩
        have second := getElem?_eq_getElem (show 1 < _ by rw [all]; omega)
        obtain ⟨p, fine, some_slice, given⟩ := attempt _ (mem_of_getElem? second)
        obtain ⟨x, posted⟩ := exists_mem_of_ne_nil _ some_slice
        refine ⟨1, p, Nat.le_refl 1, second.trans (congrArg some fine), x, posted, ?_⟩
        rw [given x posted, same device member other listed]

open LocalSample in
theorem retries_reach_one_device : candidates (segment []).topology "cpu:0" = [0] ∧ ∀ draws polled,
    (transferSync config (segment []) (fun _ => true) ten draws polled).Reaches (segment []) (fun _ => true) "cpu:0" := by
  have one : candidates (segment []).topology "cpu:0" = [0] := by decide +kernel
  refine ⟨one, (retries_reach_devices_iff config (segment []) (fun _ => true) ten (by decide) 0 _ rfl (by decide)
    (fun i b there _ _ => Nat.lt_one_iff.mp (List.getElem?_eq_some_iff.mp there).1)).mpr (.inr ?_)⟩
  rw [one]
  decide

open LocalSample in
/-- The preferred device is down. No retry count helps, and the first attempt ends the call, although the other
device is up. -/
theorem inactive_device_drawn :
    (submitTransferTask config (segment ["b"]) (· == 1) zeros [{ ten with adviseRetryCnt := 1 }]).isOk = false ∧
      (transferSync config (segment ["b"]) (· == 1) ten (fun _ => zeros) (fun _ => .failed)).attempts.map
        (·.isOk) = [false] ∧
      candidates (segment ["b"]).topology "cpu:0" = [0, 1] := by
  decide +kernel

end Mooncake.Engine.LocalDevices
