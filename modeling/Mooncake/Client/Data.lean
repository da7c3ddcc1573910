import Mooncake.Client.Transfer

/-! What transfers do to memory. Every process that the engine can reach has a memory, named by
its endpoint; the client's own is the one of its local endpoint. A transfer that succeeded has
been performed: what lies at its target after the call is what lay at its source before. -/
namespace Mooncake.Client

open Option List
open Master (ErrorCode BufferDescriptor ReplicaDescriptor)

abbrev Memory : Type := String → Nat → UInt8
abbrev Files : Type := String → List UInt8

def gather (m : Nat → UInt8) (slices : List Slice) : List UInt8 :=
  slices.flatMap (fun s => Extent.read m s.ptr s.size)

def content (m : Memory) (handles : List BufferDescriptor) : List UInt8 :=
  handles.flatMap (fun h => Extent.read (m h.transportEndpoint) h.bufferAddress h.size)

def Holds (m : Nat → UInt8) : List Slice → List UInt8 → Prop
  | [], _ => True
  | s :: rest, value =>
    (s.ptr ≠ 0 → Extent.read m s.ptr s.size = value.take s.size) ∧ Holds m rest (value.drop s.size)

section
variable {m : Nat → UInt8}

@[simp] theorem calculateSliceSize_nil : calculateSliceSize [] = 0 := rfl

@[simp] theorem calculateSliceSize_cons (s : Slice) (rest : List Slice) :
    calculateSliceSize (s :: rest) = s.size + calculateSliceSize rest := by
  simp [calculateSliceSize]

@[simp] theorem calculateSliceSize_append (a b : List Slice) :
    calculateSliceSize (a ++ b) = calculateSliceSize a + calculateSliceSize b := by
  simp [calculateSliceSize]

@[simp] theorem gather_nil : gather m [] = [] := rfl

@[simp] theorem gather_cons (s : Slice) (rest : List Slice) :
    gather m (s :: rest) = Extent.read m s.ptr s.size ++ gather m rest := rfl

theorem gather_append (m : Nat → UInt8) (a b : List Slice) : gather m (a ++ b) = gather m a ++ gather m b :=
  flatMap_append

@[simp] theorem length_gather (m : Nat → UInt8) (slices : List Slice) :
    (gather m slices).length = calculateSliceSize slices := by
  induction slices with
  | nil => rfl
  | cons s rest ih => simp [ih]

variable {value : List UInt8} {slices : List Slice}

theorem holds_append {a b : List Slice} :
    Holds m (a ++ b) value ↔ Holds m a value ∧ Holds m b (value.drop (calculateSliceSize a)) := by
  induction a generalizing value with
  | nil => simp [Holds]
  | cons s rest ih => simp [Holds, ih, and_assoc]

/-- A value that lies in the slices as a whole lies in each of them. -/
theorem holds_of_gather (whole : gather m slices = value.take (calculateSliceSize slices)) :
    Holds m slices value := by
  induction slices generalizing value with
  | nil => trivial
  | cons s rest ih =>
    have first : Extent.read m s.ptr s.size = value.take s.size := by
      have cut := congrArg (take s.size) whole
      rw [gather_cons, take_append_of_le_length (by simp), take_take, calculateSliceSize_cons,
        Nat.min_eq_left (Nat.le_add_right _ _), take_of_length_le (by simp)] at cut
      exact cut
    have others : gather m rest = (value.drop s.size).take (calculateSliceSize rest) := by
      have cut := congrArg (drop s.size) whole
      rw [gather_cons, drop_append_of_le_length (by simp), drop_of_length_le (by simp), nil_append,
        calculateSliceSize_cons, drop_take, Nat.add_sub_cancel_left] at cut
      exact cut
    exact ⟨fun _ => first, ih others⟩

theorem gather_of_holds (real : ∀ s ∈ slices, s.ptr ≠ 0) (holds : Holds m slices value) :
    gather m slices = value.take (calculateSliceSize slices) := by
  induction slices generalizing value with
  | nil => rfl
  | cons s rest ih =>
    rw [gather_cons, calculateSliceSize_cons, take_add, holds.1 (real s mem_cons_self),
      ih (fun s member => real s (mem_cons_of_mem _ member)) holds.2]

end

namespace StorageBackend

def chunkLoop : List Slice → Nat → Chunk → List Chunk
  | [], _, chunk => if chunk.iovs.isEmpty then [] else [chunk]
  | slice :: rest, currentOffset, chunk =>
    if slice.ptr = 0 then
      (if chunk.iovs.isEmpty then [] else [chunk]) ++
        chunkLoop rest (currentOffset + slice.size) { chunk with iovs := [] }
    else
      chunkLoop rest (currentOffset + slice.size)
        { startOffset := if chunk.iovs.isEmpty then currentOffset else chunk.startOffset
          iovs := chunk.iovs ++ [slice] }

def chunks (slices : List Slice) : List Chunk := chunkLoop slices 0 ⟨0, []⟩

variable {vectorRead : Chunk → Except ErrorCode Nat} {slices : List Slice} {chunk : Chunk} {currentOffset : Nat}

theorem processChunk_ok_iff {total total' : Nat} : processChunk vectorRead chunk total = .ok total' ↔
    total' = total + calculateSliceSize chunk.iovs ∧
      ∀ c ∈ (if chunk.iovs.isEmpty then [] else [chunk]), vectorRead c = .ok (calculateSliceSize c.iovs) := by
  unfold processChunk
  cases empty : chunk.iovs.isEmpty with
  | true => simp [List.isEmpty_iff.mp empty, eq_comm]
  | false =>
    cases outcome : vectorRead chunk with
    | error e => simp [outcome]
    | ok count =>
      by_cases full : count = calculateSliceSize chunk.iovs
      · simp [outcome, full, eq_comm]
      · simp [outcome, full]

/-- A load succeeds that reads every chunk in full, and it counts every slice. -/
theorem loadLoop_ok_iff {total total' : Nat} :
    loadLoop vectorRead slices currentOffset total chunk = .ok total' ↔
    total' = total + calculateSliceSize chunk.iovs + calculateSliceSize slices ∧
      ∀ c ∈ chunkLoop slices currentOffset chunk, vectorRead c = .ok (calculateSliceSize c.iovs) := by
  induction slices generalizing currentOffset total chunk with
  | nil => exact processChunk_ok_iff
  | cons s rest ih =>
    by_cases null : s.ptr = 0
    · simp only [loadLoop, chunkLoop, if_pos null, forall_mem_append, calculateSliceSize_cons]
      cases processed : processChunk vectorRead chunk total with
      | error e =>
        refine iff_of_false nofun fun read => ?_
        rw [processChunk_ok_iff.mpr ⟨rfl, read.2.1⟩] at processed
        cases processed
      | ok middle =>
        obtain ⟨rfl, here⟩ := processChunk_ok_iff.mp processed
        simp only [ih, and_iff_right here, calculateSliceSize_nil, Nat.add_zero, Nat.add_assoc]
    · simp only [loadLoop, chunkLoop, if_neg null, ih, calculateSliceSize_append, calculateSliceSize_cons,
        calculateSliceSize_nil, Nat.add_assoc, Nat.zero_add]

/-- Chunks that lie in their slices put every slice of the list where the file has it. The chunk
that is being collected ends where the list goes on. -/
theorem chunkLoop_holds {m : Nat → UInt8} {file : List UInt8}
    (next : chunk.iovs ≠ [] → currentOffset = chunk.startOffset + calculateSliceSize chunk.iovs)
    (read : ∀ c ∈ chunkLoop slices currentOffset chunk,
      gather m c.iovs = (file.drop c.startOffset).take (calculateSliceSize c.iovs)) :
    (chunk.iovs ≠ [] → Holds m chunk.iovs (file.drop chunk.startOffset)) ∧
      Holds m slices (file.drop currentOffset) := by
  induction slices generalizing currentOffset chunk with
  | nil =>
    refine ⟨fun some => ?_, trivial⟩
    exact holds_of_gather (read chunk (by simp [chunkLoop, some]))
  | cons s rest ih =>
    by_cases null : s.ptr = 0
    · simp only [chunkLoop, if_pos null, mem_append] at read
      have later := ih (by simp) (fun c member => read c (.inr member))
      rw [← drop_drop] at later
      refine ⟨fun some => ?_, fun real => absurd null real, later.2⟩
      exact holds_of_gather (read chunk (.inl (by simp [some])))
    · simp only [chunkLoop, if_neg null] at read
      by_cases empty : chunk.iovs = []
      · simp only [empty, isEmpty_nil, if_true, nil_append] at read
        have later := ih (by simp) read
        rw [← drop_drop] at later
        exact ⟨fun some => absurd empty some, (later.1 (by simp)).1, later.2⟩
      · have collecting : chunk.iovs.isEmpty = false := by simpa using empty
        simp only [collecting, Bool.false_eq_true, if_false] at read
        have here := next empty
        have later := ih (by intro _; simp [here]; omega) read
        rw [← drop_drop] at later
        have both := holds_append.mp (later.1 (by simp))
        rw [drop_drop, ← here] at both
        exact ⟨fun _ => both.1, both.2.1, later.2⟩

theorem loadObject_ok_iff {createFile : Bool} {length : Nat} :
    loadObject createFile vectorRead slices length = .ok () ↔
    createFile = true ∧ calculateSliceSize slices = length ∧
      ∀ c ∈ chunks slices, vectorRead c = .ok (calculateSliceSize c.iovs) := by
  cases createFile with
  | false => simp [loadObject]
  | true =>
    simp only [loadObject, if_true, true_and]
    cases looped : loadLoop vectorRead slices 0 0 ⟨0, []⟩ with
    | error e =>
      refine iff_of_false nofun fun read => ?_
      rw [loadLoop_ok_iff.mpr ⟨rfl, read.2⟩] at looped
      cases looped
    | ok total =>
      obtain ⟨rfl, read⟩ := loadLoop_ok_iff.mp looped
      rw [and_iff_left (show ∀ c ∈ chunks slices, _ from read), calculateSliceSize_nil, Nat.zero_add]
      by_cases same : calculateSliceSize slices = length
      · simp [same]
      · simp [same]

/-- `StoreObject`, given how the file opens and what the vectored write answers. -/
def storeObject (createFile : Bool) (vectorWrite : Except ErrorCode Nat) (slices : List Slice) :
    Except ErrorCode Unit :=
  if createFile then
    match vectorWrite with
    | .error e => .error e
    | .ok count => if count = calculateSliceSize slices then .ok () else .error .fileWriteFail
  else .error .fileOpenFail

section
variable {m : Nat → UInt8} {file : List UInt8} {length : Nat} (performed : ∀ c ∈ chunks slices, ∀ count,
  vectorRead c = .ok count → (gather m c.iovs).take count = (file.drop c.startOffset).take count)
include performed

theorem loadObject_holds {createFile : Bool}
    (loaded : loadObject createFile vectorRead slices length = .ok ()) :
    Holds m slices file := by
  obtain ⟨-, -, read⟩ := loadObject_ok_iff.mp loaded
  have whole : ∀ c ∈ chunks slices,
    gather m c.iovs = (file.drop c.startOffset).take (calculateSliceSize c.iovs) := by
    intro c member
    have copied := performed c member _ (read c member)
    rwa [take_of_length_le (by simp)] at copied
  exact (chunkLoop_holds (by simp) whole).2

/-- A vectored read that returns a count has put as many bytes from its place in the file into its
slices. Each slice with a buffer then has the bytes at its own offset, and what was stored from
other slices comes back. -/
theorem loadObject_own_offsets :
    (loadObject true vectorRead slices length = .ok () ↔
      calculateSliceSize slices = length ∧ ∀ c ∈ chunks slices, vectorRead c = .ok (calculateSliceSize c.iovs)) ∧
    (loadObject true vectorRead slices length = .ok () → Holds m slices file ∧
      ∀ source written count, storeObject true (.ok count) written = .ok () →
        file = (gather source written).take count →
        Holds m slices (gather source written)) := by
  refine ⟨loadObject_ok_iff.trans (and_iff_right rfl), fun loaded => ?_⟩
  have holds := loadObject_holds performed loaded
  refine ⟨holds, fun source written count stored wrote => ?_⟩
  have all : count = calculateSliceSize written := by
    simp only [storeObject, if_true] at stored
    split at stored
    next same => exact same
    next => cases stored
  rw [all, take_of_length_le (by simp)] at wrote
  exact wrote ▸ holds

end

theorem loadObject_around_null :
    Holds (fun a => if a = 100 then 1 else if a = 101 then 2 else 4) [⟨100, 2⟩, ⟨0, 1⟩, ⟨200, 1⟩]
      [1, 2, 3, 4] := by
  have loaded :
      loadObject true (fun c => .ok (calculateSliceSize c.iovs)) [⟨100, 2⟩, ⟨0, 1⟩, ⟨200, 1⟩] 4 = .ok () := rfl
  refine ((loadObject_own_offsets ?_).2 loaded).1
  rintro c member _ ⟨⟩
  revert c
  decide

end StorageBackend

def TransferRequest.Performed (self : String) (m m' : Memory) (r : TransferRequest) : Prop :=
  match r.opcode with
  | .read => Extent.read (m' self) r.source r.length = Extent.read (m r.targetId) r.targetOffset r.length
  | .write => Extent.read (m' r.targetId) r.targetOffset r.length = Extent.read (m self) r.source r.length

instance (self : String) (m m' : Memory) (r : TransferRequest) : Decidable (r.Performed self m m') :=
  match r with
  | ⟨.read, source, targetId, targetOffset, length⟩ =>
    inferInstanceAs (Decidable (Extent.read (m' self) source length =
      Extent.read (m targetId) targetOffset length))
  | ⟨.write, source, targetId, targetOffset, length⟩ =>
    inferInstanceAs (Decidable (Extent.read (m' targetId) targetOffset length =
      Extent.read (m self) source length))

def MemcpyOperation.Performed (self : String) (m m' : Memory) (o : MemcpyOperation) : Prop :=
  Extent.read (m' self) o.dest o.size = Extent.read (m self) o.src o.size

/-- What a transfer of the operation at place `i` has done once its future has been waited for
and has reported success. A `vector_read` that returns a count has read as many bytes of the file. -/
def TransferFuture.Performed (t : TransferSubmitter) (i : Nat) (files : Files) (m m' : Memory)
    (future : TransferFuture) : Prop :=
  match future.job with
  | .engine requests => future.result = .ok → ∀ r ∈ requests, r.Performed t.localIpAndPort m m'
  | .memcpy operations => future.result = .ok → ∀ o ∈ operations, o.Performed t.localIpAndPort m m'
  | .fileRead filePath _ slices => future.result = .ok → ∀ c ∈ StorageBackend.chunks slices, ∀ count,
      t.vectorRead i filePath c = .ok count →
        (gather (m' t.localIpAndPort) c.iovs).take count = ((files filePath).drop c.startOffset).take count
  | .empty => True

def stored (files : Files) (m : Memory) : ReplicaDescriptor → List UInt8
  | .memory handles _ => content m handles
  | .disk filePath _ _ => files filePath

def objectBytes (files : Files) (m : Memory) (replica : ReplicaDescriptor) : List UInt8 :=
  (stored files m replica).take (calculateTotalSize replica)

namespace TransferSubmitter
variable {t : TransferSubmitter} {i : Nat} {files : Files} {m m' : Memory}

variable {handle : BufferDescriptor} {handles : List BufferDescriptor} {slices : List Slice} {opCode : OpCode}
    {pairs : List (BufferDescriptor × Slice)} {slice : Slice} {status : Master.ReplicaStatus}
    {future : TransferFuture}

theorem validate_spec (valid : validateTransferParams handles slices = true) :
    handles.length ≤ slices.length ∧ ∀ pair ∈ handles.zip slices, pair.1.size = pair.2.size := by
  unfold validateTransferParams at valid
  split at valid
  · cases valid
  · split at valid
    · cases valid
    next large =>
      simp only [Bool.false_eq_true, if_false, List.all_eq_true, beq_iff_eq] at valid
      exact ⟨not_lt.mp large, valid⟩

theorem validate_multi_spec {more : List BufferDescriptor}
    (valid : validateTransferParams (handle :: more) slices true = true) :
    handle.size = calculateSliceSize slices := by
  simp only [validateTransferParams, if_true] at valid
  split at valid
  · cases valid
  · exact beq_iff_eq.mp valid

theorem mem_engineRequests {requests : List TransferRequest}
    (built : t.engineRequests i opCode pairs = some requests)
    (listed : (handle, slice) ∈ pairs) (real : slice.ptr ≠ 0) :
    ⟨opCode, slice.ptr, handle.transportEndpoint, handle.bufferAddress, handle.size⟩ ∈ requests := by
  induction pairs generalizing requests with
  | nil => cases listed
  | cons pair rest ih =>
    obtain ⟨first, firstSlice⟩ := pair
    unfold engineRequests at built
    by_cases null : firstSlice.ptr = 0
    · rw [if_pos null] at built
      rcases mem_cons.mp listed with same | later
      · cases same
        exact absurd null real
      · exact ih built later
    · rw [if_neg null] at built
      split at built
      · cases built
      · split at built
        · obtain ⟨others, builtRest, rfl⟩ := map_eq_some_iff.mp built
          rcases mem_cons.mp listed with same | later
          · cases same
            exact mem_cons_self
          · exact mem_cons_of_mem _ (ih builtRest later)
        · cases built

theorem mem_memcpyOperations (listed : (handle, slice) ∈ pairs) (real : slice.ptr ≠ 0) :
    memcpyOperation opCode handle slice ∈ memcpyOperations opCode pairs :=
  List.mem_map.mpr ⟨(handle, slice), mem_filter.mpr ⟨listed, by simpa using real⟩, rfl⟩

theorem isLocalTransfer_spec (local_ : t.isLocalTransfer handles = true) (listed : handle ∈ handles) :
    handle.transportEndpoint = t.localIpAndPort := by
  simp only [isLocalTransfer, Bool.and_eq_true, List.all_eq_true] at local_
  exact beq_iff_eq.mp (local_.2 handle listed).2

variable (taken : t.submit i (.memory handles status) slices opCode = some future)
include taken

/-- A transfer between memory replicas and slices copies each buffer from or to its slice,
whether the engine or the process itself copies. -/
theorem submit_pairs (fine : future.result = .ok) (done : future.Performed t i files m m')
    (listed : (handle, slice) ∈ handles.zip slices) (real : slice.ptr ≠ 0) :
    TransferRequest.Performed t.localIpAndPort m m'
      ⟨opCode, slice.ptr, handle.transportEndpoint, handle.bufferAddress, handle.size⟩ := by
  simp only [submit] at taken
  split at taken
  · split at taken
    next nearby =>
      have here := isLocalTransfer_spec (Bool.and_eq_true_iff.mp nearby).2 (of_mem_zip listed).1
      cases taken
      have copied := done fine _ (mem_memcpyOperations listed real)
      cases opCode with
      | read => simpa [TransferRequest.Performed, MemcpyOperation.Performed, memcpyOperation, here] using copied
      | write =>
        simpa [TransferRequest.Performed, MemcpyOperation.Performed, memcpyOperation, here] using copied
    next =>
      obtain ⟨requests, built, sent⟩ := bind_eq_some_iff.mp taken
      obtain ⟨completes, _, rfl⟩ := map_eq_some_iff.mp sent
      exact done fine _ (mem_engineRequests built listed real)
  · cases taken

theorem submit_valid : handles.length ≤ slices.length ∧
    ∀ pair ∈ handles.zip slices, pair.1.size = pair.2.size := by
  simp only [submit] at taken
  split at taken
  next valid => exact validate_spec valid
  next => cases taken

end TransferSubmitter

@[simp] theorem content_cons (m : Memory) (h : BufferDescriptor) (rest : List BufferDescriptor) :
    content m (h :: rest) = Extent.read (m h.transportEndpoint) h.bufferAddress h.size ++ content m rest := rfl

theorem length_content (m : Memory) (handles : List BufferDescriptor) :
    (content m handles).length = (handles.map (·.size)).sum := by
  induction handles with
  | nil => rfl
  | cons h rest ih => simp [ih]

theorem objectBytes_memory (files : Files) (m : Memory) (handles : List BufferDescriptor)
    (status : Master.ReplicaStatus) : objectBytes files m (.memory handles status) = content m handles :=
  take_of_length_le (Nat.le_of_eq (length_content m handles))

variable {handles : List BufferDescriptor} {own : Nat → UInt8} {slices : List Slice}

theorem holds_content {m : Memory} (enough : handles.length ≤ slices.length)
    (copied : ∀ pair ∈ handles.zip slices, pair.1.size = pair.2.size ∧
      (pair.2.ptr ≠ 0 →
      Extent.read own pair.2.ptr pair.1.size =
      Extent.read (m pair.1.transportEndpoint) pair.1.bufferAddress pair.1.size)) :
    Holds own (slices.take handles.length) (content m handles) ∧
      calculateSliceSize (slices.take handles.length) = (content m handles).length := by
  induction handles generalizing slices with
  | nil => exact ⟨trivial, rfl⟩
  | cons h rest ih =>
    cases slices with
    | nil => cases enough
    | cons s slices =>
      obtain ⟨size, same⟩ : h.size = s.size ∧ (s.ptr ≠ 0 → Extent.read own s.ptr h.size =
          Extent.read (m h.transportEndpoint) h.bufferAddress h.size) := copied (h, s) mem_cons_self
      obtain ⟨later, sizes⟩ := ih (Nat.le_of_succ_le_succ enough)
        (fun pair member => copied pair (mem_cons_of_mem _ member))
      rw [length_cons, take_succ_cons]
      refine ⟨⟨fun real => ?_, ?_⟩, ?_⟩
      · rw [content_cons, take_append_of_le_length (by simp [size]), take_of_length_le (by simp [size]),
          ← same real, size]
      · rw [content_cons, drop_append_of_le_length (by simp [size]), drop_of_length_le (by simp [size]),
          nil_append]
        exact later
      · simp [sizes, size]

theorem content_gather {m : Memory} (sizes : handles.map (·.size) = slices.map (·.size))
    (copied : ∀ pair ∈ handles.zip slices,
      Extent.read (m pair.1.transportEndpoint) pair.1.bufferAddress pair.1.size =
      Extent.read own pair.2.ptr pair.1.size) : content m handles = gather own slices := by
  induction handles generalizing slices with
  | nil => cases slices with
    | nil => rfl
    | cons s rest => cases sizes
  | cons h rest ih =>
    cases slices with
    | nil => cases sizes
    | cons s slices =>
      obtain ⟨size, others⟩ := cons.inj sizes
      have first := copied (h, s) mem_cons_self
      simp only at size first
      rw [content_cons, gather_cons, first, size,
        ih others (fun pair member => copied pair (mem_cons_of_mem _ member))]

namespace TransferSubmitter
variable {t : TransferSubmitter} {i : Nat} {files : Files} {m m' : Memory}

variable {entries : List (ReplicaDescriptor × List Slice)} {replica : ReplicaDescriptor}
  {future : TransferFuture}
    {slices dst src : List Slice} {handle : BufferDescriptor} {j offset : Nat} {opCode : OpCode}

/-- What a successful read from a replica leaves in the destination: the first slices hold the
replica if it is in memory, all of them if it is a file. -/
theorem submit_read (taken : t.submit i replica dst .read = some future) (fine : future.result = .ok)
    (done : future.Performed t i files m m') :
    match replica with
    | .memory handles _ => Holds (m' t.localIpAndPort) (dst.take handles.length) (content m handles) ∧
        calculateSliceSize (dst.take handles.length) = (content m handles).length
    | .disk filePath objectSize _ => Holds (m' t.localIpAndPort) dst (files filePath) ∧
        calculateSliceSize dst = objectSize := by
  cases replica with
  | memory handles status =>
    obtain ⟨enough, sizes⟩ := submit_valid taken
    exact holds_content enough (fun pair listed => ⟨sizes pair listed, submit_pairs taken fine done listed⟩)
  | disk filePath objectSize status =>
    cases taken
    have succeeded := fine
    simp only [submitFileReadOperation, fileReadResult] at fine
    split at fine
    · split at fine
      next loaded =>
        exact ⟨StorageBackend.loadObject_holds (done succeeded) loaded,
          (StorageBackend.loadObject_ok_iff.mp loaded).2.1⟩
      next => cases fine
    · cases fine

theorem submit_write {handles : List BufferDescriptor} {status : Master.ReplicaStatus}
    (taken : t.submit i (.memory handles status) src .write = some future) (fine : future.result = .ok)
    (done : future.Performed t i files m m') (real : ∀ s ∈ src, s.ptr ≠ 0)
    (sizes : handles.map (·.size) = src.map (·.size)) : content m' handles = gather (m t.localIpAndPort) src :=
  content_gather sizes (fun _ listed => submit_pairs taken fine done listed (real _ (of_mem_zip listed).2))

theorem offsetRequests_read
    (done : ∀ r ∈ offsetRequests .read handle offset slices, r.Performed t.localIpAndPort m m') :
    gather (m' t.localIpAndPort) slices =
      Extent.read (m handle.transportEndpoint) (handle.bufferAddress + offset) (calculateSliceSize slices) := by
  induction slices generalizing offset with
  | nil => rfl
  | cons s rest ih =>
    have first := done _ mem_cons_self
    have later := ih (fun r member => done r (mem_cons_of_mem _ member))
    rw [gather_cons, calculateSliceSize_cons, Extent.read_add, later, Nat.add_assoc]
    exact congrArg (· ++ _) first

theorem offsetRequests_write
    (done : ∀ r ∈ offsetRequests .write handle offset slices, r.Performed t.localIpAndPort m m') :
    Extent.read (m' handle.transportEndpoint) (handle.bufferAddress + offset) (calculateSliceSize slices) =
      gather (m t.localIpAndPort) slices := by
  induction slices generalizing offset with
  | nil => rfl
  | cons s rest ih =>
    have first := done _ mem_cons_self
    have later := ih (fun r member => done r (mem_cons_of_mem _ member))
    rw [← Nat.add_assoc] at later
    rw [gather_cons, calculateSliceSize_cons, Extent.read_add, later]
    exact congrArg (· ++ _) first

/-- Each object of a batch has a first buffer of the size of its slices, and its requests are in the batch. -/
theorem batchRequests_mem {requests : List TransferRequest}
    (built : t.batchRequests i opCode entries = some requests)
    (listed : (replica, slices) ∈ entries) :
    ∃ handle more status, replica = .memory (handle :: more) status ∧ handle.size = calculateSliceSize slices ∧
      ∀ r ∈ offsetRequests opCode handle 0 slices, r ∈ requests := by
  obtain ⟨rfl, shapes⟩ := batchRequests_spec built
  obtain ⟨handle, more, status, rfl, valid⟩ := shapes _ listed
  exact ⟨handle, more, status, rfl, validate_multi_spec valid,
    fun r inside => mem_flatMap.mpr ⟨_, listed, inside⟩⟩

/-- A batch transfer copies the slices of each object from or to its first buffer. -/
theorem submitBatch_performed (taken : t.submitBatch i entries opCode = some future)
    (fine : future.result = .ok)
    (done : future.Performed t j files m m') (listed : (replica, slices) ∈ entries) :
    ∃ handle more status, replica = .memory (handle :: more) status ∧ handle.size = calculateSliceSize slices ∧
      ∀ r ∈ offsetRequests opCode handle 0 slices, r.Performed t.localIpAndPort m m' := by
  obtain ⟨requests, built, sent⟩ := bind_eq_some_iff.mp taken
  obtain ⟨completes, _, rfl⟩ := map_eq_some_iff.mp sent
  obtain ⟨handle, more, status, shape, size, inside⟩ := batchRequests_mem built listed
  exact ⟨handle, more, status, shape, size, fun r member => done fine r (inside r member)⟩

theorem submitBatch_read (taken : t.submitBatch i entries .read = some future) (fine : future.result = .ok)
    (done : future.Performed t j files m m') (listed : (replica, dst) ∈ entries) :
    ∃ handle more status, replica = .memory (handle :: more) status ∧ handle.size = calculateSliceSize dst ∧
      gather (m' t.localIpAndPort) dst =
        Extent.read (m handle.transportEndpoint) handle.bufferAddress (calculateSliceSize dst) := by
  obtain ⟨handle, more, status, shape, size, performed⟩ := submitBatch_performed taken fine done listed
  exact ⟨handle, more, status, shape, size, offsetRequests_read performed⟩

theorem submitBatch_write (taken : t.submitBatch i entries .write = some future) (fine : future.result = .ok)
    (done : future.Performed t j files m m') (listed : (replica, src) ∈ entries) :
    ∃ handle more status, replica = .memory (handle :: more) status ∧ handle.size = calculateSliceSize src ∧
      Extent.read (m' handle.transportEndpoint) handle.bufferAddress handle.size =
        gather (m t.localIpAndPort) src := by
  obtain ⟨handle, more, status, shape, size, performed⟩ := submitBatch_performed taken fine done listed
  exact ⟨handle, more, status, shape, size, size ▸ offsetRequests_write performed⟩

end TransferSubmitter

end Mooncake.Client
