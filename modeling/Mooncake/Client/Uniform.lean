import Mooncake.Client.Data

/-! Which bytes the transfers of a read determine. If every byte that there is to read is the
same, then all transfers have been performed as soon as the slices that they were given have
that byte: nothing is said about other addresses. -/
namespace Mooncake.Client

open Option List
open Master (BufferDescriptor ReplicaDescriptor)

def Covered (slices : List Slice) (a : Nat) : Prop := ∃ s ∈ slices, s.ptr ≤ a ∧ a < s.ptr + s.size

variable {slices : List Slice} {m : Nat → UInt8}

theorem read_eq_replicate {s : Slice} {b : UInt8} (same : ∀ a, Covered slices a → m a = b) (member : s ∈ slices) :
    Extent.read m s.ptr s.size = List.replicate s.size b :=
  Extent.read_eq_replicate (fun _ inside =>
    same _ ⟨s, member, Nat.le_add_right _ _, Nat.add_lt_add_left inside _⟩)

theorem gather_eq_replicate {b : UInt8} (same : ∀ a, Covered slices a → m a = b) :
    gather m slices = List.replicate (calculateSliceSize slices) b := by
  induction slices with
  | nil => rfl
  | cons s rest ih =>
    have later := ih (fun a ⟨s', member, range⟩ => same a ⟨s', mem_cons_of_mem _ member, range⟩)
    rw [gather_cons, read_eq_replicate same mem_cons_self, later, calculateSliceSize_cons, replicate_add]

theorem StorageBackend.chunkLoop_within {currentOffset : Nat} {chunk c : Chunk}
    (next : chunk.iovs ≠ [] → currentOffset = chunk.startOffset + calculateSliceSize chunk.iovs)
    (listed : c ∈ chunkLoop slices currentOffset chunk) :
    (∀ s ∈ c.iovs, s ∈ chunk.iovs ∨ s ∈ slices) ∧
      c.startOffset + calculateSliceSize c.iovs ≤ currentOffset + calculateSliceSize slices := by
  induction slices generalizing currentOffset chunk with
  | nil =>
    simp only [chunkLoop] at listed
    split at listed
    · cases listed
    next some =>
      cases mem_singleton.mp listed
      exact ⟨fun s member => .inl member, Nat.le_of_eq (by rw [next (by simpa using some)]; rfl)⟩
  | cons s rest ih =>
    rw [calculateSliceSize_cons]
    by_cases null : s.ptr = 0
    · simp only [chunkLoop, if_pos null, mem_append] at listed
      rcases listed with here | later
      · split at here
        · cases here
        next some =>
          cases mem_singleton.mp here
          have start := next (by simpa using some)
          exact ⟨fun s member => .inl member, by omega⟩
      · obtain ⟨inside, ends⟩ := ih (by simp) later
        refine ⟨fun s' member => ?_, by omega⟩
        rcases inside s' member with none | there
        · cases none
        · exact .inr (mem_cons_of_mem _ there)
    · simp only [chunkLoop, if_neg null] at listed
      have follows : currentOffset + s.size =
          (if chunk.iovs.isEmpty then currentOffset else chunk.startOffset) + calculateSliceSize (chunk.iovs ++ [s]) := by
        rw [calculateSliceSize_append, calculateSliceSize_cons, calculateSliceSize_nil]
        split
        next empty => simp [List.isEmpty_iff.mp empty]
        next some =>
          have start := next (by simpa using some)
          omega
      obtain ⟨inside, ends⟩ := ih (fun _ => follows) listed
      refine ⟨fun s' member => ?_, by omega⟩
      rcases inside s' member with collected | there
      · rcases mem_append.mp collected with old | new
        · exact .inl old
        · exact .inr (mem_cons.mpr (.inl (mem_singleton.mp new)))
      · exact .inr (mem_cons_of_mem _ there)

variable (b : UInt8)

def uniform : Memory := fun _ _ => b
def uniformFiles (length : Nat) : Files := fun _ => List.replicate length b

theorem read_uniform (endpoint : String) (address length : Nat) :
    Extent.read (uniform b endpoint) address length = List.replicate length b :=
  Extent.read_eq_replicate (fun _ _ => rfl)

theorem objectBytes_uniform {length : Nat} (some_length : 0 < length) (replica : ReplicaDescriptor)
    (some_bytes : 0 < calculateTotalSize replica) :
    ∃ n, objectBytes (uniformFiles b length) (uniform b) replica = List.replicate (n + 1) b := by
  cases replica with
  | memory handles status =>
    obtain ⟨n, size⟩ := Nat.exists_eq_succ_of_ne_zero (Nat.ne_of_gt some_bytes)
    refine ⟨n, ?_⟩
    rw [objectBytes_memory]
    refine eq_replicate_iff.mpr ⟨(length_content _ _).trans size, fun c member => ?_⟩
    obtain ⟨handle, -, read⟩ := mem_flatMap.mp member
    rw [read_uniform] at read
    exact eq_of_mem_replicate read
  | disk filePath objectSize status =>
    refine ⟨min objectSize length - 1, ?_⟩
    have positive : min objectSize length = min objectSize length - 1 + 1 := by
      have bytes : 0 < objectSize := some_bytes
      omega
    rw [objectBytes, stored, uniformFiles, take_replicate]
    exact congrArg (replicate · b) positive

namespace TransferSubmitter
variable {t : TransferSubmitter} {i : Nat} {m' : Memory} {b : UInt8}

variable {r : TransferRequest} {entries : List (ReplicaDescriptor × List Slice)} {opCode : OpCode}
    {requests : List TransferRequest} {future : TransferFuture}

theorem engineRequests_from {pairs : List (BufferDescriptor × Slice)}
    (built : t.engineRequests i opCode pairs = some requests) (listed : r ∈ requests) :
    ∃ pair ∈ pairs, r = ⟨opCode, pair.2.ptr, pair.1.transportEndpoint, pair.1.bufferAddress, pair.1.size⟩ := by
  induction pairs generalizing requests with
  | nil =>
    cases built
    cases listed
  | cons pair rest ih =>
    obtain ⟨handle, slice⟩ := pair
    unfold engineRequests at built
    split at built
    · obtain ⟨pair, member, same⟩ := ih built listed
      exact ⟨pair, mem_cons_of_mem _ member, same⟩
    · split at built
      · cases built
      · split at built
        · obtain ⟨others, builtRest, rfl⟩ := map_eq_some_iff.mp built
          rcases mem_cons.mp listed with rfl | later
          · exact ⟨_, mem_cons_self, rfl⟩
          · obtain ⟨pair, member, same⟩ := ih builtRest later
            exact ⟨pair, mem_cons_of_mem _ member, same⟩
        · cases built

theorem offsetRequests_from {handle : BufferDescriptor} {offset : Nat} {slices : List Slice}
    (listed : r ∈ offsetRequests opCode handle offset slices) :
    r.opcode = opCode ∧ ⟨r.source, r.length⟩ ∈ slices := by
  induction slices generalizing offset with
  | nil => cases listed
  | cons s rest ih =>
    rcases mem_cons.mp listed with rfl | later
    · exact ⟨rfl, mem_cons_self⟩
    · obtain ⟨op, member⟩ := ih later
      exact ⟨op, mem_cons_of_mem _ member⟩

theorem batchRequests_from (built : t.batchRequests i opCode entries = some requests) (listed : r ∈ requests) :
    r.opcode = opCode ∧ ∃ entry ∈ entries, ⟨r.source, r.length⟩ ∈ entry.2 := by
  obtain ⟨rfl, shapes⟩ := batchRequests_spec built
  obtain ⟨⟨replica, slices⟩, member, inside⟩ := mem_flatMap.mp listed
  obtain ⟨handle, more, status, rfl, -⟩ := shapes _ member
  obtain ⟨op, within⟩ := offsetRequests_from inside
  exact ⟨op, _, member, within⟩

theorem performed_uniform (read : r.opcode = .read)
    (own : Extent.read (m' t.localIpAndPort) r.source r.length = List.replicate r.length b) :
    r.Performed t.localIpAndPort (uniform b) m' := by
  rw [TransferRequest.Performed, read]
  exact own.trans (read_uniform b _ _ _).symm

theorem submit_uniform {replica : ReplicaDescriptor} {dst : List Slice} {length : Nat}
    (taken : t.submit i replica dst .read = some future) (enough : calculateSliceSize dst ≤ length)
    (own : ∀ a, Covered dst a → m' t.localIpAndPort a = b) :
    future.Performed t i (uniformFiles b length) (uniform b) m' := by
  cases replica with
  | memory handles status =>
    obtain ⟨-, sizes⟩ := submit_valid taken
    simp only [submit] at taken
    split at taken
    · split at taken
      · cases taken
        rintro - o listed
        obtain ⟨⟨handle, slice⟩, member, rfl⟩ := List.mem_map.mp listed
        have inside := (mem_filter.mp member).1
        have size : handle.size = slice.size := sizes _ inside
        have filled := read_eq_replicate own (of_mem_zip inside).2
        rw [MemcpyOperation.Performed, memcpyOperation, read_uniform]
        simp only [size]
        exact filled
      · obtain ⟨requests, built, sent⟩ := bind_eq_some_iff.mp taken
        obtain ⟨completes, _, rfl⟩ := map_eq_some_iff.mp sent
        rintro - r listed
        obtain ⟨⟨handle, slice⟩, inside, rfl⟩ := engineRequests_from built listed
        have size : handle.size = slice.size := sizes _ inside
        refine performed_uniform rfl ?_
        simp only [size]
        exact read_eq_replicate own (of_mem_zip inside).2
    · cases taken
  | disk filePath objectSize status =>
    cases taken
    intro fine c listed count counted
    simp only [submitFileReadOperation, fileReadResult] at fine
    split at fine
    · split at fine
      next loaded =>
        obtain ⟨-, -, read⟩ := StorageBackend.loadObject_ok_iff.mp loaded
        cases Except.ok.inj (counted.symm.trans (read c listed))
        obtain ⟨inside, ends⟩ := StorageBackend.chunkLoop_within (by simp) listed
        have filled : gather (m' t.localIpAndPort) c.iovs = replicate (calculateSliceSize c.iovs) b := by
          refine gather_eq_replicate (fun a covered => own a ?_)
          obtain ⟨s, member, range⟩ := covered
          exact ⟨s, (inside s member).resolve_left (by simp), range⟩
        rw [filled, uniformFiles, drop_replicate, take_replicate, take_replicate]
        congr 1
        omega
      next => cases fine
    · cases fine

theorem submitBatch_uniform {j length : Nat} (taken : t.submitBatch i entries .read = some future)
    (own : ∀ entry ∈ entries, ∀ a, Covered entry.2 a → m' t.localIpAndPort a = b) :
    future.Performed t j (uniformFiles b length) (uniform b) m' := by
  obtain ⟨requests, built, sent⟩ := bind_eq_some_iff.mp taken
  obtain ⟨completes, _, rfl⟩ := map_eq_some_iff.mp sent
  rintro - r listed
  obtain ⟨read, entry, member, inside⟩ := batchRequests_from built listed
  exact performed_uniform read (read_eq_replicate (own entry member) inside)

end TransferSubmitter

end Mooncake.Client
