import Mathlib.Order.CompletePartialOrder
import Mooncake.OffsetAllocator.Session

/-! The thread-safe `OffsetAllocator` around the core. Its mutex makes each call one
step, so the calls are functions of the state. Sizes and addresses are 64-bit
words: every sum and shift is taken modulo 2^64, as the code does. -/
namespace Mooncake.Offset
open SmallFloat List

/-- The loop of `calculateMultiplier`; it needs at most 33 rounds for a 64-bit size. -/
def multiplierLoop (size : Nat) : Nat → Nat → Nat
  | 0, multiplierBits => multiplierBits
  | rounds + 1, multiplierBits =>
    if maxBinSize < size >>> multiplierBits then multiplierLoop size rounds (multiplierBits + 1)
    else multiplierBits

def calculateMultiplier (size : Nat) : Nat := multiplierLoop size 64 0

structure OffsetAllocator where
  allocator : Allocator
  base : Nat
  multiplierBits : Nat
  capacity : Nat
  allocatedSize : Nat
  allocatedNum : Nat

structure OffsetAllocationHandle where
  allocation : OffsetAllocation
  realBase : Nat
  requestedSize : Nat
deriving DecidableEq

def OffsetAllocationHandle.address (h : OffsetAllocationHandle) : Nat := h.realBase
def OffsetAllocationHandle.size (h : OffsetAllocationHandle) : Nat := h.requestedSize

namespace OffsetAllocator

def create (base size initCapacity maxCapacity : Nat) : OffsetAllocator :=
  { allocator := Allocator.create (size >>> calculateMultiplier size) initCapacity maxCapacity
    base := base
    multiplierBits := calculateMultiplier size
    capacity := size
    allocatedSize := 0
    allocatedNum := 0 }

/-- The number of core units for a request; the sum wraps. -/
def fakeSize (multiplierBits size : Nat) : Nat :=
  if 0 < multiplierBits then ((size + 2 ^ multiplierBits - 1) % 2 ^ 64) >>> multiplierBits else size

variable (s : OffsetAllocator)

def allocate (size : Nat) : OffsetAllocator × Option OffsetAllocationHandle :=
  if size = 0 then (s, none)
  else if maxBinSize < fakeSize s.multiplierBits size then (s, none)
  else
    let result := s.allocator.allocate (fakeSize s.multiplierBits size)
    if result.2.isNoSpace then ({ s with allocator := result.1 }, none)
    else
      ({ s with
          allocator := result.1
          allocatedSize := (s.allocatedSize + size) % 2 ^ 64
          allocatedNum := (s.allocatedNum + 1) % 2 ^ 64 },
        some ⟨result.2, (s.base + result.2.offset * 2 ^ s.multiplierBits % 2 ^ 64) % 2 ^ 64, size⟩)

def freeAllocation (allocation : OffsetAllocation) (size : Nat) : OffsetAllocator :=
  { s with
    allocator := s.allocator.free allocation
    allocatedSize := (s.allocatedSize + (2 ^ 64 - size)) % 2 ^ 64
    allocatedNum := (s.allocatedNum + (2 ^ 64 - 1)) % 2 ^ 64 }

def storageReport : StorageReport :=
  { totalFreeSpace := s.allocator.storageReport.totalFreeSpace <<< s.multiplierBits % 2 ^ 64
    largestFreeRegion := s.allocator.storageReport.largestFreeRegion <<< s.multiplierBits % 2 ^ 64 }

end OffsetAllocator

structure Arena where
  owner : OffsetAllocator
  live : List OffsetAllocationHandle

inductive Call where
  | allocate (size : Nat)
  | destroy (handle : OffsetAllocationHandle)
deriving DecidableEq

namespace Arena

def start (base size initCapacity maxCapacity : Nat) : Arena :=
  ⟨OffsetAllocator.create base size initCapacity maxCapacity, []⟩

def step (s : Arena) : Call → Option Arena
  | .allocate size =>
    let result := s.owner.allocate size
    some ⟨result.1, result.2.toList ++ s.live⟩
  | .destroy handle =>
    if handle ∈ s.live then
      some ⟨s.owner.freeAllocation handle.allocation handle.size, s.live.erase handle⟩
    else none

end Arena

def bytes (start length : Nat) : Set Nat := { b | ∃ k < length, b = (start + k) % 2 ^ 64 }

theorem multiplierLoop_spec {size : Nat} (word : size < 2 ^ 64) (rounds bits : Nat)
    (enough : 33 ≤ bits + rounds) (low : bits ≤ 33) :
    size >>> multiplierLoop size rounds bits ≤ maxBinSize ∧ multiplierLoop size rounds bits ≤ 33 := by
  induction rounds generalizing bits with
  | zero =>
    have last : bits = 33 := by omega
    subst last
    refine ⟨?_, Nat.le_refl 33⟩
    simp only [multiplierLoop, Nat.shiftRight_eq_div_pow, maxBinSize]
    omega
  | succ rounds ih =>
    unfold multiplierLoop
    split
    · rename_i large
      have more : bits < 33 := by
        by_contra done
        have last : bits = 33 := by omega
        subst last
        simp only [Nat.shiftRight_eq_div_pow, maxBinSize] at large
        omega
      exact ih (bits + 1) (by omega) more
    · rename_i small
      exact ⟨Nat.le_of_not_lt small, low⟩

theorem calculateMultiplier_spec {size : Nat} (word : size < 2 ^ 64) :
    size >>> calculateMultiplier size ≤ maxBinSize ∧ calculateMultiplier size ≤ 33 :=
  multiplierLoop_spec word 64 0 (by omega) (by omega)

theorem fakeSize_le_iff {m size units : Nat} (fits : size + 2 ^ m - 1 < 2 ^ 64) :
    OffsetAllocator.fakeSize m size ≤ units ↔ size ≤ units * 2 ^ m := by
  have positive : 0 < 2 ^ m := Nat.two_pow_pos m
  unfold OffsetAllocator.fakeSize
  split
  · rw [Nat.mod_eq_of_lt fits, Nat.shiftRight_eq_div_pow, ← Nat.lt_succ_iff, Nat.div_lt_iff_lt_mul positive,
      Nat.succ_mul]
    omega
  · rename_i one
    have none : m = 0 := Nat.eq_zero_of_not_pos one
    rw [none, Nat.pow_zero, Nat.mul_one]

section Bytes
variable {base a b n k capacity : Nat}

theorem bytes_disjoint (apart : a + n ≤ b) (inside : b + k ≤ 2 ^ 64) :
    Disjoint (bytes ((base + a) % 2 ^ 64) n) (bytes ((base + b) % 2 ^ 64) k) := by
  rw [Set.disjoint_left]
  rintro x ⟨i, hi, rfl⟩ ⟨j, hj, eq⟩
  omega

theorem bytes_subset (inside : a + n ≤ capacity) : bytes ((base + a) % 2 ^ 64) n ⊆ bytes base capacity := by
  rintro x ⟨i, hi, rfl⟩
  exact ⟨a + i, by omega, by omega⟩

end Bytes

def Backed (base bits : Nat) (a : Allocator) (tiles : List Nat) (h : OffsetAllocationHandle) : Prop :=
  h.address = (base + h.allocation.offset * 2 ^ bits) % 2 ^ 64 ∧
  ∃ length, Held a tiles h.allocation.metadata h.allocation.offset length ∧ h.size ≤ length * 2 ^ bits

theorem Backed.of_held {base bits : Nat} {a a' : Allocator} {tiles tiles' : List Nat} {h : OffsetAllocationHandle}
    (backed : Backed base bits a tiles h)
    (held : ∀ o l, Held a tiles h.allocation.metadata o l → Held a' tiles' h.allocation.metadata o l) :
    Backed base bits a' tiles' h := by
  obtain ⟨address, length, block, enough⟩ := backed
  exact ⟨address, length, held _ _ block, enough⟩

structure Arena.Sound (base capacity : Nat) (s : Arena) : Prop where
  placed : s.owner.base = base
  bits : s.owner.multiplierBits = calculateMultiplier capacity
  units : s.owner.allocator.size = capacity >>> calculateMultiplier capacity
  blocks : ∃ tiles bins, Represents s.owner.allocator tiles bins ∧
    Owned s.owner.allocator tiles (s.live.map OffsetAllocationHandle.allocation) ∧
    ∀ h ∈ s.live, Backed base (calculateMultiplier capacity) s.owner.allocator tiles h

theorem arena_start_sound {base capacity init limit : Nat} (word : capacity < 2 ^ 64) (some_node : 1 ≤ init)
    (init_word : init < 2 ^ 32) (limit_word : limit < 2 ^ 32) :
    (Arena.start base capacity init limit).Sound base capacity := by
  obtain ⟨whole, tiles, bins, represents, owned⟩ := start_sound (calculateMultiplier_spec word).1 some_node init_word
    limit_word
  refine ⟨rfl, rfl, whole, tiles, bins, represents, owned, ?_⟩
  intro h member
  cases member

/-- A successful `allocate`, provided the sum in `fakeSize` does not wrap. -/
theorem arena_allocate_sound {base capacity n : Nat} {s : Arena} (h : s.Sound base capacity)
    (fits : n + 2 ^ calculateMultiplier capacity - 1 < 2 ^ 64) :
    Arena.Sound base capacity ⟨(s.owner.allocate n).1, (s.owner.allocate n).2.toList ++ s.live⟩ := by
  obtain ⟨hbase, bits, units, tiles, bins, represents, owned, backed⟩ := id h
  simp only [OffsetAllocator.allocate]
  split
  · exact h
  split
  · exact h
  rename_i small
  have word : OffsetAllocator.fakeSize s.owner.multiplierBits n < 2 ^ 32 :=
    Nat.lt_of_le_of_lt (Nat.le_of_not_lt small) (by decide)
  obtain ⟨tiles', bins', represents', outcome⟩ := allocate_represents represents word
  have kept := (allocate_size s.owner.allocator (OffsetAllocator.fakeSize s.owner.multiplierBits n)).trans units
  rcases outcome with ⟨failed, -, held⟩ | ⟨x, o, R, granted, -, exact_size, fresh, held⟩
  · simp only [failed]
    refine ⟨hbase, bits, kept, tiles', bins', represents', owned.same held, ?_⟩
    exact fun h live => (backed h live).of_held (fun _ _ => (held _ _ _).mpr)
  · have real := held_not_noSpace represents' ((held x o R).mpr (Or.inl ⟨rfl, rfl, rfl⟩))
    simp only [granted, real]
    refine ⟨hbase, bits, kept, tiles', bins', represents', owned.add fresh held, ?_⟩
    intro h live
    rcases mem_cons.mp live with rfl | live
    · refine ⟨?_, R, (held x o R).mpr (Or.inl ⟨rfl, rfl, rfl⟩), ?_⟩
      · simp only [OffsetAllocationHandle.address, hbase, bits, Nat.add_mod_mod]
      · have covered : OffsetAllocator.fakeSize s.owner.multiplierBits n ≤ R := by
          rw [exact_size, ← roundUp_le_iff word]
        rw [bits] at covered
        exact (fakeSize_le_iff fits).mp covered
    · exact (backed h live).of_held (fun _ _ was => (held _ _ _).mpr (Or.inr was))

variable {handle : OffsetAllocationHandle}

theorem map_erase_allocation {live : List OffsetAllocationHandle}
    (distinct : (live.map OffsetAllocationHandle.allocation).Nodup) (member : handle ∈ live) :
    (live.erase handle).map OffsetAllocationHandle.allocation =
      (live.map OffsetAllocationHandle.allocation).erase handle.allocation := by
  have nodup : live.Nodup := Nodup.of_map _ distinct
  rw [nodup.erase_eq_filter, distinct.erase_eq_filter, filter_map]
  congr 1
  apply filter_congr
  intro other was
  have same : other.allocation = handle.allocation ↔ other = handle :=
    ⟨inj_on_of_nodup_map distinct was member, fun eq => congrArg _ eq⟩
  simp [bne, same]

theorem arena_destroy_sound {base capacity : Nat} {s : Arena}
    (h : s.Sound base capacity) (live : handle ∈ s.live) :
    Arena.Sound base capacity ⟨s.owner.freeAllocation handle.allocation handle.size, s.live.erase handle⟩ := by
  obtain ⟨hbase, bits, units, tiles, bins, represents, owned, backed⟩ := h
  have listed : handle.allocation ∈ s.live.map OffsetAllocationHandle.allocation := mem_map_of_mem live
  obtain ⟨length, tile, extent⟩ := owned.held handle.allocation listed
  obtain ⟨kept, tiles', bins', represents', held, -⟩ := free_represents represents tile
    (congrArg (fun e => e.2.2) extent)
  have distinct : (s.live.map OffsetAllocationHandle.allocation).Nodup := Nodup.of_map _ owned.distinct
  have nodup : s.live.Nodup := Nodup.of_map _ distinct
  have remaining := map_erase_allocation distinct live
  refine ⟨hbase, bits, kept.trans units, tiles', bins', represents', ?_, ?_⟩
  · rw [remaining]
    exact owned.remove listed held
  · intro other stays
    obtain ⟨ne, was⟩ := nodup.mem_erase_iff.mp stays
    refine (backed other was).of_held (fun o l before => (held _ _ _).mpr ⟨?_, before⟩)
    intro eq
    have same := inj_on_of_nodup_map owned.distinct (mem_map_of_mem was) listed eq
    exact ne (inj_on_of_nodup_map distinct was live same)

theorem arena_step_sound {base capacity : Nat} {s s' : Arena} {call : Call} (h : s.Sound base capacity)
    (fits : ∀ n, call = .allocate n → n + 2 ^ calculateMultiplier capacity - 1 < 2 ^ 64)
    (stepped : s.step call = some s') : s'.Sound base capacity := by
  cases call with
  | allocate n =>
    cases stepped
    exact arena_allocate_sound h (fits n rfl)
  | destroy handle =>
    simp only [Arena.step] at stepped
    split at stepped
    · rename_i live
      cases stepped
      exact arena_destroy_sound h live
    · cases stepped

theorem scaled_inside {offset length m capacity : Nat} (inside : offset + length ≤ capacity >>> m) :
    offset * 2 ^ m + length * 2 ^ m ≤ capacity := by
  rw [Nat.shiftRight_eq_div_pow] at inside
  calc offset * 2 ^ m + length * 2 ^ m = (offset + length) * 2 ^ m := (Nat.add_mul _ _ _).symm
    _ ≤ capacity / 2 ^ m * 2 ^ m := Nat.mul_le_mul_right _ inside
    _ ≤ capacity := Nat.div_mul_le_self capacity (2 ^ m)

section Ranges
variable {base capacity : Nat} {s : Arena}

theorem Arena.Sound.contained (h : s.Sound base capacity) {x : OffsetAllocationHandle} (live : x ∈ s.live) :
    bytes x.address x.size ⊆ bytes base capacity := by
  obtain ⟨-, -, units, tiles, bins, represents, -, backed⟩ := h
  obtain ⟨address, length, ⟨tile, extent⟩, enough⟩ := backed x live
  have inside := (Cover.covers_mem represents.tiling.cover tile).2
  simp only [Node.extent, Prod.mk.injEq] at extent
  rw [extent.1, extent.2.1, units] at inside
  have scaled := scaled_inside inside
  rw [address]
  exact bytes_subset (by omega)

theorem Arena.Sound.disjoint (h : s.Sound base capacity) (word : capacity < 2 ^ 64) :
    s.live.Pairwise (fun x y => Disjoint (bytes x.address x.size) (bytes y.address y.size)) := by
  obtain ⟨-, -, units, tiles, bins, represents, owned, backed⟩ := h
  have distinct : s.live.Pairwise (fun x y => x.allocation.metadata ≠ y.allocation.metadata) := by
    have nodup := owned.distinct
    rw [map_map] at nodup
    exact pairwise_map.mp nodup
  apply distinct.imp_of_mem
  intro x y hx hy ne
  obtain ⟨addressX, lengthX, ⟨tileX, extentX⟩, enoughX⟩ := backed x hx
  obtain ⟨addressY, lengthY, ⟨tileY, extentY⟩, enoughY⟩ := backed y hy
  have apart := Cover.covers_disjoint represents.tiling.cover tileX tileY ne
  have insideX := (Cover.covers_mem represents.tiling.cover tileX).2
  have insideY := (Cover.covers_mem represents.tiling.cover tileY).2
  simp only [Node.extent, Prod.mk.injEq] at extentX extentY
  rw [extentX.1, extentX.2.1, units] at insideX
  rw [extentY.1, extentY.2.1, units] at insideY
  have scaledX := scaled_inside insideX
  have scaledY := scaled_inside insideY
  rw [extentX.1, extentX.2.1, extentY.1, extentY.2.1] at apart
  rw [addressX, addressY]
  rcases apart with before | after
  · have scaled := Nat.mul_le_mul_right (2 ^ calculateMultiplier capacity) before
    rw [Nat.add_mul] at scaled
    exact bytes_disjoint (by omega) (by omega)
  · have scaled := Nat.mul_le_mul_right (2 ^ calculateMultiplier capacity) after
    rw [Nat.add_mul] at scaled
    exact (bytes_disjoint (by omega) (by omega)).symm

end Ranges

/-- Live handles never overlap and never leave the buffer in a run in which no
request makes the rounding sum of `allocate` wrap. -/
theorem live_handles_disjoint (base capacity init limit : Nat) (word : capacity < 2 ^ 64) (some_node : 1 ≤ init)
    (init_word : init < 2 ^ 32) (limit_word : limit < 2 ^ 32) (calls : List Call)
    (fits : ∀ n, Call.allocate n ∈ calls → n + 2 ^ calculateMultiplier capacity - 1 < 2 ^ 64) (s : Arena)
    (run : Run.run Arena.step (Arena.start base capacity init limit) calls = some s) :
    s.live.Pairwise (fun x y => Disjoint (bytes x.address x.size) (bytes y.address y.size)) ∧
    ∀ x ∈ s.live, bytes x.address x.size ⊆ bytes base capacity := by
  have guarded : Run.Guarded Arena.step
      (fun _ call => ∀ n, call = .allocate n → n + 2 ^ calculateMultiplier capacity - 1 < 2 ^ 64)
      (Arena.start base capacity init limit) calls := by
    apply Run.guarded_of_forall
    rintro call member n rfl
    exact fits n member
  have sound : s.Sound base capacity := Run.guarded_invariant
    (fun s call s' h meets stepped => arena_step_sound h meets stepped)
    (arena_start_sound word some_node init_word limit_word) run guarded
  exact ⟨sound.disjoint word, fun x live => sound.contained live⟩

theorem live_handles_disjoint_scaled :
    ∃ s, Run.run Arena.step (Arena.start 4096 (2 ^ 33) 16 64) [.allocate 5, .allocate (2 ^ 32), .allocate 1] = some s ∧
      s.live.length = 3 ∧
      s.live.Pairwise (fun x y => Disjoint (bytes x.address x.size) (bytes y.address y.size)) := by
  have outcome : (Run.run Arena.step (Arena.start 4096 (2 ^ 33) 16 64)
      [.allocate 5, .allocate (2 ^ 32), .allocate 1]).map (fun s => s.live.length) = some 3 := by
    decide +kernel
  obtain ⟨s, run, three⟩ := Option.map_eq_some_iff.mp outcome
  have fits : ∀ n, Call.allocate n ∈ [.allocate 5, .allocate (2 ^ 32), .allocate 1] →
      n + 2 ^ calculateMultiplier (2 ^ 33) - 1 < 2 ^ 64 := by
    have bits : calculateMultiplier (2 ^ 33) = 2 := by decide +kernel
    intro n member
    rw [bits]
    simp only [mem_cons, Call.allocate.injEq, not_mem_nil, or_false] at member
    omega
  exact ⟨s, run, three, (live_handles_disjoint 4096 (2 ^ 33) 16 64 (by decide) (by decide) (by decide) (by decide)
    _ fits s run).1⟩

/-- A request of 2^64 - 1 bytes wraps to zero core units and succeeds: its handle
leaves the buffer, and the next handle gets an address inside its range. -/
theorem wrapped_request_overlaps :
    ∃ s, Run.run Arena.step (Arena.start 4096 (2 ^ 32) 1024 1048576) [.allocate (2 ^ 64 - 1), .allocate 100] = some s ∧
      ¬ (s.live.Pairwise (fun x y => Disjoint (bytes x.address x.size) (bytes y.address y.size))) ∧
      ∃ x ∈ s.live, ¬ bytes x.address x.size ⊆ bytes 4096 (2 ^ 32) := by
  have outcome : (Run.run Arena.step (Arena.start 4096 (2 ^ 32) 1024 1048576)
      [.allocate (2 ^ 64 - 1), .allocate 100]).map Arena.live =
        some [⟨⟨0, 1⟩, 4096, 100⟩, ⟨⟨0, 0⟩, 4096, 2 ^ 64 - 1⟩] := by
    decide +kernel
  obtain ⟨s, run, live⟩ := Option.map_eq_some_iff.mp outcome
  refine ⟨s, run, ?_, ⟨⟨0, 0⟩, 4096, 2 ^ 64 - 1⟩, by simp [live], ?_⟩
  · rw [live]
    intro pairwise
    have disjoint := (pairwise_cons.mp pairwise).1 _ (mem_singleton.mpr rfl)
    rw [Set.disjoint_left] at disjoint
    exact disjoint ⟨0, by decide, rfl⟩ ⟨0, by decide, rfl⟩
  · intro subset
    obtain ⟨k, small, eq⟩ := subset ⟨2 ^ 32, by decide, rfl⟩
    simp only [OffsetAllocationHandle.address] at eq
    omega

end Mooncake.Offset
