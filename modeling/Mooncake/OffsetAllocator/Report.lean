import Mooncake.OffsetAllocator.Wrapper

/-! The storage report against the next `allocate`. The report names the size of the
last occupied bin, a request is looked for from the bin of its size rounded up: the
two agree because rounding up is adjoint to the decoder of bin sizes. The invariant
here is that of the core alone, which also holds after requests whose sum wrapped. -/
namespace Mooncake.Offset
open SmallFloat OffsetAllocator

section Core
variable {a : Allocator} {tiles : List Nat} {bins : Nat → List Nat}
variable (h : Represents a tiles bins)
include h

theorem report_lastBin (room : a.freeOffset < a.maxCapacity) :
    (a.storageReport.largestFreeRegion = 0 ∧ ∀ b, bins b = []) ∨
    ∃ last, a.storageReport.largestFreeRegion = floatToUint last ∧ bins last ≠ [] ∧ ∀ b, bins b ≠ [] → b ≤ last := by
  simp only [Allocator.storageReport, if_pos room]
  by_cases empty : a.usedBinsTop = 0#32
  · rw [if_pos empty]
    refine Or.inl ⟨rfl, fun b => ?_⟩
    by_contra occupied
    exact BitScan.ne_zero_of_set (h.bins.masks.top_set (h.bin_word occupied) occupied).2 empty
  · rw [if_neg empty]
    obtain ⟨last, index, occupied, highest⟩ := lastBin_spec h.bins.masks empty
    exact Or.inr ⟨last, congrArg floatToUint index, occupied, fun b used => highest b (h.bin_word used) used⟩

theorem fits_iff_le_report (room : a.freeOffset < a.maxCapacity) {size : Nat}
    (positive : 1 ≤ size) (word : size < 2 ^ 32) : Fits a bins size ↔ size ≤ a.storageReport.largestFreeRegion := by
  have spare : a.freeOffset ≠ a.maxCapacity := Nat.ne_of_lt room
  rcases report_lastBin h room with ⟨nothing, empty⟩ | ⟨last, report, occupied, highest⟩
  · rw [nothing]
    refine iff_of_false ?_ (by omega)
    rintro ⟨-, b, -, used⟩
    exact used (empty b)
  · rw [report, ← roundUp_le_iff word]
    constructor
    · rintro ⟨-, b, low, used⟩
      exact Nat.le_trans low (highest b used)
    · exact fun low => ⟨spare, last, low, occupied⟩

theorem report_le_size : a.storageReport.largestFreeRegion ≤ a.size := by
  by_cases room : a.freeOffset < a.maxCapacity
  · rcases report_lastBin h room with ⟨nothing, -⟩ | ⟨last, report, occupied, -⟩
    · rw [nothing]
      exact Nat.zero_le _
    · obtain ⟨i, member⟩ := List.exists_mem_of_ne_nil _ occupied
      obtain ⟨free, rfl⟩ := (h.bins.mem last i).mp member
      have tile := (mem_freeTiles.mp free).1
      have inside := (Cover.covers_mem h.tiling.cover tile).2
      have below := (roundDown_spec (h.tile_word tile)).1
      omega
  · simp only [Allocator.storageReport, if_neg room]
    exact Nat.zero_le _

end Core

def Arena.session (s : Arena) : Session := ⟨s.owner.allocator, s.live.map OffsetAllocationHandle.allocation⟩

theorem arena_step_session {size : Nat} {s s' : Arena} {call : Call} (h : s.session.Sound size)
    (stepped : s.step call = some s') : s'.owner.multiplierBits = s.owner.multiplierBits ∧
      (s'.session = s.session ∨ ∃ r, (∀ n, r = .allocate n → n < 2 ^ 32) ∧ s.session.step r = some s'.session) := by
  cases call with
  | allocate n =>
    cases stepped
    simp only [allocate]
    split
    · exact ⟨rfl, Or.inl rfl⟩
    split
    · exact ⟨rfl, Or.inl rfl⟩
    rename_i small
    have word : ∀ k, .allocate (fakeSize s.owner.multiplierBits n) = Request.allocate k → k < 2 ^ 32 := by
      rintro k ⟨⟩
      exact Nat.lt_of_le_of_lt (Nat.le_of_not_lt small) (by decide)
    split
    · rename_i failed
      refine ⟨rfl, Or.inr ⟨_, word, ?_⟩⟩
      simp only [Session.step, Arena.session, failed, if_true, Option.toList, List.nil_append]
    · rename_i granted
      refine ⟨rfl, Or.inr ⟨_, word, ?_⟩⟩
      simp only [Session.step, Arena.session, granted, Bool.false_eq_true, if_false, Option.toList, List.cons_append,
        List.nil_append, List.map_cons]
  | destroy handle =>
    simp only [Arena.step] at stepped
    split at stepped
    · rename_i live
      cases stepped
      obtain ⟨-, tiles, bins, -, owned⟩ := h
      have distinct : (s.live.map OffsetAllocationHandle.allocation).Nodup := List.Nodup.of_map _ owned.distinct
      have listed : handle.allocation ∈ s.live.map OffsetAllocationHandle.allocation := List.mem_map_of_mem live
      refine ⟨rfl, Or.inr ⟨.free handle.allocation, by simp, ?_⟩⟩
      simp only [Session.step, Arena.session, freeAllocation, map_erase_allocation distinct live]
      exact if_pos listed
    · cases stepped

def Arena.Framed (capacity : Nat) (s : Arena) : Prop :=
  s.owner.multiplierBits = calculateMultiplier capacity ∧
  s.session.Sound (capacity >>> calculateMultiplier capacity)

theorem arena_run_framed {base capacity init limit : Nat} (word : capacity < 2 ^ 64) (some_node : 1 ≤ init)
    (init_word : init < 2 ^ 32) (limit_word : limit < 2 ^ 32) {calls : List Call} {s : Arena}
    (run : Run.run Arena.step (Arena.start base capacity init limit) calls = some s) : s.Framed capacity := by
  have start : (Arena.start base capacity init limit).Framed capacity :=
    ⟨rfl, start_sound (calculateMultiplier_spec word).1 some_node init_word limit_word⟩
  refine Run.invariant ?_ start run
  rintro s call s' ⟨bits, sound⟩ stepped
  obtain ⟨kept, same | ⟨r, sizes, next⟩⟩ := arena_step_session sound stepped
  · exact ⟨kept.trans bits, same ▸ sound⟩
  · exact ⟨kept.trans bits, step_sound sound sizes next⟩

section Arena
variable {capacity n : Nat} {s : Arena}

theorem Arena.Framed.core (h : s.Framed capacity) :
    s.owner.allocator.size = capacity >>> calculateMultiplier capacity ∧
    ∃ tiles bins, Represents s.owner.allocator tiles bins := by
  obtain ⟨-, whole, tiles, bins, represents, -⟩ := h
  exact ⟨whole, tiles, bins, represents⟩

theorem allocate_isSome_iff (owner : OffsetAllocator) (positive : n ≠ 0) : (owner.allocate n).2.isSome ↔
    fakeSize owner.multiplierBits n ≤ maxBinSize ∧
    (owner.allocator.allocate (fakeSize owner.multiplierBits n)).2.isNoSpace = false := by
  simp only [allocate, if_neg positive]
  split
  · rename_i large
    simp [Nat.not_le.mpr large]
  · rename_i small
    split <;> rename_i outcome <;> simp [outcome, Nat.le_of_not_lt small]

variable (h : s.Framed capacity)
include h

/-- The report of the owner is that of the core, scaled; the scaling does not overflow. -/
theorem report_scaled (word : capacity < 2 ^ 64) :
    s.owner.storageReport.largestFreeRegion =
      s.owner.allocator.storageReport.largestFreeRegion * 2 ^ calculateMultiplier capacity := by
  obtain ⟨whole, tiles, bins, represents⟩ := h.core
  have inside : 0 + s.owner.allocator.storageReport.largestFreeRegion ≤ capacity >>> calculateMultiplier capacity := by
    rw [Nat.zero_add, ← whole]
    exact report_le_size represents
  have scaled := scaled_inside inside
  simp only [storageReport, h.1, Nat.shiftLeft_eq]
  exact Nat.mod_eq_of_lt (by omega)

theorem allocate_iff_le_report (word : capacity < 2 ^ 64) (positive : 1 ≤ n) (half : n < 2 ^ 63)
    (room : s.owner.allocator.freeOffset < s.owner.allocator.maxCapacity) :
    (s.owner.allocate n).2.isSome ↔ n ≤ s.owner.storageReport.largestFreeRegion := by
  obtain ⟨-, tiles, bins, represents⟩ := h.core
  have small := (calculateMultiplier_spec word).2
  have power : 2 ^ calculateMultiplier capacity ≤ 2 ^ 33 := Nat.pow_le_pow_right (by decide) small
  have fits : n + 2 ^ calculateMultiplier capacity - 1 < 2 ^ 64 := by omega
  have some_unit : 1 ≤ fakeSize (calculateMultiplier capacity) n := by
    by_contra none
    have covered := (fakeSize_le_iff fits).mp (Nat.le_of_lt_succ (Nat.lt_of_not_le none))
    omega
  have inside := Nat.le_trans (report_le_size represents) represents.bytes
  rw [allocate_isSome_iff _ (by omega), report_scaled h word, ← fakeSize_le_iff fits, h.1]
  constructor
  · rintro ⟨guard, granted⟩
    have word : fakeSize (calculateMultiplier capacity) n < 2 ^ 32 :=
      Nat.lt_of_le_of_lt guard (by decide)
    exact (fits_iff_le_report represents room some_unit word).mp ((granted_iff_fits represents word).mp granted)
  · intro le
    have guard := Nat.le_trans le inside
    have word : fakeSize (calculateMultiplier capacity) n < 2 ^ 32 :=
      Nat.lt_of_le_of_lt guard (by decide)
    exact ⟨guard, (granted_iff_fits represents word).mpr ((fits_iff_le_report represents room some_unit word).mpr le)⟩

theorem full_table (full : ¬ s.owner.allocator.freeOffset < s.owner.allocator.maxCapacity) (n : Nat) :
    s.owner.storageReport.largestFreeRegion = 0 ∧ (s.owner.allocate n).2 = none := by
  obtain ⟨-, tiles, bins, represents⟩ := h.core
  have offset := represents.freeNodes.card_le
  have grown := represents.grown
  have last : s.owner.allocator.freeOffset = s.owner.allocator.maxCapacity := by omega
  refine ⟨?_, ?_⟩
  · simp only [storageReport, Allocator.storageReport, if_neg full, Nat.zero_shiftLeft, Nat.zero_mod]
  · simp only [allocate, Allocator.allocate, if_pos last]
    split
    · rfl
    split
    · rfl
    · rfl

end Arena

end Mooncake.Offset
