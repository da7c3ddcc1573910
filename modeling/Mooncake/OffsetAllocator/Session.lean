import Mooncake.Lib.Run
import Mooncake.OffsetAllocator.Free

/-! Whole runs of the allocator core: any sequence of `allocate` and of `free` of
allocations that are live. -/
namespace Mooncake.Offset
open SmallFloat List

structure Session where
  core : Allocator
  live : List OffsetAllocation

inductive Request where
  | allocate (size : Nat)
  | free (allocation : OffsetAllocation)
deriving DecidableEq

namespace Session

def start (size initCapacity maxCapacity : Nat) : Session :=
  ⟨Allocator.create size initCapacity maxCapacity, []⟩

def step (s : Session) : Request → Option Session
  | .allocate size =>
    let result := s.core.allocate size
    some ⟨result.1, if result.2.isNoSpace then s.live else result.2 :: s.live⟩
  | .free allocation =>
    if allocation ∈ s.live then some ⟨s.core.free allocation, s.live.erase allocation⟩ else none

end Session

structure Owned (a : Allocator) (tiles : List Nat) (live : List OffsetAllocation) : Prop where
  held : ∀ x ∈ live, ∃ length, Held a tiles x.metadata x.offset length
  listed : ∀ i o l, Held a tiles i o l → (⟨o, i⟩ : OffsetAllocation) ∈ live
  distinct : (live.map OffsetAllocation.metadata).Nodup

section Owned
variable {a a' : Allocator} {tiles tiles' : List Nat} {live : List OffsetAllocation}
variable (h : Owned a tiles live)
include h

theorem Owned.same (held : ∀ i o l, Held a' tiles' i o l ↔ Held a tiles i o l) : Owned a' tiles' live := by
  refine ⟨?_, fun i o l now => h.listed i o l ((held i o l).mp now), h.distinct⟩
  intro x hx
  obtain ⟨length, was⟩ := h.held x hx
  exact ⟨length, (held _ _ _).mpr was⟩

theorem Owned.add {x o R : Nat} (fresh : ∀ o l, ¬ Held a tiles x o l)
    (held : ∀ i o' l, Held a' tiles' i o' l ↔ (i = x ∧ o' = o ∧ l = R) ∨ Held a tiles i o' l) :
    Owned a' tiles' (⟨o, x⟩ :: live) := by
  constructor
  · intro y hy
    rcases mem_cons.mp hy with rfl | hy
    · exact ⟨R, (held _ _ _).mpr (Or.inl ⟨rfl, rfl, rfl⟩)⟩
    · obtain ⟨length, was⟩ := h.held y hy
      exact ⟨length, (held _ _ _).mpr (Or.inr was)⟩
  · intro i o' l now
    rcases (held i o' l).mp now with ⟨rfl, rfl, -⟩ | was
    · simp
    · exact mem_cons_of_mem _ (h.listed i o' l was)
  · refine nodup_cons.mpr ⟨?_, h.distinct⟩
    intro inside
    obtain ⟨y, hy, eq⟩ := mem_map.mp inside
    obtain ⟨length, was⟩ := h.held y hy
    exact fresh _ _ (eq ▸ was)

theorem Owned.remove {x : OffsetAllocation} (member : x ∈ live)
    (held : ∀ i o l, Held a' tiles' i o l ↔ i ≠ x.metadata ∧ Held a tiles i o l) :
    Owned a' tiles' (live.erase x) := by
  have nodup : live.Nodup := List.Nodup.of_map _ h.distinct
  constructor
  · intro y hy
    obtain ⟨ne, was⟩ := nodup.mem_erase_iff.mp hy
    obtain ⟨length, before⟩ := h.held y was
    refine ⟨length, (held _ _ _).mpr ⟨?_, before⟩⟩
    exact fun eq => ne (inj_on_of_nodup_map h.distinct was member eq)
  · intro i o l now
    obtain ⟨ne, before⟩ := (held i o l).mp now
    refine nodup.mem_erase_iff.mpr ⟨?_, h.listed i o l before⟩
    rintro rfl
    exact ne rfl
  · exact h.distinct.sublist (List.Sublist.map _ erase_sublist)

end Owned

def Session.Sound (size : Nat) (s : Session) : Prop :=
  s.core.size = size ∧ ∃ tiles bins, Represents s.core tiles bins ∧ Owned s.core tiles s.live

variable {s s' : Session} {bins : Nat → List Nat} {size n : Nat} {r : Request}

theorem start_sound {init limit : Nat} (bytes : size ≤ maxBinSize) (some_node : 1 ≤ init) (init_word : init < 2 ^ 32)
    (limit_word : limit < 2 ^ 32) : (Session.start size init limit).Sound size := by
  obtain ⟨whole, nothing, bins, represents⟩ := create_represents bytes some_node init_word limit_word
  refine ⟨whole, [0], bins, represents, ?_, fun i o l held => absurd held (nothing i o l), nodup_nil⟩
  intro x hx
  cases hx

/-- A step keeps the representation and every block that it does not free. -/
theorem step_represents {tiles : List Nat} (represents : Represents s.core tiles bins)
    (owned : Owned s.core tiles s.live) (sizes : ∀ n, r = .allocate n → n < 2 ^ 32) (stepped : s.step r = some s') :
    s'.core.size = s.core.size ∧ ∃ tiles' bins', Represents s'.core tiles' bins' ∧ Owned s'.core tiles' s'.live ∧
      ∀ i o l, r ≠ .free ⟨o, i⟩ → Held s.core tiles i o l → Held s'.core tiles' i o l := by
  cases r with
  | allocate n =>
    obtain ⟨tiles', bins', represents', outcome⟩ := allocate_represents represents (sizes n rfl)
    cases stepped
    refine ⟨allocate_size s.core n, tiles', bins', represents', ?_⟩
    rcases outcome with ⟨failed, -, held⟩ | ⟨x, o, R, granted, -, -, fresh, held⟩
    · simp only [failed]
      exact ⟨owned.same held, fun i o l _ was => (held i o l).mpr was⟩
    · have real := held_not_noSpace represents' ((held x o R).mpr (Or.inl ⟨rfl, rfl, rfl⟩))
      simp only [granted, real]
      exact ⟨owned.add fresh held, fun i o l _ was => (held i o l).mpr (Or.inr was)⟩
  | free allocation =>
    simp only [Session.step] at stepped
    split at stepped
    · rename_i live
      cases stepped
      obtain ⟨length, tile, extent⟩ := owned.held allocation live
      obtain ⟨kept, tiles', bins', represents', held, -⟩ := free_represents represents tile
        (congrArg (fun e => e.2.2) extent)
      refine ⟨kept, tiles', bins', represents', owned.remove live held, ?_⟩
      intro i o l other was
      refine (held i o l).mpr ⟨?_, was⟩
      intro same
      have eq := inj_on_of_nodup_map owned.distinct (owned.listed i o l was) live same
      exact other (congrArg Request.free eq.symm)
    · cases stepped

theorem step_sound (h : s.Sound size) (sizes : ∀ n, r = .allocate n → n < 2 ^ 32) (stepped : s.step r = some s') :
    s'.Sound size := by
  obtain ⟨whole, tiles, bins, represents, owned⟩ := h
  obtain ⟨kept, tiles', bins', represents', owned', -⟩ := step_represents represents owned sizes stepped
  exact ⟨kept.trans whole, tiles', bins', represents', owned'⟩

theorem run_sound {init limit : Nat} (bytes : size ≤ maxBinSize) (some_node : 1 ≤ init) (init_word : init < 2 ^ 32)
    (limit_word : limit < 2 ^ 32) {requests : List Request} (sizes : ∀ n, Request.allocate n ∈ requests → n < 2 ^ 32)
    (run : Run.run Session.step (Session.start size init limit) requests = some s) : s.Sound size := by
  have guarded : Run.Guarded Session.step (fun _ r => ∀ n, r = .allocate n → n < 2 ^ 32)
      (Session.start size init limit) requests := by
    apply Run.guarded_of_forall
    rintro r member n rfl
    exact sizes n member
  exact Run.guarded_invariant (fun s r s' h meets stepped => step_sound h meets stepped)
    (start_sound bytes some_node init_word limit_word) run guarded

theorem single_tile {a : Allocator} {tiles : List Nat} (h : Represents a tiles bins)
    (nothing : ∀ i o l, ¬ Held a tiles i o l) : ∃ i, tiles = [i] ∧ (a.nodes i).extent = (0, a.size, false) := by
  have spare : ∀ i ∈ tiles, (a.nodes i).used = false := by
    intro i hi
    cases used : (a.nodes i).used with
    | false => rfl
    | true => exact absurd ⟨hi, by simp [Node.extent, used]⟩ (nothing i (a.nodes i).dataOffset (a.nodes i).dataSize)
  cases tiles with
  | nil => exact absurd rfl h.nonempty
  | cons i rest =>
    cases rest with
    | cons j rest =>
      have either := (isChain_cons_cons.mp h.tiling.merged).1
      rw [spare i (by simp), spare j (by simp)] at either
      simp at either
    | nil =>
      obtain ⟨start, stop⟩ := h.tiling.cover
      simp only [Cover.Covers, Nat.zero_add] at start stop
      exact ⟨i, rfl, by simp only [Node.extent, start, stop, spare i (by simp)]⟩

theorem allocator_invariant (size init limit : Nat) (bytes : size ≤ maxBinSize) (some_node : 1 ≤ init)
    (init_word : init < 2 ^ 32) (limit_word : limit < 2 ^ 32) (requests : List Request)
    (sizes : ∀ n, Request.allocate n ∈ requests → 1 ≤ n ∧ n ≤ maxBinSize) (s : Session)
    (run : Run.run Session.step (Session.start size init limit) requests = some s) :
    ∃ tiles bins, s.core.size = size ∧ Tiles s.core tiles ∧ Bins s.core bins (freeTiles s.core tiles) ∧
      Set.InjOn s.core.freeNodes (Set.Ico s.core.freeOffset s.core.currentCapacity) ∧
      (Finset.Ico s.core.freeOffset s.core.currentCapacity).image s.core.freeNodes =
        Finset.range s.core.currentCapacity \ tiles.toFinset ∧
      (∀ i ∈ tiles, (s.core.nodes i).used = true ↔ ∃ x ∈ s.live, x.metadata = i) ∧
      (s.live = [] → ∃ i, tiles = [i] ∧ (s.core.nodes i).extent = (0, size, false)) := by
  have sound : s.Sound size := run_sound bytes some_node init_word limit_word
    (fun n member => Nat.lt_of_le_of_lt (sizes n member).2 (by decide)) run
  obtain ⟨whole, tiles, bins, represents, owned⟩ := sound
  refine ⟨tiles, bins, whole, represents.tiling, represents.bins, represents.freeNodes.distinct,
    represents.freeNodes.exact, ?_, ?_⟩
  · intro i hi
    constructor
    · intro used
      exact ⟨_, owned.listed i _ _ ⟨hi, by rw [Node.extent, used]⟩, rfl⟩
    · rintro ⟨x, hx, rfl⟩
      obtain ⟨length, -, extent⟩ := owned.held x hx
      exact congrArg (fun e => e.2.2) extent
  · intro idle
    rw [← whole]
    apply single_tile represents
    intro i o l held
    have listed := owned.listed i o l held
    rw [idle] at listed
    cases listed

theorem allocator_invariant_after_merge :
    ∃ s, Run.run Session.step (Session.start 4096 2 8)
        [.allocate 100, .allocate 1000, .free ⟨0, 0⟩, .free ⟨104, 1⟩, .allocate 4097] = some s ∧
      ∃ i, Tiles s.core [i] ∧ (s.core.nodes i).extent = (0, 4096, false) := by
  have outcome : (Run.run Session.step (Session.start 4096 2 8)
      [.allocate 100, .allocate 1000, .free ⟨0, 0⟩, .free ⟨104, 1⟩, .allocate 4097]).map Session.live = some [] := by
    decide +kernel
  obtain ⟨s, run, idle⟩ := Option.map_eq_some_iff.mp outcome
  have sizes : ∀ n, Request.allocate n ∈
      [.allocate 100, .allocate 1000, .free ⟨0, 0⟩, .free ⟨104, 1⟩, .allocate 4097] → 1 ≤ n ∧ n ≤ maxBinSize := by
    intro n member
    simp only [mem_cons, Request.allocate.injEq, reduceCtorEq, not_mem_nil, or_false, false_or] at member
    unfold maxBinSize
    omega
  obtain ⟨tiles, bins, -, tiling, -, -, -, -, single⟩ := allocator_invariant 4096 2 8 (by decide) (by decide)
    (by decide) (by decide) _ sizes s run
  obtain ⟨i, rfl, whole⟩ := single idle
  exact ⟨s, run, i, tiling, whole⟩

def Session.Keeps (x : OffsetAllocation) (length : Nat) (s : Session) : Prop :=
  ∃ tiles bins, Represents s.core tiles bins ∧ Owned s.core tiles s.live ∧
    Held s.core tiles x.metadata x.offset length

/-- The block of an allocation is as long as the bin in which its size is looked for. -/
theorem allocate_keeps (h : s.Sound size) (word : n < 2 ^ 32) (real : (s.core.allocate n).2.isNoSpace = false) :
    Session.Keeps (s.core.allocate n).2 (floatToUint (uintToFloatRoundUp n))
      ⟨(s.core.allocate n).1, (s.core.allocate n).2 :: s.live⟩ := by
  obtain ⟨-, tiles, bins, represents, owned⟩ := h
  obtain ⟨tiles', bins', represents', outcome⟩ := allocate_represents represents word
  rcases outcome with ⟨failed, -⟩ | ⟨x, o, R, granted, -, rfl, fresh, held⟩
  · rw [failed] at real
    cases real
  · rw [granted]
    exact ⟨tiles', bins', represents', owned.add fresh held, (held _ _ _).mpr (Or.inl ⟨rfl, rfl, rfl⟩)⟩

/-- A freed block lies in one free tile, whose bin is not below the one searched. -/
theorem free_fits {x : OffsetAllocation} (h : s.Keeps x (floatToUint (uintToFloatRoundUp n))) (word : n < 2 ^ 32)
    (room : (s.core.free x).freeOffset ≠ (s.core.free x).maxCapacity) :
    ((s.core.free x).allocate n).2.isNoSpace = false := by
  obtain ⟨tiles, bins, represents, -, tile, extent⟩ := h
  obtain ⟨-, tiles', bins', represents', -, i, free, long⟩ := free_represents represents tile
    (congrArg (fun e => e.2.2) extent)
  have length : (s.core.nodes x.metadata).dataSize = floatToUint (uintToFloatRoundUp n) :=
    congrArg (fun e => e.2.1) extent
  rw [granted_iff_fits represents' word]
  refine ⟨room, uintToFloatRoundDown ((s.core.free x).nodes i).dataSize, ?_, ?_⟩
  · rw [le_roundDown_iff (represents'.tile_word (mem_freeTiles.mp free).1), ← length]
    exact long
  · exact ne_nil_of_mem ((represents'.bins.mem _ i).mpr ⟨free, rfl⟩)

/-- An allocation that was granted and is then freed can be granted again, whatever
happened in between, while the table has a node left. -/
theorem freed_space_reusable (size init limit : Nat) (bytes : size ≤ maxBinSize) (some_node : 1 ≤ init)
    (init_word : init < 2 ^ 32) (limit_word : limit < 2 ^ 32) (before after : List Request) (n : Nat)
    (sizes : ∀ m, Request.allocate m ∈ before ++ .allocate n :: after → m < 2 ^ 32) (s t : Session)
    (run : Run.run Session.step (Session.start size init limit) before = some s)
    (real : (s.core.allocate n).2.isNoSpace = false) (kept : Request.free (s.core.allocate n).2 ∉ after)
    (later : Run.run Session.step s (.allocate n :: after) = some t)
    (room : (t.core.free (s.core.allocate n).2).freeOffset ≠ (t.core.free (s.core.allocate n).2).maxCapacity) :
    ((t.core.free (s.core.allocate n).2).allocate n).2.isNoSpace = false := by
  have word : n < 2 ^ 32 := sizes n (by simp)
  have sound : s.Sound size := run_sound bytes some_node init_word limit_word
    (fun m member => sizes m (mem_append_left _ member)) run
  have first := allocate_keeps sound word real
  have stepped : s.step (.allocate n) = some ⟨(s.core.allocate n).1, (s.core.allocate n).2 :: s.live⟩ := by
    simp only [Session.step, real, Bool.false_eq_true, if_false]
  obtain ⟨s', taken, rest⟩ := Run.run_cons later
  cases stepped.symm.trans taken
  have guarded : Run.Guarded Session.step
      (fun _ r => r ≠ .free (s.core.allocate n).2 ∧ ∀ m, r = .allocate m → m < 2 ^ 32)
      ⟨(s.core.allocate n).1, (s.core.allocate n).2 :: s.live⟩ after := by
    apply Run.guarded_of_forall
    intro r member
    refine ⟨fun freed => kept (freed ▸ member), ?_⟩
    rintro m rfl
    exact sizes m (by simp [member])
  apply free_fits _ word room
  refine Run.guarded_invariant ?_ first rest guarded
  rintro u r u' ⟨tiles, bins, represents, owned, held⟩ ⟨other, word⟩ next
  obtain ⟨-, tiles', bins', represents', owned', stays⟩ := step_represents represents owned word next
  exact ⟨tiles', bins', represents', owned', stays _ _ _ other held⟩

theorem freed_space_reusable_between_blocks :
    ∃ t, Run.run Session.step (Session.start 2048 16 1000) [.allocate 1023, .allocate 16] = some t ∧
      ((t.core.free ⟨0, 0⟩).allocate 1023).2.isNoSpace = false := by
  have granted : ((Session.start 2048 16 1000).core.allocate 1023).2 = ⟨0, 0⟩ := by decide +kernel
  have outcome : (Run.run Session.step (Session.start 2048 16 1000) [.allocate 1023, .allocate 16]).map
      (fun t => ((t.core.free ⟨0, 0⟩).freeOffset, (t.core.free ⟨0, 0⟩).maxCapacity)) = some (3, 1000) := by
    decide +kernel
  obtain ⟨t, run, offsets⟩ := Option.map_eq_some_iff.mp outcome
  simp only [Prod.mk.injEq] at offsets
  have sizes : ∀ m, Request.allocate m ∈ [] ++ .allocate 1023 :: [.allocate 16] → m < 2 ^ 32 := by
    intro m member
    simp only [nil_append, mem_cons, Request.allocate.injEq, not_mem_nil, or_false] at member
    omega
  have reused := freed_space_reusable 2048 16 1000 (by decide) (by decide) (by decide) (by decide) [] [.allocate 16] 1023
    sizes _ t rfl (by rw [granted]; decide) (by simp) run (by rw [granted, offsets.1, offsets.2]; decide)
  rw [granted] at reused
  exact ⟨t, run, reused⟩

end Mooncake.Offset
