import Mathlib.Algebra.BigOperators.Group.Finset.Basic
import Mooncake.Lib.Linked
import Mooncake.OffsetAllocator.Core

/-! The two-level bin index. The two masks and the bin lists are described for an
arbitrary finite set of free nodes, because inside `free` and `allocate` that set
is for a moment not the set of free nodes of the tiling. -/
namespace Mooncake.Offset
open SmallFloat Function Finset List BitScan

structure Masks (top : BitVec 32) (leaves : Nat → BitVec 8) (occupied : Nat → Prop) : Prop where
  leaf : ∀ t l, l < 8 → ((leaves t).getLsbD l = true ↔ occupied (8 * t + l))
  top : ∀ t, t < 32 → (top.getLsbD t = true ↔ leaves t ≠ 0#8)

variable {occupied occupied' : Nat → Prop}

theorem Masks.congr {top : BitVec 32} {leaves : Nat → BitVec 8} (h : Masks top leaves occupied)
    (same : ∀ c, occupied' c ↔ occupied c) : Masks top leaves occupied' :=
  ⟨fun t l hl => (h.leaf t l hl).trans (same _).symm, h.top⟩

theorem shiftRight_top (bin : Nat) : bin >>> topBinsIndexShift = bin / 8 :=
  Nat.shiftRight_eq_div_pow bin 3

theorem and_leaf (bin : Nat) : bin &&& leafBinsIndexMask = bin % 8 :=
  Nat.and_two_pow_sub_one_eq_mod bin 3

theorem shiftLeft_or_leaf {leaf : Nat} (small : leaf < 8) (top : Nat) :
    (top <<< topBinsIndexShift) ||| leaf = 8 * top + leaf := by
  rw [← Nat.shiftLeft_add_eq_or_of_lt (by exact small), Nat.shiftLeft_eq]
  unfold topBinsIndexShift
  omega

/-- The shifts that encode `size` and decode `bin` stay inside their words. `1` is an `int`. -/
structure ShiftsFit (size bin : Nat) : Prop where
  mask : 1 <<< (31 - lzcntNonzero size - mantissaBits) < 2 ^ 31
  encoded : (31 - lzcntNonzero size - mantissaBits + 1) <<< mantissaBits < 2 ^ 32
  amount : (bin >>> mantissaBits) - 1 < 32
  decoded : ((bin &&& mantissaMask) ||| mantissaValue) <<< ((bin >>> mantissaBits) - 1) < 2 ^ 32

theorem shifts_fit (size : Nat) {bin : Nat} (top : bin ≤ 239) : ShiftsFit size bin := by
  have start : 31 - lzcntNonzero size - mantissaBits < 29 := by
    unfold mantissaBits
    omega
  have exponent : bin >>> mantissaBits = bin / 8 := shiftRight_top bin
  have value : floatToUint bin < 2 ^ 32 :=
    Nat.lt_of_le_of_lt (floatToUint_strictMono.monotone top) (show floatToUint 239 < 2 ^ 32 by decide)
  constructor
  case mask =>
    rw [Nat.one_shiftLeft]
    exact Nat.pow_lt_pow_right (by decide) (by omega)
  case encoded =>
    rw [Nat.shiftLeft_eq]
    unfold mantissaBits at start ⊢
    omega
  case amount => omega
  case decoded =>
    by_cases denormal : bin >>> mantissaBits = 0
    · rw [denormal]
      exact Nat.or_lt_two_pow (Nat.and_lt_two_pow _ (by decide)) (by decide)
    · simpa only [floatToUint, if_neg denormal] using value

/-- The two roundings are the adjoints of the decoder, within the words of the source. -/
theorem small_float_galois {s t bin : Nat} (size : s ≤ maxBinSize) (other : t ≤ maxBinSize) (top : bin ≤ 239) :
    (floatToUint (uintToFloatRoundDown s) ≤ s ∧ s ≤ floatToUint (uintToFloatRoundUp s)) ∧
    (uintToFloatRoundDown s ≤ 239 ∧ uintToFloatRoundUp s ≤ 239 ∧ ShiftsFit s bin) ∧
    (s ≤ t → uintToFloatRoundDown s ≤ uintToFloatRoundDown t ∧ uintToFloatRoundUp s ≤ uintToFloatRoundUp t) ∧
    (uintToFloatRoundUp s ≤ bin ↔ s ≤ floatToUint bin) ∧
    (bin ≤ uintToFloatRoundDown s ↔ floatToUint bin ≤ s) ∧
    (uintToFloatRoundDown (floatToUint bin) = bin ∧ uintToFloatRoundUp (floatToUint bin) = bin) ∧
    (uintToFloatRoundUp s >>> topBinsIndexShift) + 1 ≤ 31 := by
  have word : ∀ {n}, n ≤ maxBinSize → n < 2 ^ 32 := fun le => by unfold maxBinSize at le; omega
  have last : floatToUint 239 = maxBinSize := by decide
  have up : uintToFloatRoundUp s ≤ 239 := (roundUp_le_iff (word size)).mpr (last ▸ size)
  have binSize : floatToUint bin ≤ maxBinSize := last ▸ floatToUint_strictMono.monotone top
  have above := (roundUp_le_iff (word size)).mp (Nat.le_refl _)
  refine ⟨⟨(roundDown_spec (word size)).1, above⟩, ⟨roundDown_le (word size), up, shifts_fit s top⟩, fun le => ⟨?_, ?_⟩,
    roundUp_le_iff (word size), le_roundDown_iff (word size), ⟨?_, ?_⟩, ?_⟩
  · rw [le_roundDown_iff (word other)]
    exact Nat.le_trans (roundDown_spec (word size)).1 le
  · rw [roundUp_le_iff (word size)]
    exact Nat.le_trans le ((roundUp_le_iff (word other)).mp (Nat.le_refl _))
  · apply Nat.le_antisymm
    · exact floatToUint_strictMono.le_iff_le.mp (roundDown_spec (word binSize)).1
    · exact (le_roundDown_iff (word binSize)).mpr (Nat.le_refl _)
  · apply Nat.le_antisymm
    · exact (roundUp_le_iff (word binSize)).mpr (Nat.le_refl _)
    · exact floatToUint_strictMono.le_iff_le.mp ((roundUp_le_iff (word binSize)).mp (Nat.le_refl _))
  · rw [shiftRight_top]
    omega

theorem small_float_galois_thousand : uintToFloatRoundUp 1000 ≤ 64 ↔ 1000 ≤ floatToUint 64 :=
  (small_float_galois (t := 1000) (by decide) (by decide) (by decide)).2.2.2.1

variable {leaves : Nat → BitVec 8} {top : BitVec 32} {v : BitVec w}

theorem Masks.mark {b : Nat} (h : Masks top leaves occupied) (small : b / 8 < 32)
    (grown : ∀ c, occupied' c ↔ c = b ∨ occupied c) :
    Masks (set top (b / 8))
      (update leaves (b / 8) (set (leaves (b / 8)) (b % 8))) occupied' := by
  have leafSmall : b % 8 < 8 := Nat.mod_lt _ (by omega)
  constructor
  · intro t l hl
    rw [grown]
    by_cases ht : t = b / 8
    · subst ht
      rw [update_self, getLsbD_set _ leafSmall, Bool.or_eq_true, h.leaf _ l hl]
      have eq : b % 8 = l ↔ 8 * (b / 8) + l = b := by omega
      simp [eq, or_comm]
    · rw [update_of_ne ht, h.leaf t l hl]
      have ne : ¬ 8 * t + l = b := by omega
      simp [ne]
  · intro t ht
    rw [getLsbD_set _ small, Bool.or_eq_true, h.top t ht]
    by_cases eq : t = b / 8
    · subst eq
      rw [update_self]
      simp [set_ne_zero _ leafSmall]
    · rw [update_of_ne eq]
      simp [Ne.symm eq]

theorem Masks.unmark {b : Nat} (h : Masks top leaves occupied)
    (shrunk : ∀ c, occupied' c ↔ c ≠ b ∧ occupied c) :
    Masks (if clear (leaves (b / 8)) (b % 8) = 0#8 then clear top (b / 8) else top)
      (update leaves (b / 8) (clear (leaves (b / 8)) (b % 8))) occupied' := by
  constructor
  · intro t l hl
    rw [shrunk]
    by_cases ht : t = b / 8
    · subst ht
      rw [update_self, getLsbD_clear, Bool.and_eq_true, h.leaf _ l hl]
      have eq : b % 8 = l ↔ 8 * (b / 8) + l = b := by omega
      simp [eq, and_comm]
    · rw [update_of_ne ht, h.leaf t l hl]
      have ne : ¬ 8 * t + l = b := by omega
      simp [ne]
  · intro t ht
    by_cases eq : t = b / 8
    · subst eq
      rw [update_self]
      split
      · rename_i zero
        simp [getLsbD_clear, zero]
      · rename_i nonzero
        have old : leaves (b / 8) ≠ 0#8 := by
          intro zero
          rw [zero] at nonzero
          exact nonzero (by simp [clear])
        simp [(h.top _ ht).mpr old, nonzero]
    · rw [update_of_ne eq]
      split
      · rw [getLsbD_clear, Bool.and_eq_true, h.top t ht]
        simp [Ne.symm eq]
      · exact h.top t ht

theorem findLowestSetBitAfter_some {start i : Nat} (fits : start < w)
    (found : findLowestSetBitAfter v start = some i) : start ≤ i ∧ i < w ∧ v.getLsbD i = true := by
  simp only [findLowestSetBitAfter] at found
  split at found
  · contradiction
  · rename_i nonzero
    cases found
    have spec := lowest_spec nonzero
    have bit := spec.2
    rw [getLsbD_after fits, Bool.and_eq_true, decide_eq_true_eq] at bit
    exact ⟨bit.2, spec.1, bit.1⟩

theorem findLowestSetBitAfter_none {start i : Nat} (fits : start < w) (missing : findLowestSetBitAfter v start = none)
    (later : start ≤ i) : v.getLsbD i ≠ true := by
  intro bit
  simp only [findLowestSetBitAfter] at missing
  split at missing
  · rename_i zero
    apply ne_zero_of_set (i := i) _ zero
    rw [getLsbD_after fits, bit, decide_eq_true later, Bool.and_self]
  · contradiction

section FindBin
variable {a : Allocator} {occupied : Nat → Prop} {minBin b : Nat}

theorem Masks.top_set {top : BitVec 32} {leaves : Nat → BitVec 8} (h : Masks top leaves occupied) (word : b < 256)
    (used : occupied b) : (leaves (b / 8)).getLsbD (b % 8) = true ∧ top.getLsbD (b / 8) = true := by
  have leaf : (leaves (b / 8)).getLsbD (b % 8) = true := by
    rw [h.leaf _ _ (Nat.mod_lt b (by omega)), Nat.div_add_mod]
    exact used
  exact ⟨leaf, (h.top _ (by omega)).mpr (ne_zero_of_set leaf)⟩

section
variable (h : Masks a.usedBinsTop a.usedBins occupied)
include h

theorem findBin_some (small : minBin < 248)
    (found : a.findBin minBin = some b) : minBin ≤ b ∧ b < 256 ∧ occupied b := by
  have leafSmall : minBin % 8 < 8 := Nat.mod_lt _ (by omega)
  simp only [Allocator.findBin, shiftRight_top, and_leaf] at found
  split at found
  · rename_i leaf hleaf
    cases found
    split at hleaf
    · obtain ⟨low, high, bit⟩ := findLowestSetBitAfter_some leafSmall hleaf
      rw [shiftLeft_or_leaf high]
      exact ⟨by omega, by omega, (h.leaf _ _ high).mp bit⟩
    · contradiction
  · split at found
    · contradiction
    · rename_i top htop
      cases found
      obtain ⟨low, high, bit⟩ := findLowestSetBitAfter_some (by omega) htop
      have spec := lowest_spec ((h.top top high).mp bit)
      have leafHigh : tzcntNonzero (a.usedBins top) < 8 := spec.1
      rw [shiftLeft_or_leaf leafHigh]
      exact ⟨by omega, by omega, (h.leaf _ _ leafHigh).mp spec.2⟩

/-- The search misses no bin: first the leaves under the minimal top bin, then the
top bins behind it. -/
theorem findBin_none (small : minBin < 248)
    (missing : a.findBin minBin = none) (word : b < 256) (fits : minBin ≤ b) : ¬ occupied b := by
  intro used
  obtain ⟨leaf, top⟩ := h.top_set word used
  simp only [Allocator.findBin, shiftRight_top, and_leaf] at missing
  split at missing
  · contradiction
  · rename_i here
    split at missing
    · rename_i behind
      by_cases same : b / 8 = minBin / 8
      · rw [← same, if_pos top] at here
        exact findLowestSetBitAfter_none (by omega) here (by omega) leaf
      · exact findLowestSetBitAfter_none (by omega) behind (by omega) top
    · contradiction

/-- The two logarithms of the report lead to the last occupied bin. -/
theorem lastBin_spec (some_bin : a.usedBinsTop ≠ 0#32) :
    ∃ last, (31 - lzcntNonzero a.usedBinsTop.toNat) <<< topBinsIndexShift |||
        (31 - lzcntNonzero (a.usedBins (31 - lzcntNonzero a.usedBinsTop.toNat)).toNat) = last ∧
      occupied last ∧ ∀ b < 256, occupied b → b ≤ last := by
  have position : ∀ n < 32, 31 - (31 - n) = n := by omega
  obtain ⟨topBit, topLast⟩ := highest_spec some_bin
  have topHigh := BitVec.lt_of_getLsbD topBit
  obtain ⟨leafBit, leafLast⟩ := highest_spec ((h.top _ topHigh).mp topBit)
  have leafHigh := BitVec.lt_of_getLsbD leafBit
  simp only [lzcntNonzero, position _ topHigh, position _ (Nat.lt_trans leafHigh (by decide : 8 < 32)),
    shiftLeft_or_leaf leafHigh]
  refine ⟨_, rfl, (h.leaf _ _ leafHigh).mp leafBit, ?_⟩
  intro b word used
  obtain ⟨leaf, top⟩ := h.top_set word used
  have before := topLast _ top
  by_cases same : b / 8 = Nat.log2 a.usedBinsTop.toNat
  · rw [same] at leaf
    have le := leafLast _ leaf
    omega
  · omega

end

end FindBin

structure Bins (a : Allocator) (bins : Nat → List Nat) (free : Finset Nat) : Prop where
  linked : ∀ b, Linked.Chain (fun i => (a.nodes i).binListNext) (fun i => (a.nodes i).binListPrev)
    unused (bins b) unused
  head : ∀ b, a.binIndices b = (bins b).headD unused
  nodup : ∀ b, (bins b).Nodup
  mem : ∀ b i, i ∈ bins b ↔ i ∈ free ∧ uintToFloatRoundDown (a.nodes i).dataSize = b
  real : ∀ i ∈ free, i ≠ unused
  small : ∀ i ∈ free, (a.nodes i).dataSize ≤ maxBinSize
  masks : Masks a.usedBinsTop a.usedBins (fun b => bins b ≠ [])
  storage : a.freeStorage = ∑ i ∈ free, (a.nodes i).dataSize
  word : a.freeStorage < 2 ^ 32

variable {bins : Nat → List Nat} {free : Finset Nat} {l : List Nat}

section
variable (real : ∀ i ∈ l, i ≠ unused)
include real

theorem headD_eq_unused : l.headD unused = unused ↔ l = [] := by
  cases l with
  | nil => simp
  | cons x xs => simpa using real x (by simp)

theorem head_pointer (j : Nat) : (l.headD unused ≠ unused ∧ j = l.headD unused) ↔ l.head? = some j := by
  cases l with
  | nil => simp
  | cons x xs =>
    have nonnull := real x (by simp)
    simp [nonnull, eq_comm]

theorem last_pointer (j : Nat) : (l.getLastD unused ≠ unused ∧ j = l.getLastD unused) ↔ l.getLast? = some j := by
  rcases eq_nil_or_concat l with rfl | ⟨front, x, rfl⟩
  · simp
  · have nonnull := real x (by simp)
    simp [nonnull, eq_comm]

end

theorem Bins.real_of_mem {a : Allocator} (h : Bins a bins free) {b i : Nat} (member : i ∈ bins b) :
    i ≠ unused := h.real i ((h.mem b i).mp member).1

theorem Bins.not_mem_other {a : Allocator} (h : Bins a bins free) {b c i : Nat} (member : i ∈ bins c)
    (other : c ≠ b) : i ∉ bins b := by
  intro both
  exact other (((h.mem c i).mp member).2.symm.trans ((h.mem b i).mp both).2)

/-- An edit of the list of one bin: `old` is replaced by `new`, and nothing that the
bins read changes elsewhere but the pointers at the two seams. -/
theorem Bins.edit {a a' : Allocator} {b : Nat} {free' : Finset Nat} (pre old new post : List Nat)
    (h : Bins a bins free) (split : bins b = pre ++ (old ++ post))
    (heads : a'.binIndices = update a.binIndices b ((pre ++ (new ++ post)).headD unused))
    (nodes : ∀ j ∈ free, j ∉ old → a'.nodes j = { a.nodes j with
      binListNext := if pre.getLast? = some j then new.headD (post.headD unused) else (a.nodes j).binListNext
      binListPrev := if post.head? = some j then new.getLastD (pre.getLastD unused) else (a.nodes j).binListPrev })
    (mid : Linked.Chain (fun i => (a'.nodes i).binListNext) (fun i => (a'.nodes i).binListPrev)
      (pre.getLastD unused) new (post.headD unused)) (single : new.Nodup)
    (fresh : ∀ j ∈ new, j ∉ free ∧ j ≠ unused ∧ (a'.nodes j).dataSize ≤ maxBinSize ∧
      uintToFloatRoundDown (a'.nodes j).dataSize = b) (members : ∀ j, j ∈ free' ↔ j ∈ new ∨ j ∈ free ∧ j ∉ old)
    (masks : Masks a'.usedBinsTop a'.usedBins (fun c => update bins b (pre ++ (new ++ post)) c ≠ []))
    (storage : a'.freeStorage = ∑ j ∈ free', (a'.nodes j).dataSize) (word : a'.freeStorage < 2 ^ 32) :
    Bins a' (update bins b (pre ++ (new ++ post))) free' := by
  have nodup := h.nodup b
  rw [split] at nodup
  have perm : (pre ++ (old ++ post)).Perm (old ++ (pre ++ post)) := by
    simpa only [append_assoc] using perm_append_comm.append_right post
  obtain ⟨-, rest, apart⟩ := nodup_append'.mp (perm.nodup_iff.mp nodup)
  have staying : ∀ j, j ∈ pre ++ post ↔ j ∈ bins b ∧ j ∉ old := by
    intro j
    rw [split, perm.mem_iff, mem_append (s := old)]
    exact ⟨fun hj => ⟨Or.inr hj, fun gone => apart gone hj⟩, fun both => both.1.resolve_left both.2⟩
  have elsewhere : ∀ c, c ≠ b → ∀ j ∈ bins c, j ∉ old := by
    intro c other j hj gone
    exact h.not_mem_other hj other (by rw [split]; simp [gone])
  have kept : ∀ c, ∀ j ∈ bins c, j ∉ old → a'.nodes j = _ := fun c j hj => nodes j ((h.mem c j).mp hj).1
  constructor
  case linked =>
    intro c
    have nexts := fun j hj out => congrArg Node.binListNext (kept c j hj out)
    have prevs := fun j hj out => congrArg Node.binListPrev (kept c j hj out)
    by_cases same : c = b
    · subst same
      rw [update_self]
      have chain := h.linked c
      rw [split] at chain
      have disjoint := disjoint_of_nodup_append rest
      have inPre := fun j (hj : j ∈ pre) => (staying j).mp (mem_append_left post hj)
      have inPost := fun j (hj : j ∈ post) => (staying j).mp (mem_append_right pre hj)
      apply Linked.chain_splice pre old new post chain rest.of_append_left rest.of_append_right mid
      · exact fun j hj => nexts j (inPre j hj).1 (inPre j hj).2
      · exact fun j hj => (prevs j (inPre j hj).1 (inPre j hj).2).trans
          (if_neg fun first => disjoint hj (mem_of_mem_head? first))
      · exact fun j hj => (nexts j (inPost j hj).1 (inPost j hj).2).trans
          (if_neg fun last => disjoint (mem_of_getLast? last) hj)
      · exact fun j hj => prevs j (inPost j hj).1 (inPost j hj).2
    · rw [update_of_ne same]
      have outside := fun j hj inside => h.not_mem_other hj same ((staying j).mp inside).1
      apply Linked.chain_congr _ _ (h.linked c)
      · exact fun j hj => (nexts j hj (elsewhere c same j hj)).trans
          (if_neg fun last => outside j hj (mem_append_left post (mem_of_getLast? last)))
      · exact fun j hj => (prevs j hj (elsewhere c same j hj)).trans
          (if_neg fun first => outside j hj (mem_append_right pre (mem_of_mem_head? first)))
  case head =>
    intro c
    rw [heads]
    by_cases same : c = b
    · subst same; simp
    · simp [same, h.head c]
  case nodup =>
    intro c
    by_cases same : c = b
    · have order : (pre ++ (new ++ post)).Perm (new ++ (pre ++ post)) := by
        simpa only [append_assoc] using perm_append_comm.append_right post
      rw [same, update_self, order.nodup_iff]
      exact single.append rest fun j hj inside => (fresh j hj).1 ((h.mem b j).mp ((staying j).mp inside).1).1
    · rw [update_of_ne same]
      exact h.nodup c
  case mem =>
    intro c j
    have listed : j ∈ update bins b (pre ++ (new ++ post)) c ↔ (j ∈ new ∧ c = b) ∨ j ∈ bins c ∧ j ∉ old := by
      by_cases same : c = b
      · rw [same, update_self, ← staying]
        simp [or_left_comm]
      · rw [update_of_ne same]
        simp only [same, and_false, false_or]
        exact ⟨fun hj => ⟨hj, elsewhere c same j hj⟩, And.left⟩
    rw [listed, h.mem, members]
    by_cases added : j ∈ new
    · simp [added, fresh j added, eq_comm]
    · simp only [added, false_and, false_or]
      constructor
      · rintro ⟨⟨hj, rfl⟩, out⟩
        exact ⟨⟨hj, out⟩, by rw [nodes j hj out]⟩
      · rintro ⟨⟨hj, out⟩, rfl⟩
        exact ⟨⟨hj, by rw [nodes j hj out]⟩, out⟩
  case real =>
    intro j hj
    rcases (members j).mp hj with added | ⟨listed, -⟩
    · exact (fresh j added).2.1
    · exact h.real j listed
  case small =>
    intro j hj
    rcases (members j).mp hj with added | ⟨listed, out⟩
    · exact (fresh j added).2.2.1
    · rw [nodes j listed out]
      exact h.small j listed
  case masks => exact masks
  case storage => exact storage
  case word => exact word

/-- Taking one node out of the list of its bin. -/
theorem Bins.unlink {a a' : Allocator} {b i : Nat} {pre post : List Nat} (h : Bins a bins free)
    (split : bins b = pre ++ i :: post)
    (heads : a'.binIndices = update a.binIndices b ((pre ++ post).headD unused))
    (nodes : ∀ j ∈ free, j ≠ i → a'.nodes j = { a.nodes j with
      binListNext := if pre.getLast? = some j then post.headD unused else (a.nodes j).binListNext
      binListPrev := if post.head? = some j then pre.getLastD unused else (a.nodes j).binListPrev })
    (masks : Masks a'.usedBinsTop a'.usedBins (fun c => update bins b (pre ++ post) c ≠ []))
    (storage : a'.freeStorage = sub32 a.freeStorage (a.nodes i).dataSize) :
    Bins a' (update bins b (pre ++ post)) (free.erase i) := by
  have total := add_sum_erase free (fun j => (a.nodes j).dataSize) ((h.mem b i).mp (by rw [split]; simp)).1
  have word := h.word
  rw [h.storage] at word
  have left : a'.freeStorage = ∑ j ∈ free.erase i, (a.nodes j).dataSize := by
    rw [storage, sub32, h.storage]
    omega
  refine h.edit pre [i] [] post split heads (fun j hj out => nodes j hj (by simpa using out)) trivial nodup_nil
    (by simp) (by simp [and_comm]) masks ?_ (by omega)
  refine left.trans (sum_congr rfl fun j hj => ?_)
  rw [nodes j (Finset.mem_of_mem_erase hj) (ne_of_mem_erase hj)]

end Mooncake.Offset
