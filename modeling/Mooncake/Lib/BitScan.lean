import Mathlib.Data.List.Basic

/-! Bit masks of fixed width as finite sets of positions: setting, clearing and
scanning. Every operation is described by the bits of its result. -/
namespace BitScan

def lowest (v : BitVec w) : Nat := (List.range w).findIdx (fun i => v.getLsbD i)

variable {v : BitVec w} {i start : Nat}

theorem exists_set_of_ne_zero (nonzero : v ≠ 0#w) : ∃ i, i < w ∧ v.getLsbD i = true := by
  by_contra none
  apply nonzero
  apply BitVec.eq_of_getLsbD_eq
  intro i hi
  have clear : ¬ v.getLsbD i = true := fun h => none ⟨i, hi, h⟩
  simpa using clear

theorem ne_zero_of_set (set : v.getLsbD i = true) : v ≠ 0#w := by
  intro zero
  rw [zero] at set
  simp at set

theorem lowest_spec (nonzero : v ≠ 0#w) : lowest v < w ∧ v.getLsbD (lowest v) = true := by
  obtain ⟨i, hi, set⟩ := exists_set_of_ne_zero nonzero
  unfold lowest
  have found : (List.range w).findIdx (fun i => v.getLsbD i) < (List.range w).length := by
    apply List.findIdx_lt_length_of_exists
    exact ⟨i, List.mem_range.mpr hi, set⟩
  have bit := List.findIdx_getElem (w := found)
  rw [List.getElem_range found] at bit
  exact ⟨by simpa using found, bit⟩

theorem highest_spec (nonzero : v ≠ 0#w) :
    v.getLsbD (Nat.log2 v.toNat) = true ∧ ∀ i, v.getLsbD i = true → i ≤ Nat.log2 v.toNat := by
  have value : v.toNat ≠ 0 := fun zero => nonzero (BitVec.eq_of_toNat_eq zero)
  refine ⟨Nat.testBit_log2 value, ?_⟩
  intro i bit
  exact (Nat.le_log2 value).mpr (Nat.ge_two_pow_of_testBit bit)

theorem getLsbD_below (fits : start < w) (i : Nat) :
    ((1#w <<< start) - 1#w).getLsbD i = decide (i < start) := by
  have pow : 2 ^ start < 2 ^ w := Nat.pow_lt_pow_right (by omega) fits
  have one : 1 % 2 ^ w = 1 := Nat.mod_eq_of_lt (Nat.lt_of_le_of_lt Nat.one_le_two_pow pow)
  have value : ((1#w <<< start) - 1#w).toNat = 2 ^ start - 1 := by
    have pos := Nat.two_pow_pos start
    rw [BitVec.toNat_sub, BitVec.toNat_shiftLeft, BitVec.toNat_ofNat, one, Nat.shiftLeft_eq, Nat.one_mul,
      Nat.mod_eq_of_lt pow]
    have shape : 2 ^ w - 1 + 2 ^ start = 2 ^ w + (2 ^ start - 1) := by omega
    rw [shape, Nat.add_mod_left, Nat.mod_eq_of_lt (by omega)]
  rw [BitVec.getLsbD, value, Nat.testBit_two_pow_sub_one]

def after (v : BitVec w) (start : Nat) : BitVec w := v &&& ~~~((1#w <<< start) - 1#w)

theorem getLsbD_after (fits : start < w) (v : BitVec w) (i : Nat) :
    (after v start).getLsbD i = (v.getLsbD i && decide (start ≤ i)) := by
  unfold after
  rw [BitVec.getLsbD_and, BitVec.getLsbD_not, getLsbD_below fits]
  by_cases hi : i < w
  · by_cases hs : i < start
    · have : ¬ start ≤ i := by omega
      simp [hi, hs, this]
    · have : start ≤ i := by omega
      simp [hi, hs, this]
  · have out : v.getLsbD i = false := BitVec.getLsbD_of_ge v i (by omega)
    simp [out]

def set (v : BitVec w) (i : Nat) : BitVec w := v ||| (1#w <<< i)
def clear (v : BitVec w) (i : Nat) : BitVec w := v &&& ~~~(1#w <<< i)

theorem getLsbD_one_shiftLeft (i j : Nat) : (1#w <<< i).getLsbD j = (decide (j < w) && decide (i = j)) := by
  rw [BitVec.getLsbD_shiftLeft, BitVec.getLsbD_one]
  by_cases hj : j < w
  · by_cases eq : i = j
    · subst eq
      have : 0 < w := by omega
      simp [hj, this]
    · by_cases lt : j < i
      · simp [lt, eq]
      · have : ¬ (j - i) = 0 := by omega
        simp [hj, lt, eq, this]
  · simp [hj]

theorem getLsbD_set (v : BitVec w) (fits : i < w) (j : Nat) :
    (set v i).getLsbD j = (v.getLsbD j || decide (i = j)) := by
  unfold set
  rw [BitVec.getLsbD_or, getLsbD_one_shiftLeft]
  by_cases eq : i = j
  · subst eq; simp [fits]
  · simp [eq]

theorem getLsbD_clear (v : BitVec w) (i j : Nat) :
    (clear v i).getLsbD j = (v.getLsbD j && !decide (i = j)) := by
  unfold clear
  rw [BitVec.getLsbD_and, BitVec.getLsbD_not, getLsbD_one_shiftLeft]
  by_cases hj : j < w
  · by_cases eq : i = j <;> simp [hj, eq]
  · have out : v.getLsbD j = false := BitVec.getLsbD_of_ge v j (by omega)
    simp [out]

theorem set_ne_zero (v : BitVec w) (fits : i < w) : set v i ≠ 0#w := by
  apply ne_zero_of_set (i := i)
  rw [getLsbD_set v fits]
  simp

end BitScan
