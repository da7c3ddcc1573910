import Mathlib.Data.Nat.Log
import Mathlib.Tactic.Linarith
import Mathlib.Tactic.Ring

/-! Bin sizes follow a small float: three mantissa bits with a hidden high bit.
Words are natural numbers below 2^32; the two roundings are compared with the
decoder only through the exponent and the quotient of the encoded size. -/
namespace Mooncake.SmallFloat

def mantissaBits : Nat := 3
def mantissaValue : Nat := 1 <<< mantissaBits
def mantissaMask : Nat := mantissaValue - 1
/-- 3.75GB, the size of the last bin that a 32-bit word can hold. -/
def maxBinSize : Nat := 4026531840

def lzcntNonzero (v : Nat) : Nat := 31 - Nat.log2 v

def uintToFloatRoundUp (size : Nat) : Nat :=
  if size < mantissaValue then (0 <<< mantissaBits) + size
  else
    let leadingZeros := lzcntNonzero size
    let highestSetBit := 31 - leadingZeros
    let mantissaStartBit := highestSetBit - mantissaBits
    let exp := mantissaStartBit + 1
    let mantissa := (size >>> mantissaStartBit) &&& mantissaMask
    let lowBitsMask := (1 <<< mantissaStartBit) - 1
    let mantissa := if size &&& lowBitsMask ≠ 0 then mantissa + 1 else mantissa
    (exp <<< mantissaBits) + mantissa

def uintToFloatRoundDown (size : Nat) : Nat :=
  if size < mantissaValue then (0 <<< mantissaBits) ||| size
  else
    let leadingZeros := lzcntNonzero size
    let highestSetBit := 31 - leadingZeros
    let mantissaStartBit := highestSetBit - mantissaBits
    let exp := mantissaStartBit + 1
    let mantissa := (size >>> mantissaStartBit) &&& mantissaMask
    (exp <<< mantissaBits) ||| mantissa

def floatToUint (floatValue : Nat) : Nat :=
  let exponent := floatValue >>> mantissaBits
  let mantissa := floatValue &&& mantissaMask
  if exponent = 0 then mantissa
  else (mantissa ||| mantissaValue) <<< (exponent - 1)

def startBit (size : Nat) : Nat := Nat.log2 size - 3

variable {size : Nat}

theorem startBit_quotient (large : 8 ≤ size) : 8 ≤ size / 2 ^ startBit size ∧ size / 2 ^ startBit size < 16 := by
  have nonzero : size ≠ 0 := by omega
  have low : 3 ≤ Nat.log2 size := (Nat.le_log2 nonzero).mpr large
  have split : Nat.log2 size = startBit size + 3 := by unfold startBit; omega
  have lower := Nat.log2_self_le nonzero
  have upper := (Nat.log2_lt nonzero).mp (Nat.lt_succ_self (Nat.log2 size))
  rw [split] at lower upper
  have pos : 0 < 2 ^ startBit size := Nat.two_pow_pos _
  constructor
  · rw [Nat.le_div_iff_mul_le pos]
    calc 8 * 2 ^ startBit size = 2 ^ (startBit size + 3) := by ring
      _ ≤ size := lower
  · rw [Nat.div_lt_iff_lt_mul pos]
    calc size < 2 ^ (startBit size + 3).succ := upper
      _ = 16 * 2 ^ startBit size := by rw [Nat.succ_eq_add_one]; ring

theorem highestSetBit_eq (large : 8 ≤ size) (small : size < 2 ^ 32) :
    31 - lzcntNonzero size - mantissaBits = startBit size := by
  have nonzero : size ≠ 0 := by omega
  have h := (Nat.log2_lt nonzero).mpr small
  unfold lzcntNonzero startBit mantissaBits
  omega

theorem mantissa_eq (size start : Nat) : (size >>> start) &&& mantissaMask = size / 2 ^ start % 8 := by
  rw [Nat.shiftRight_eq_div_pow]
  exact Nat.and_two_pow_sub_one_eq_mod _ 3

theorem roundDown_small (small : size < 8) : uintToFloatRoundDown size = size := by
  have h : size < mantissaValue := small
  simp [uintToFloatRoundDown, h]

theorem roundUp_small (small : size < 8) : uintToFloatRoundUp size = size := by
  have h : size < mantissaValue := small
  simp [uintToFloatRoundUp, h]

theorem roundDown_large (large : 8 ≤ size) (small : size < 2 ^ 32) :
    uintToFloatRoundDown size = 8 * startBit size + size / 2 ^ startBit size := by
  have h : ¬ size < mantissaValue := Nat.not_lt.mpr large
  have q := startBit_quotient large
  have rem : size / 2 ^ startBit size % 8 < 2 ^ mantissaBits := Nat.mod_lt _ (by decide)
  simp only [uintToFloatRoundDown, if_neg h, highestSetBit_eq large small, mantissa_eq]
  rw [← Nat.shiftLeft_add_eq_or_of_lt rem, Nat.shiftLeft_eq]
  unfold mantissaBits
  omega

theorem roundUp_large (large : 8 ≤ size) (small : size < 2 ^ 32) :
    uintToFloatRoundUp size = 8 * startBit size + size / 2 ^ startBit size +
      (if size % 2 ^ startBit size = 0 then 0 else 1) := by
  have h : ¬ size < mantissaValue := Nat.not_lt.mpr large
  have q := startBit_quotient large
  have mask : size &&& (1 <<< startBit size) - 1 = size % 2 ^ startBit size := by
    rw [Nat.one_shiftLeft]
    exact Nat.and_two_pow_sub_one_eq_mod _ _
  simp only [uintToFloatRoundUp, if_neg h, highestSetBit_eq large small, mantissa_eq, mask]
  rw [Nat.shiftLeft_eq]
  unfold mantissaBits
  by_cases low : size % 2 ^ startBit size = 0
  · simp only [low, ne_eq, not_true_eq_false, if_false, if_true]
    omega
  · simp only [low, ne_eq, not_false_eq_true, if_true, if_false]
    omega

theorem floatToUint_normal (start q : Nat) (low : 8 ≤ q) (high : q < 16) :
    floatToUint (8 * start + q) = q * 2 ^ start := by
  have shift : (8 * start + q) >>> mantissaBits = start + 1 := by
    rw [Nat.shiftRight_eq_div_pow]
    unfold mantissaBits
    omega
  have mask : (8 * start + q) &&& mantissaMask = q - 8 := by
    have h : (8 * start + q) &&& mantissaMask = (8 * start + q) % 8 :=
      Nat.and_two_pow_sub_one_eq_mod _ 3
    omega
  have hidden : (q - 8) ||| mantissaValue = q := by
    have all : ∀ m < 8, m ||| mantissaValue = m + 8 := by decide
    rw [all (q - 8) (by omega)]
    omega
  simp only [floatToUint, shift, mask, hidden, Nat.add_one_ne_zero, if_false,
    Nat.add_sub_cancel, Nat.shiftLeft_eq]

theorem floatToUint_small {bin : Nat} (small : bin < 8) : floatToUint bin = bin := by
  have all : ∀ b < 8, floatToUint b = b := by decide
  exact all bin small

theorem floatToUint_succ (start q : Nat) (low : 8 ≤ q) (high : q < 16) :
    floatToUint (8 * start + q + 1) = (q + 1) * 2 ^ start := by
  by_cases carry : q = 15
  · have shape : 8 * start + q + 1 = 8 * (start + 1) + 8 := by omega
    rw [shape, floatToUint_normal _ _ (by omega) (by omega), carry, Nat.pow_succ]
    omega
  · rw [Nat.add_assoc, floatToUint_normal _ _ (by omega) (by omega)]

theorem floatToUint_lt_succ (bin : Nat) : floatToUint bin < floatToUint (bin + 1) := by
  have all : ∀ b < 8, floatToUint b < floatToUint (b + 1) := by decide
  by_cases tiny : bin < 8
  · exact all bin tiny
  · obtain ⟨start, q, low, high, rfl⟩ : ∃ start q, 8 ≤ q ∧ q < 16 ∧ bin = 8 * start + q :=
      ⟨bin / 8 - 1, bin % 8 + 8, by omega, by omega, by omega⟩
    rw [floatToUint_normal start q low high, floatToUint_succ start q low high]
    exact Nat.mul_lt_mul_of_pos_right (Nat.lt_succ_self q) (Nat.two_pow_pos start)

theorem floatToUint_strictMono : StrictMono floatToUint := strictMono_nat_of_lt_succ floatToUint_lt_succ

section Roundings
variable {size : Nat} (small : size < 2 ^ 32)
include small

/-- Rounding down picks the last bin whose size is not above the given one. -/
theorem roundDown_spec : floatToUint (uintToFloatRoundDown size) ≤ size ∧
    size < floatToUint (uintToFloatRoundDown size + 1) := by
  by_cases tiny : size < 8
  · have all : ∀ b < 8, b < floatToUint (b + 1) := by decide
    rw [roundDown_small tiny, floatToUint_small tiny]
    exact ⟨Nat.le_refl size, all size tiny⟩
  · have large : 8 ≤ size := by omega
    have q := startBit_quotient large
    rw [roundDown_large large small, floatToUint_normal _ _ q.1 q.2, floatToUint_succ _ _ q.1 q.2]
    exact ⟨Nat.div_mul_le_self _ _, Nat.lt_mul_of_div_lt (Nat.lt_succ_self _) (Nat.two_pow_pos _)⟩

/-- Rounding up differs from rounding down where the size is not that of a bin. -/
theorem roundUp_eq : uintToFloatRoundUp size =
    uintToFloatRoundDown size + if floatToUint (uintToFloatRoundDown size) = size then 0 else 1 := by
  by_cases tiny : size < 8
  · rw [roundUp_small tiny, roundDown_small tiny, floatToUint_small tiny, if_pos rfl, Nat.add_zero]
  · have large : 8 ≤ size := by omega
    have q := startBit_quotient large
    have whole : size / 2 ^ startBit size * 2 ^ startBit size = size ↔ size % 2 ^ startBit size = 0 := by
      have division := Nat.div_add_mod' size (2 ^ startBit size)
      omega
    rw [roundUp_large large small, roundDown_large large small, floatToUint_normal _ _ q.1 q.2]
    simp only [whole]

theorem le_roundDown_iff {bin : Nat} : bin ≤ uintToFloatRoundDown size ↔ floatToUint bin ≤ size := by
  obtain ⟨below, above⟩ := roundDown_spec small
  constructor
  · exact fun le => Nat.le_trans (floatToUint_strictMono.monotone le) below
  · intro le
    exact Nat.lt_succ_iff.mp (floatToUint_strictMono.lt_iff_lt.mp (Nat.lt_of_le_of_lt le above))

theorem roundUp_le_iff {bin : Nat} : uintToFloatRoundUp size ≤ bin ↔ size ≤ floatToUint bin := by
  obtain ⟨below, above⟩ := roundDown_spec small
  rw [roundUp_eq small]
  by_cases exact_size : floatToUint (uintToFloatRoundDown size) = size
  · rw [if_pos exact_size, Nat.add_zero, ← floatToUint_strictMono.le_iff_le, exact_size]
  · rw [if_neg exact_size, ← floatToUint_strictMono.le_iff_le]
    constructor
    · exact fun le => Nat.le_trans (Nat.le_of_lt above) le
    · intro le
      apply floatToUint_strictMono.monotone
      exact floatToUint_strictMono.lt_iff_lt.mp (Nat.lt_of_lt_of_le (Nat.lt_of_le_of_ne below exact_size) le)

theorem roundUp_le : uintToFloatRoundUp size ≤ 240 := by
  rw [roundUp_le_iff small]
  have last : floatToUint 240 = 2 ^ 32 := by decide
  omega

theorem roundDown_le : uintToFloatRoundDown size ≤ 239 := by
  have last : floatToUint 240 = 2 ^ 32 := by decide
  have below := (roundDown_spec small).1
  have lt : uintToFloatRoundDown size < 240 := floatToUint_strictMono.lt_iff_lt.mp (by omega)
  omega

end Roundings

end Mooncake.SmallFloat
