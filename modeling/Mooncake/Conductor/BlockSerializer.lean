import Mathlib.Data.PNat.Notation
import Mathlib.Logic.Encodable.Basic
import Mathlib.Logic.Equiv.List

/-! The keys of token blocks. A block is pickled together with the hash of the block
before it, so that an entry stands for every token up to the end of its block. -/
namespace Mooncake.Conductor

open List

structure BlockSerializer where
  serialize : List UInt8 → List Int64 → List UInt8
  sha256 : List UInt8 → List UInt8

def noneHash : List UInt8 := replicate 32 0

def BlockSerializer.serializeBlock (s : BlockSerializer) (parentBlockHash : Option (List UInt8))
    (currBlockTokenIds : List Int64) : List UInt8 :=
  s.serialize (parentBlockHash.getD noneHash) currBlockTokenIds

/-- The loop of `serialize_blocks`. No sum wraps around: after the first block it is at most twice the number of
tokens. -/
def BlockSerializer.serializeFrom (s : BlockSerializer) (allTokenIds : List Int64) (blockSize : ℕ+)
    (prevHash : Option (List UInt8)) (start : Nat) : List (List UInt8) :=
  if start + blockSize ≤ allTokenIds.length then
    let serialized := s.serializeBlock prevHash ((allTokenIds.drop start).take blockSize)
    serialized :: s.serializeFrom allTokenIds blockSize (some (s.sha256 serialized)) (start + blockSize)
  else []
termination_by allTokenIds.length - start
decreasing_by
  have positive := blockSize.pos
  omega

def BlockSerializer.serializeBlocks (s : BlockSerializer) (allTokenIds : List Int64) (blockSize : ℕ+) :
    List (List UInt8) :=
  s.serializeFrom allTokenIds blockSize none 0

/-- Both lists have `k` first entries, the same ones. -/
def Agree (k : Nat) (xs ys : List α) : Prop := k ≤ xs.length ∧ k ≤ ys.length ∧ xs.take k = ys.take k

theorem Agree.succ {xs ys : List α} {k : Nat} {x : α} (h : Agree k xs ys) (inX : xs[k]? = some x)
    (inY : ys[k]? = some x) : Agree (k + 1) xs ys :=
  ⟨(List.getElem?_eq_some_iff.mp inX).1, (List.getElem?_eq_some_iff.mp inY).1,
    by rw [take_add_one, take_add_one, inX, inY, h.2.2]⟩

section
variable {s : BlockSerializer} {a b : List Int64} {n : ℕ+} {prev : Option (List UInt8)} {start k : Nat}

theorem serializeFrom_length : (s.serializeFrom a n prev start).length = (a.length - start) / n := by
  fun_induction BlockSerializer.serializeFrom s a n prev start with
  | case1 prev start more serialized ih =>
    rw [length_cons, ih, ← Nat.sub_sub, ← Nat.div_eq_sub_div n.pos (by omega)]
  | case2 prev start last =>
    have positive := n.pos
    rw [length_nil, Nat.div_eq_of_lt (by omega)]

variable {entry : List UInt8}

theorem serializeBlocks_zero (found : (s.serializeBlocks a n)[0]? = some entry) :
    ∃ tokens, entry = s.serialize noneHash tokens := by
  rw [BlockSerializer.serializeBlocks, BlockSerializer.serializeFrom] at found
  split at found
  · cases found
    exact ⟨_, rfl⟩
  · cases found

/-- Every entry but the first has the hash of the one before it as its parent. -/
theorem serializeFrom_succ (found : (s.serializeFrom a n prev start)[k + 1]? = some entry) :
    ∃ before tokens, (s.serializeFrom a n prev start)[k]? = some before ∧
      entry = s.serialize (s.sha256 before) tokens := by
  induction k generalizing prev start with
  | zero =>
    rw [BlockSerializer.serializeFrom] at found ⊢
    split at found
    next more =>
      rw [getElem?_cons_succ, BlockSerializer.serializeFrom] at found
      split at found
      · cases found
        exact ⟨_, _, by rw [if_pos more]; rfl, rfl⟩
      · cases found
    next => cases found
  | succ k ih =>
    rw [BlockSerializer.serializeFrom] at found ⊢
    split at found
    next more =>
      obtain ⟨before, tokens, earlier, same⟩ := ih found
      exact ⟨before, tokens, by rw [if_pos more]; exact earlier, same⟩
    next => cases found

variable (injective : Function.Injective2 s.serialize)
include injective

theorem serializeFrom_take (inA : start + k * n ≤ a.length) (inB : start + k * n ≤ b.length) :
    (s.serializeFrom a n prev start).take k = (s.serializeFrom b n prev start).take k ↔
      (a.drop start).take (k * n) = (b.drop start).take (k * n) := by
  induction k generalizing prev start with
  | zero => simp
  | succ k ih =>
    rw [Nat.succ_mul, Nat.add_comm (k * n), ← Nat.add_assoc] at inA inB
    have sizes : ((a.drop start).take n).length = ((b.drop start).take n).length := by
      simp only [length_take, length_drop]
      omega
    rw [BlockSerializer.serializeFrom, if_pos (by omega), BlockSerializer.serializeFrom, if_pos (by omega),
      take_succ_cons, take_succ_cons, cons.injEq, Nat.succ_mul, Nat.add_comm (k * n), take_add, take_add, drop_drop,
      drop_drop]
    constructor
    · rintro ⟨first, rest⟩
      rw [first, ih inA inB] at rest
      rw [(injective first).2, rest]
    · intro same
      obtain ⟨first, rest⟩ := append_inj same sizes
      rw [first]
      exact ⟨rfl, (ih inA inB).mpr rest⟩

theorem serializeBlocks_agree : Agree k (s.serializeBlocks a n) (s.serializeBlocks b n) ↔ Agree (k * n) a b := by
  unfold Agree BlockSerializer.serializeBlocks
  rw [serializeFrom_length, serializeFrom_length, Nat.le_div_iff_mul_le n.pos, Nat.le_div_iff_mul_le n.pos]
  refine and_congr_right fun inA => and_congr_right fun inB => ?_
  exact serializeFrom_take injective (by omega) (by omega)

variable (apart : ∀ x ∈ s.serializeBlocks a n, ∀ y ∈ s.serializeBlocks b n, s.sha256 x = s.sha256 y → x = y)
include apart

/-- Back to the first block: equal entries have equal parents. -/
theorem serializeBlocks_inj {j : Nat}
    (rootless : ∀ x ∈ s.serializeBlocks a n ++ s.serializeBlocks b n, s.sha256 x ≠ noneHash)
    (inA : (s.serializeBlocks a n)[k]? = some entry) (inB : (s.serializeBlocks b n)[j]? = some entry) :
    k = j ∧ Agree (k + 1) (s.serializeBlocks a n) (s.serializeBlocks b n) := by
  induction k generalizing j entry with
  | zero =>
    obtain ⟨tokens, rfl⟩ := serializeBlocks_zero inA
    cases j with
    | zero => exact ⟨rfl, Agree.succ ⟨Nat.zero_le _, Nat.zero_le _, rfl⟩ inA inB⟩
    | succ j =>
      obtain ⟨before, _, earlier, same⟩ := serializeFrom_succ inB
      exact absurd (injective same).1.symm (rootless before (mem_append_right _ (mem_of_getElem? earlier)))
  | succ k ih =>
    obtain ⟨before, tokens, earlier, rfl⟩ := serializeFrom_succ inA
    cases j with
    | zero =>
      obtain ⟨_, same⟩ := serializeBlocks_zero inB
      exact absurd (injective same).1 (rootless before (mem_append_left _ (mem_of_getElem? earlier)))
    | succ j =>
      obtain ⟨before', _, earlier', same⟩ := serializeFrom_succ inB
      cases apart before (mem_of_getElem? earlier) before' (mem_of_getElem? earlier') (injective same).1
      obtain ⟨rfl, firsts⟩ := ih earlier earlier'
      exact ⟨rfl, firsts.succ inA inB⟩

/-- An entry names the tokens up to the end of its block. -/
theorem block_keys_identify_prefixes :
    (s.serializeBlocks a n).length = a.length / n ∧
    (∀ k, Agree k (s.serializeBlocks a n) (s.serializeBlocks b n) ↔ Agree (k * n) a b) ∧
    ((∀ x ∈ s.serializeBlocks a n ++ s.serializeBlocks b n, s.sha256 x ≠ noneHash) →
      ∀ k j entry, (s.serializeBlocks a n)[k]? = some entry → (s.serializeBlocks b n)[j]? = some entry →
        k = j ∧ Agree ((k + 1) * n) a b) := by
  refine ⟨serializeFrom_length, fun _ => serializeBlocks_agree injective, fun rootless k j entry inA inB => ?_⟩
  obtain ⟨same, firsts⟩ := serializeBlocks_inj injective apart rootless inA inB
  exact ⟨same, (serializeBlocks_agree injective).mp firsts⟩

end

def Sample.serializer : BlockSerializer where
  serialize parent tokens := replicate (Encodable.encode (parent.map UInt8.toNat, tokens.map Int64.toInt)) 0
  sha256 := (1 :: ·)

theorem Sample.serializer_injective : Function.Injective2 Sample.serializer.serialize := by
  intro parent parent' tokens tokens' same
  have codes := congrArg length same
  simp only [serializer, length_replicate] at codes
  obtain ⟨parents, blocks⟩ := Prod.mk.inj (Encodable.encode_injective codes)
  exact ⟨map_injective_iff.mpr (fun _ _ => UInt8.toNat_inj.mp) parents,
    map_injective_iff.mpr (fun _ _ => Int64.toInt_inj.mp) blocks⟩

theorem shared_blocks_have_shared_keys :
    (Sample.serializer.serializeBlocks [1, 2, 3, 4, 5] 2).length = 2 ∧
    Agree 2 (Sample.serializer.serializeBlocks [1, 2, 3, 4, 5] 2)
      (Sample.serializer.serializeBlocks [1, 2, 3, 4, 6] 2) := by
  obtain ⟨count, agree, -⟩ := block_keys_identify_prefixes (a := [1, 2, 3, 4, 5]) (b := [1, 2, 3, 4, 6]) (n := 2)
    Sample.serializer_injective (fun _ _ _ _ => And.right ∘ cons.inj)
  exact ⟨count, (agree 2).mpr ⟨by decide, by decide, rfl⟩⟩

end Mooncake.Conductor
