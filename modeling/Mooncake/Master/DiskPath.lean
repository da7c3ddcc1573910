import Mathlib.Data.Fintype.BigOperators
import Mathlib.Data.Fintype.Pigeonhole
import Mooncake.Lib.LexicalPath

/-! The file of a disk replica. Its name is the sanitized key, and eight bits of the hash
choose the directory, so these two are all that a path tells about its key. -/
namespace Mooncake.Master
open LexicalPath List

def kInvalidChars : List Char := ['/', '\\', ':', '*', '?', '"', '<', '>', '|']

def sanitizeChar (c : Char) : Char := if c ∈ kInvalidChars then '_' else c

def sanitizeKey (key : String) : List Char := key.toList.map sanitizeChar

def dirChar (bits : Nat) : Char := Char.ofNat ('a'.toNat + bits)

/-- `ResolvePath`, with the members of the service and the hash function it uses. -/
def resolvePath (rootFsDir clusterId : String) (hash : String → Nat) (key : String) : String :=
  let dir1 := dirChar (hash key &&& 0x0F)
  let dir2 := dirChar ((hash key >>> 4) &&& 0x0F)
  let dirPath := append [dir1] [dir2]
  let fullPath := append (append (append rootFsDir.toList clusterId.toList) dirPath) (sanitizeKey key)
  String.ofList (lexicallyNormal fullPath)

/-! The parts of a path. -/

theorem dirChar_plain {bits : Nat} (small : bits < 16) : Plain [dirChar bits] := by
  have all : ∀ bits : Fin 16, dirChar bits ≠ '/' ∧ dirChar bits ≠ '.' := by decide
  obtain ⟨noSlash, notDot⟩ := all ⟨bits, small⟩
  exact ⟨by simp, by simpa using noSlash.symm, by simpa using notDot, by simp⟩

theorem dirChar_inj {a b : Nat} (a_small : a < 16) (b_small : b < 16) (same : [dirChar a] = [dirChar b]) : a = b := by
  have all : ∀ a b : Fin 16, dirChar a = dirChar b → a = b := by decide
  exact congrArg Fin.val (all ⟨a, a_small⟩ ⟨b, b_small⟩ (singleton_inj.mp same))

theorem sanitizeChar_valid (c : Char) : sanitizeChar c ∉ kInvalidChars := by
  rw [sanitizeChar]
  split
  · decide
  · assumption

theorem sanitizeKey_noSlash (key : String) : '/' ∉ sanitizeKey key := by
  intro member
  obtain ⟨c, -, slash⟩ := mem_map.mp member
  exact sanitizeChar_valid c (slash ▸ by decide)

theorem sanitizeKey_dotDot {key : String} (same : sanitizeKey key = dotDot) : key = ".." := by
  have dot_of : ∀ c, sanitizeChar c = '.' → c = '.' := by
    intro c becomes
    rw [sanitizeChar] at becomes
    split at becomes
    · cases becomes
    · exact becomes
  obtain ⟨c, rest, listed, first, others⟩ := map_eq_cons_iff.mp same
  obtain ⟨d, rest', listed', second, none⟩ := map_eq_cons_iff.mp others
  rw [listed', map_eq_nil_iff.mp none, dot_of c first, dot_of d second] at listed
  exact String.toList_inj.mp listed

theorem sanitizeKey_nonempty {key : String} (nonempty : key ≠ "") : sanitizeKey key ≠ [] := by
  intro none
  exact nonempty (String.toList_inj.mp (map_eq_nil_iff.mp none))

theorem dir_bits (n : Nat) : n &&& 0x0F = n % 256 % 16 ∧ (n >>> 4) &&& 0x0F = n % 256 / 16 := by
  have low : n &&& 0x0F = n % 16 := Nat.and_two_pow_sub_one_eq_mod n 4
  have high : (n >>> 4) &&& 0x0F = n / 16 % 16 := by
    rw [Nat.shiftRight_eq_div_pow]
    exact Nat.and_two_pow_sub_one_eq_mod _ 4
  rw [low, high]
  omega

section Paths
variable (rootFsDir clusterId : String)

theorem resolvePath_tail : ∃ lead, ∀ (hash : String → Nat) (key : String),
    (resolvePath rootFsDir clusterId hash key).toList =
      lead ++ fileTail [dirChar (hash key % 256 % 16)] [dirChar (hash key % 256 / 16)] (sanitizeKey key) := by
  obtain ⟨front, closed, behind⟩ := append_front (append rootFsDir.toList clusterId.toList)
  obtain ⟨lead, normal⟩ := lexicallyNormal_tail closed
  refine ⟨lead, fun hash key => ?_⟩
  obtain ⟨low, high⟩ := dir_bits (hash key)
  have plain1 : Plain [dirChar (hash key % 256 % 16)] := dirChar_plain (by omega)
  have plain2 : Plain [dirChar (hash key % 256 / 16)] := dirChar_plain (by omega)
  have noSlash := sanitizeKey_noSlash key
  have dirs : append [dirChar (hash key % 256 % 16)] [dirChar (hash key % 256 / 16)] =
      [dirChar (hash key % 256 % 16)] ++ ('/' :: [dirChar (hash key % 256 / 16)]) := append_plain [] plain1 plain2.noSlash
  have full : append (front ++ ([dirChar (hash key % 256 % 16)] ++ ('/' :: [dirChar (hash key % 256 / 16)])))
      (sanitizeKey key) = front ++ ([dirChar (hash key % 256 % 16)] ++
        '/' :: ([dirChar (hash key % 256 / 16)] ++ '/' :: sanitizeKey key)) := by
    have whole := append_plain (front ++ [dirChar (hash key % 256 % 16), '/']) plain2 noSlash
    simpa using whole
  rw [resolvePath, low, high, String.toList_ofList, dirs, behind _ (plain1.relative _), full]
  exact normal _ _ _ plain1 plain2 noSlash

theorem resolvePath_congr {hash : String → Nat} {k1 k2 : String} (name : sanitizeKey k1 = sanitizeKey k2)
    (bits : hash k1 % 256 = hash k2 % 256) :
    resolvePath rootFsDir clusterId hash k1 = resolvePath rootFsDir clusterId hash k2 := by
  obtain ⟨lead, tail⟩ := resolvePath_tail rootFsDir clusterId
  rw [← String.toList_inj, tail, tail, name, bits]

variable {rootFsDir clusterId} in
theorem resolvePath_name {hash : String → Nat} {k1 k2 : String} (different : k1 ≠ k2) (nonempty1 : k1 ≠ "")
    (nonempty2 : k2 ≠ "") (same : resolvePath rootFsDir clusterId hash k1 = resolvePath rootFsDir clusterId hash k2) :
    sanitizeKey k1 = sanitizeKey k2 ∧ hash k1 % 256 = hash k2 % 256 := by
  obtain ⟨lead, tail⟩ := resolvePath_tail rootFsDir clusterId
  have tails := congrArg String.toList same
  rw [tail, tail] at tails
  obtain ⟨name, first, second⟩ := fileTail_inj (dirChar_plain (by omega)) (dirChar_plain (by omega))
    (dirChar_plain (by omega)) (dirChar_plain (by omega)) (sanitizeKey_noSlash k1) (sanitizeKey_noSlash k2)
    (sanitizeKey_nonempty nonempty1) (sanitizeKey_nonempty nonempty2) (append_cancel_left tails)
  -- a double dot hides the second directory, but only one key is sanitized to it
  have notDotDot : sanitizeKey k1 ≠ dotDot := by
    intro up
    exact different ((sanitizeKey_dotDot up).trans (sanitizeKey_dotDot (name ▸ up)).symm)
  have low := dirChar_inj (by omega) (by omega) first
  have high := dirChar_inj (by omega) (by omega) (second notDotDot)
  exact ⟨name, by omega⟩

/-- Two keys have different files exactly if their sanitized names or the eight low bits of
their hashes differ. -/
theorem resolvePath_ne_iff (hash : String → Nat) {k1 k2 : String} (different : k1 ≠ k2) (nonempty1 : k1 ≠ "")
    (nonempty2 : k2 ≠ "") :
    resolvePath rootFsDir clusterId hash k1 ≠ resolvePath rootFsDir clusterId hash k2 ↔
      sanitizeKey k1 ≠ sanitizeKey k2 ∨ hash k1 % 256 ≠ hash k2 % 256 := by
  rw [← not_and_or, not_iff_not]
  exact ⟨resolvePath_name different nonempty1 nonempty2,
    fun ⟨name, bits⟩ => resolvePath_congr rootFsDir clusterId name bits⟩

end Paths

theorem resolvePath_ne_of_bits : resolvePath "/mnt" "c" String.length "a/b" ≠ resolvePath "/mnt" "c" String.length "a:bc" :=
  (resolvePath_ne_iff "/mnt" "c" String.length (by decide) (by decide) (by decide)).mpr (Or.inr (by decide))

theorem resolvePath_slash_colon : ("a/b" : String) ≠ "a:b" ∧
    resolvePath "/mnt" "c" String.length "a/b" = resolvePath "/mnt" "c" String.length "a:b" ∧
    resolvePath "/mnt" "c" String.length "a/b" = "/mnt/c/d/a/a_b" := by decide +kernel

def invalidKey (word : Fin 3 → Fin 9) : String := String.ofList (List.ofFn (fun i => kInvalidChars.get (word i)))

theorem invalidKey_injective : Function.Injective invalidKey := by
  have distinct : Function.Injective kInvalidChars.get := nodup_iff_injective_get.mp (by decide)
  intro v w same
  funext i
  exact distinct (congrFun (ofFn_injective (String.ofList_injective same)) i)

theorem sanitizeKey_invalidKey (word : Fin 3 → Fin 9) : sanitizeKey (invalidKey word) = ['_', '_', '_'] := by
  have becomes : ∀ i : Fin 9, sanitizeChar (kInvalidChars.get i) = '_' := by decide
  simp only [sanitizeKey, invalidKey, String.toList_ofList, map_ofFn, Function.comp_def, becomes]
  decide

/-- No hash function helps: there are more keys of one sanitized name than directories. -/
theorem every_hash_collides (rootFsDir clusterId : String) (hash : String → Nat) :
    ∃ k1 k2, k1 ≠ k2 ∧ k1 ≠ "" ∧ k2 ≠ "" ∧
      resolvePath rootFsDir clusterId hash k1 = resolvePath rootFsDir clusterId hash k2 := by
  have more : Fintype.card (Fin 256) < Fintype.card (Fin 3 → Fin 9) := by
    rw [Fintype.card_fun, Fintype.card_fin, Fintype.card_fin, Fintype.card_fin]
    decide
  obtain ⟨v, w, different, same⟩ := Fintype.exists_ne_map_eq_of_card_lt
    (fun word => (⟨hash (invalidKey word) % 256, Nat.mod_lt _ (by decide)⟩ : Fin 256)) more
  have nonempty : ∀ word, invalidKey word ≠ "" := by
    intro word none
    have name := sanitizeKey_invalidKey word
    rw [none] at name
    cases name
  refine ⟨invalidKey v, invalidKey w, fun keys => different (invalidKey_injective keys), nonempty v, nonempty w, ?_⟩
  refine resolvePath_congr rootFsDir clusterId ?_ (congrArg Fin.val same)
  rw [sanitizeKey_invalidKey, sanitizeKey_invalidKey]

end Mooncake.Master
