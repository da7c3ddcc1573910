import Mooncake.Engine.Topology
import Mooncake.Lib.Cover

/-! On which NUMA node a range of memory lies. The range need not begin or end at a page, so its first and its
last entry are parts of pages; pages with one status in a row are one entry. The branch for GPU memory is left
out. -/
namespace Mooncake.Engine.MemoryLocation

open Cover Engine.Topology

structure MemoryLocationEntry where
  start : Nat
  len : Nat
  location : String
deriving DecidableEq

def genCpuNodeName (node : Int) : String := if 0 ≤ node then "cpu:" ++ toString node else kWildcardLocation

section
variable (pagesize start len : Nat)

def alignPage (address : Nat) : Nat := address &&& (2 ^ 64 - 1 - (pagesize - 1))

def pageCount (onlyFirstPage : Bool) : Int :=
  if onlyFirstPage then 1
  else Int.bmod ((start - alignPage pagesize start + len + pagesize - 1) % 2 ^ 64 / pagesize : Nat) (2 ^ 64)

def pages (n : Int) : List Nat := (List.range n.toNat).map fun i => (alignPage pagesize start + i * pagesize) % 2 ^ 64

/-- The loop from page `i` on, with `rest` pages to go, and the entry behind it. -/
def entriesFrom (status : Nat → Int) : (rest i startAddr : Nat) → (node : Int) → List MemoryLocationEntry
  | 0, _, startAddr, node => [⟨startAddr, (start + len + (2 ^ 64 - startAddr)) % 2 ^ 64, genCpuNodeName node⟩]
  | rest + 1, i, startAddr, node =>
    if status i ≠ node then
      let newStartAddr := (alignPage pagesize start + i * pagesize) % 2 ^ 64
      ⟨startAddr, (newStartAddr + (2 ^ 64 - startAddr)) % 2 ^ 64, genCpuNodeName node⟩ ::
        entriesFrom status rest (i + 1) newStartAddr (status i)
    else entriesFrom status rest (i + 1) startAddr node

/-- `numaMovePages` answers with the statuses of the pages, by their places, or fails. -/
def getMemoryLocation (numaMovePages : List Nat → Option (Nat → Int)) (onlyFirstPage : Bool) :
    List MemoryLocationEntry :=
  let n := pageCount pagesize start len onlyFirstPage
  match numaMovePages (pages pagesize start n) with
  | none => [⟨start, len, kWildcardLocation⟩]
  | some status => entriesFrom pagesize start len status (n.toNat - 1) 1 start (status 0)

/-- Neither the range nor the number of its pages wraps around. -/
structure NoWrap : Prop where
  range : start + len ≤ 2 ^ 64
  bytes : start - alignPage pagesize start + len + pagesize - 1 < 2 ^ 64
  count : (start - alignPage pagesize start + len + pagesize - 1) / pagesize < 2 ^ 63

/-- An entry for memory with the status `node`: every address has it by its own page. -/
structure Placed (status : Nat → Int) (entry : MemoryLocationEntry) (node : Int) : Prop where
  nonempty : 0 < entry.len
  location : entry.location = genCpuNodeName node
  own : ∀ a, entry.start ≤ a → a < entry.start + entry.len →
    ∃ i : Nat, (pages pagesize start (pageCount pagesize start len false))[i]? = some (alignPage pagesize a) ∧
      status i = node

end

theorem alignPage_eq {k address : Nat} (page : k ≤ 64) (word : address < 2 ^ 64) :
    alignPage (2 ^ k) address = address / 2 ^ k * 2 ^ k := by
  have mask : 2 ^ 64 - 1 - (2 ^ k - 1) = (2 ^ (64 - k) - 1) * 2 ^ k := by
    rw [Nat.sub_mul, ← Nat.pow_add, Nat.sub_add_cancel page]
    have := Nat.two_pow_pos k
    omega
  refine Nat.eq_of_testBit_eq fun i => ?_
  rw [alignPage, mask, Nat.testBit_and, Nat.testBit_mul_two_pow, Nat.testBit_mul_two_pow, Nat.testBit_two_pow_sub_one,
    Nat.testBit_div_two_pow]
  by_cases low : k ≤ i
  · rw [Nat.sub_add_cancel low]
    by_cases inside : i < 64
    · simp [low]
      omega
    · rw [Nat.testBit_lt_two_pow (Nat.lt_of_lt_of_le word (Nat.pow_le_pow_right (by decide) (Nat.not_lt.mp inside)))]
      simp
  · simp [low]

def pageStart (k start i : Nat) : Nat := (start / 2 ^ k + i) * 2 ^ k

theorem pageStart_succ (k start i : Nat) : pageStart k start (i + 1) = pageStart k start i + 2 ^ k := Nat.succ_mul _ _

section
variable {k start len : Nat} {status : Nat → Int} (fits : NoWrap (2 ^ k) start len) (some_bytes : 1 ≤ len)
include fits some_bytes

theorem alignPage_range {a : Nat} (inside : a < start + len) : alignPage (2 ^ k) a = a / 2 ^ k * 2 ^ k := by
  have bytes := fits.bytes
  refine alignPage_eq ((Nat.pow_le_pow_iff_right (by decide : 1 < 2)).mp ?_) (Nat.lt_of_lt_of_le inside fits.range)
  omega

/-- The last page is the one of the last byte. -/
theorem pageCount_spec :
    ∃ n : Nat, pageCount (2 ^ k) start len false = n ∧ ∀ i, i < n ↔ pageStart k start i < start + len := by
  have aligned := alignPage_range fits some_bytes (a := start) (by omega)
  have below := Nat.div_mul_le_self start (2 ^ k)
  have positive := Nat.two_pow_pos k
  obtain ⟨-, bytes, count⟩ := fits
  rw [pageCount, if_neg Bool.false_ne_true, Nat.mod_eq_of_lt bytes]
  refine ⟨_, Int.bmod_eq_of_le ?_ ?_, fun i => ?_⟩
  · exact Int.le_trans (by decide) (Int.natCast_nonneg _)
  · exact Int.ofNat_lt.mpr count
  · rw [aligned, pageStart, Nat.lt_iff_add_one_le, Nat.le_div_iff_mul_le positive, Nat.succ_mul, Nat.add_mul]
    generalize 2 ^ k = page at below positive ⊢
    omega

theorem placed_run {first bytes : Nat} {node : Int} (nonempty : 0 < bytes) (high : first + bytes ≤ start + len)
    (run : ∀ a, first ≤ a → a < first + bytes → ∃ i, a / 2 ^ k = start / 2 ^ k + i ∧ status i = node) :
    Placed (2 ^ k) start len status ⟨first, bytes, genCpuNodeName node⟩ node := by
  refine ⟨nonempty, rfl, fun a left right => ?_⟩
  obtain ⟨i, page, same⟩ := run a left right
  obtain ⟨n, counted, count⟩ := pageCount_spec fits some_bytes
  have inside : a < start + len := Nat.lt_of_lt_of_le right high
  have below : pageStart k start i ≤ a := by
    rw [pageStart, ← page]
    exact Nat.div_mul_le_self a (2 ^ k)
  refine ⟨i, ?_, same⟩
  rw [counted, pages, Int.toNat_natCast, List.getElem?_map, List.getElem?_range ((count i).mpr (by omega)), Option.map_some,
    alignPage_range fits some_bytes (by omega), alignPage_range fits some_bytes inside, ← Nat.add_mul, ← page,
    Nat.mod_eq_of_lt]
  rw [page]
  exact Nat.lt_of_le_of_lt below (Nat.lt_of_lt_of_le inside fits.range)

/-- The loop at page `i`, when the pages from `startAddr` on have had the status `node`. -/
theorem entriesFrom_spec {n rest i startAddr : Nat} {node : Int}
    (count : ∀ i, i < n ↔ pageStart k start i < start + len) (left : i + rest = n) (low : start ≤ startAddr)
    (begun : startAddr < pageStart k start i) (high : startAddr < start + len)
    (run : ∀ a, startAddr ≤ a → a < pageStart k start i →
      ∃ i, a / 2 ^ k = start / 2 ^ k + i ∧ status i = node) :
    let entries := entriesFrom (2 ^ k) start len status rest i startAddr node
    Covers MemoryLocationEntry.start MemoryLocationEntry.len startAddr entries (start + len) ∧
      ∃ nodes, (node :: nodes).IsChain (· ≠ ·) ∧
        List.Forall₂ (Placed (2 ^ k) start len status) entries (node :: nodes) := by
  have range := fits.range
  have bytes := fits.bytes
  have positive := Nat.two_pow_pos k
  induction rest generalizing i startAddr node with
  | zero =>
    have size : (start + len + (2 ^ 64 - startAddr)) % 2 ^ 64 = start + len - startAddr := by omega
    have last := (count i).not.mp (by omega)
    rw [entriesFrom, size]
    refine ⟨⟨rfl, Nat.add_sub_cancel' (by omega)⟩, [], .singleton _, .cons ?_ .nil⟩
    exact placed_run fits some_bytes (by omega) (by omega) fun a left right => run a left (by omega)
  | succ rest ih =>
    have next := (count i).mp (by omega)
    have more := pageStart_succ k start i
    have here (a : Nat) (left : pageStart k start i ≤ a) (right : a < pageStart k start (i + 1)) :
        ∃ j, a / 2 ^ k = start / 2 ^ k + j ∧ status j = status i := ⟨i, Nat.div_eq_of_lt_le left right, rfl⟩
    rw [entriesFrom]
    split
    next changed =>
      have size : (pageStart k start i + (2 ^ 64 - startAddr)) % 2 ^ 64 = pageStart k start i - startAddr := by omega
      obtain ⟨covers, nodes, chain, placed⟩ := ih (by omega) (by omega) (by omega) next here
      have address : (alignPage (2 ^ k) start + i * 2 ^ k) % 2 ^ 64 = pageStart k start i := by
        rw [alignPage_range fits some_bytes (by omega), ← Nat.add_mul]
        exact Nat.mod_eq_of_lt (Nat.lt_of_lt_of_le next range)
      simp only [address, size]
      refine ⟨⟨rfl, ?_⟩, status i :: nodes, .cons_cons (Ne.symm changed) chain, .cons ?_ placed⟩
      · rw [Nat.add_sub_cancel' (by omega)]
        exact covers
      · exact placed_run fits some_bytes (by omega) (by omega) fun a left right => run a left (by omega)
    next same =>
      refine ih (by omega) low (by omega) high fun a left right => ?_
      by_cases old : a < pageStart k start i
      · exact run a left old
      · exact not_not.mp same ▸ here a (by omega) right

/-- The entries follow each other from the first byte to the last; adjacent ones have different statuses. -/
theorem getMemoryLocation_tiles (numaMovePages : List Nat → Option (Nat → Int))
    (answered : numaMovePages (pages (2 ^ k) start (pageCount (2 ^ k) start len false)) = some status) :
    let entries := getMemoryLocation (2 ^ k) start len numaMovePages false
    entries ≠ [] ∧ Covers MemoryLocationEntry.start MemoryLocationEntry.len start entries (start + len) ∧
      ∃ nodes : List Int, nodes.IsChain (· ≠ ·) ∧ List.Forall₂ (Placed (2 ^ k) start len status) entries nodes := by
  obtain ⟨n, counted, count⟩ := pageCount_spec fits some_bytes
  have below : pageStart k start 0 ≤ start := Nat.div_mul_le_self start (2 ^ k)
  have first := (count 0).mpr (by omega)
  have page : start < pageStart k start 1 := (Nat.div_lt_iff_lt_mul (Nat.two_pow_pos k)).mp (Nat.lt_succ_self _)
  have left : 1 + (n - 1) = n := by omega
  have run (a : Nat) (low : start ≤ a) (high : a < pageStart k start 1) :
      ∃ i, a / 2 ^ k = start / 2 ^ k + i ∧ status i = status 0 :=
        ⟨0, Nat.div_eq_of_lt_le (Nat.le_trans below low) high, rfl⟩
  obtain ⟨covers, nodes, chain, placed⟩ :=
    entriesFrom_spec fits some_bytes count left (Nat.le_refl start) page (by omega) run
  simp only [getMemoryLocation, answered]
  rw [counted]
  refine ⟨fun empty => ?_, covers, _, chain, placed⟩
  rw [Int.toNat_natCast] at empty
  rw [empty] at placed
  cases placed

end

theorem getMemoryLocation_three_pages : ∃ nodes : List Int, nodes.IsChain (· ≠ ·) ∧
    List.Forall₂ (Placed (2 ^ 12) 5000 8192 (if · < 2 then 0 else 1))
      [⟨5000, 7288, "cpu:0"⟩, ⟨12288, 904, "cpu:1"⟩] nodes :=
  (getMemoryLocation_tiles ⟨by decide, by decide, by decide⟩ (by decide) (fun _ => some (if · < 2 then 0 else 1)) rfl).2.2

end Mooncake.Engine.MemoryLocation
