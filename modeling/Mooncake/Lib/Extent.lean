import Mathlib.Data.List.Basic

/-! Stretches of an addressed memory, read as lists. -/
namespace Extent

open List
variable {α : Type} (m : Nat → α)

def read (address length : Nat) : List α :=
  (List.range length).map (fun k => m (address + k))

@[simp] theorem length_read (address length : Nat) : (read m address length).length = length := by
  simp [read]

@[simp] theorem read_zero (address : Nat) : read m address 0 = [] := rfl

theorem read_add (address n k : Nat) : read m address (n + k) = read m address n ++ read m (address + n) k := by
  simp only [read, range_add, map_append, map_map]
  congr 1
  exact map_congr_left (fun j _ => by simp only [Function.comp_apply, Nat.add_assoc])

theorem read_inside {a b n k : Nat} (low : a ≤ b) (high : b + k ≤ a + n) :
    read m b k = ((read m a n).drop (b - a)).take k := by
  refine ext_getElem (by simp; omega) (fun j _ _ => ?_)
  simp only [read, getElem_map, getElem_range, getElem_take, getElem_drop]
  congr 1
  omega

variable {m : Nat → α} {ws : List (Nat × List α)} {address length : Nat} {values : List α}

theorem read_congr {m' : Nat → α} (same : ∀ x, address ≤ x → x < address + length → m x = m' x) :
    read m address length = read m' address length :=
  map_congr_left fun _ inside => same _ (Nat.le_add_right _ _) (Nat.add_lt_add_left (mem_range.mp inside) _)

def write (m : Nat → α) (address : Nat) (values : List α) : Nat → α :=
  fun a => if address ≤ a then (values[a - address]?).getD (m a) else m a

theorem read_write (m : Nat → α) (address : Nat) (values : List α) :
    read (write m address values) address values.length = values := by
  refine ext_getElem (by simp) (fun k _ inside => ?_)
  simp [read, write, inside]

theorem read_write_before {a n : Nat} (before : a + n ≤ address) (values : List α) :
    read (write m address values) a n = read m a n := by
  refine map_congr_left (fun k inside => ?_)
  have below := mem_range.mp inside
  exact if_neg (by omega)

theorem read_write_after {a n : Nat} (after : address + values.length ≤ a) :
    read (write m address values) a n = read m a n := by
  refine map_congr_left (fun k _ => ?_)
  have outside : values.length ≤ a + k - address := by omega
  unfold write
  split
  · rw [getElem?_eq_none outside, Option.getD_none]
  · rfl

def Apart (v w : Nat × Nat) : Prop := v.1 + v.2 ≤ w.1 ∨ w.1 + w.2 ≤ v.1

theorem read_write_apart {a n : Nat} (apart : Apart (address, values.length) (a, n)) :
    read (write m address values) a n = read m a n := by
  rcases apart with after | before
  · exact read_write_after after
  · exact read_write_before before values

def writes (m : Nat → α) (ws : List (Nat × List α)) : Nat → α := ws.foldl (fun m w => write m w.1 w.2) m

theorem read_writes_apart {a n : Nat} (apart : ∀ w ∈ ws, Apart (w.1, w.2.length) (a, n)) :
    read (writes m ws) a n = read m a n := by
  induction ws generalizing m with
  | nil => rfl
  | cons w ws ih =>
    rw [writes, foldl_cons]
    exact (ih (fun v member => apart v (mem_cons_of_mem _ member))).trans
      (read_write_apart (apart w mem_cons_self))

theorem read_writes (apart : ws.Pairwise (fun v w => Apart (v.1, v.2.length) (w.1, w.2.length)))
    {w : Nat × List α} (member : w ∈ ws) : read (writes m ws) w.1 w.2.length = w.2 := by
  induction ws generalizing m with
  | nil => cases member
  | cons v ws ih =>
    obtain ⟨first, others⟩ := pairwise_cons.mp apart
    rw [writes, foldl_cons]
    rcases mem_cons.mp member with rfl | later
    · exact (read_writes_apart (fun v member => (first v member).symm)).trans (read_write m _ _)
    · exact ih others later

theorem read_eq_replicate {b : α} (same : ∀ k < length, m (address + k) = b) :
    read m address length = List.replicate length b :=
  eq_replicate_iff.mpr ⟨length_read m address length, fun c member => by
    obtain ⟨k, inside, rfl⟩ := mem_map.mp member
    exact same k (mem_range.mp inside)⟩

/-- The blocks are pairwise apart, none is empty, and each lies in one of the raw stretches. -/
structure Packed (raws blocks : List (Nat × Nat)) : Prop where
  apart : blocks.Pairwise Apart
  inside : ∀ b ∈ blocks, 0 < b.2 ∧ ∃ r ∈ raws, r.1 ≤ b.1 ∧ b.1 + b.2 ≤ r.1 + r.2

namespace Packed
variable {raws blocks more : List (Nat × Nat)} {raw : Nat × Nat} {a n : Nat}

theorem perm (packed : Packed raws blocks) (same : blocks.Perm more) : Packed raws more where
  apart := (same.pairwise_iff Or.symm).mp packed.apart
  inside := fun b member => packed.inside b (same.mem_iff.mpr member)

theorem split (packed : Packed raws ((a, n + n) :: blocks)) : Packed raws ((a, n) :: (a + n, n) :: blocks) := by
  obtain ⟨first, others⟩ := pairwise_cons.mp packed.apart
  obtain ⟨some, r, member, low, high⟩ := packed.inside _ mem_cons_self
  have halves : ∀ b ∈ blocks, Apart (a, n) b ∧ Apart (a + n, n) b := by
    intro b inside
    have whole := first b inside
    simp only [Apart] at whole ⊢
    omega
  constructor
  · refine pairwise_cons.mpr ⟨fun b inside => ?_, pairwise_cons.mpr ⟨fun b inside => (halves b inside).2, others⟩⟩
    rcases mem_cons.mp inside with rfl | later
    · exact .inl (Nat.le_refl _)
    · exact (halves b later).1
  · intro b inside
    rcases mem_cons.mp inside with rfl | inside
    · exact ⟨by omega, r, member, by omega, by omega⟩
    · rcases mem_cons.mp inside with rfl | later
      · exact ⟨by omega, r, member, by omega, by omega⟩
      · exact packed.inside b (mem_cons_of_mem _ later)

/-- A raw stretch apart from the others brings its own blocks. -/
theorem append (packed : Packed raws blocks) (fresh : ∀ r ∈ raws, Apart raw r) (new : Packed [raw] more) :
    Packed (raw :: raws) (more ++ blocks) := by
  constructor
  · refine pairwise_append.mpr ⟨new.apart, packed.apart, fun b inside c old => ?_⟩
    obtain ⟨_, r, member, low, high⟩ := new.inside b inside
    obtain ⟨_, q, there, low', high'⟩ := packed.inside c old
    cases mem_singleton.mp member
    have between := fresh q there
    simp only [Apart] at between ⊢
    omega
  · intro b inside
    rcases mem_append.mp inside with added | old
    · obtain ⟨some, r, member, within⟩ := new.inside b added
      exact ⟨some, r, mem_cons.mpr (.inl (mem_singleton.mp member)), within⟩
    · obtain ⟨some, r, member, within⟩ := packed.inside b old
      exact ⟨some, r, mem_cons_of_mem _ member, within⟩

/-- A raw stretch that is one block goes with it: no other block lies in it. -/
theorem erase (packed : Packed raws (raw :: blocks)) : Packed (raws.erase raw) blocks := by
  obtain ⟨first, others⟩ := pairwise_cons.mp packed.apart
  refine ⟨others, fun b inside => ?_⟩
  obtain ⟨some, r, member, low, high⟩ := packed.inside b (mem_cons_of_mem _ inside)
  have other : r ≠ raw := by
    rintro rfl
    have apart := first b inside
    simp only [Apart] at apart
    omega
  exact ⟨some, r, (mem_erase_of_ne other).mpr member, low, high⟩

end Packed

end Extent
