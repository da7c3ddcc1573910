import Mooncake.Lib.Extent

/-! The values of a counter that goes up to a bound in steps of one width, and the pieces into which they cut a
stretch of memory. -/
namespace Strides

def walk (size step : Nat) : Nat → Nat → List Nat
  | 0, _ => []
  | fuel + 1, offset => if offset < size then offset :: walk size step fuel (offset + step) else []

/-- The values of `offset` in `for offset := start; offset < size; offset += step`. -/
def strides (size step start : Nat) : List Nat := walk size step (size - start) start

variable {size step start offset : Nat}

theorem strides_of_le (done : size ≤ start) : strides size step start = [] := by
  unfold strides
  rw [Nat.sub_eq_zero_of_le done]
  rfl

section
variable (positive : 0 < step)
include positive

theorem walk_enough {fuel fuel' : Nat} (enough : size - offset ≤ fuel) (enough' : size - offset ≤ fuel') :
    walk size step fuel offset = walk size step fuel' offset := by
  induction fuel generalizing fuel' offset with
  | zero =>
    cases fuel' with
    | zero => rfl
    | succ fuel' => rw [walk, walk, if_neg (by omega)]
  | succ fuel ih =>
    cases fuel' with
    | zero => rw [walk, walk, if_neg (by omega)]
    | succ fuel' =>
      rw [walk, walk]
      split
      · exact congrArg (offset :: ·) (ih (by omega) (by omega))
      · rfl

theorem strides_of_lt (more : start < size) :
    strides size step start = start :: strides size step (start + step) := by
  obtain ⟨fuel, left⟩ := Nat.exists_eq_add_one_of_ne_zero (Nat.sub_ne_zero_of_lt more)
  unfold strides
  rw [left, walk, if_pos more]
  exact congrArg (start :: ·) (walk_enough positive (by omega) (Nat.le_refl _))

theorem strides_induction {P : Nat → List Nat → Prop} (done : ∀ start, size ≤ start → P start [])
    (next : ∀ start rest, start < size → P (start + step) rest → P start (start :: rest)) (start : Nat) :
    P start (strides size step start) := by
  induction left : size - start using Nat.strongRecOn generalizing start with
  | ind n ih =>
    by_cases more : start < size
    · rw [strides_of_lt positive more]
      exact next start _ more (ih (size - (start + step)) (by omega) (start + step) rfl)
    · rw [strides_of_le (by omega)]
      exact done start (by omega)

theorem mem_strides : offset ∈ strides size step start ↔ offset < size ∧ ∃ k, offset = start + k * step := by
  refine strides_induction (P := fun start offsets => offset ∈ offsets ↔
    offset < size ∧ ∃ k, offset = start + k * step) positive
    (fun start done => ?_) (fun start rest more ih => ?_) start
  · refine ⟨(nomatch ·), fun ⟨below, k, at_⟩ => ?_⟩
    omega
  · rw [List.mem_cons, ih]
    constructor
    · rintro (rfl | ⟨below, k, rfl⟩)
      · exact ⟨more, 0, by simp⟩
      · exact ⟨below, k + 1, by rw [Nat.add_mul, Nat.one_mul]; omega⟩
    · rintro ⟨below, k, rfl⟩
      cases k with
      | zero => exact .inl (by simp)
      | succ k => exact .inr ⟨below, k, by rw [Nat.add_mul, Nat.one_mul]; omega⟩

theorem lt_of_mem_strides (member : offset ∈ strides size step start) : offset < size :=
  ((mem_strides positive).mp member).1

theorem pairwise_strides : (strides size step start).Pairwise (fun a b => a + step ≤ b) := by
  have both : (strides size step start).Pairwise (fun a b => a + step ≤ b) ∧ ∀ b ∈ strides size step start, start ≤ b := by
    refine strides_induction (P := fun start offsets => offsets.Pairwise (fun a b => a + step ≤ b) ∧
      ∀ b ∈ offsets, start ≤ b)
      positive (fun _ _ => ⟨List.Pairwise.nil, fun _ none => nomatch none⟩) (fun start rest _ ih => ?_) start
    refine ⟨List.pairwise_cons.mpr ⟨ih.2, ih.1⟩, fun b member => ?_⟩
    rcases List.mem_cons.mp member with rfl | later
    · exact Nat.le_refl _
    · exact Nat.le_trans (Nat.le_add_right _ _) (ih.2 b later)
  exact both.1

theorem getElem?_strides {k : Nat} (at_ : (strides size step start)[k]? = some offset) :
    offset = start + k * step ∧ offset < size := by
  refine strides_induction (P := fun start offsets => ∀ k, offsets[k]? = some offset →
    offset = start + k * step ∧ offset < size)
    positive (fun _ _ _ none => (nomatch none)) (fun start rest more ih k at_ => ?_) start k at_
  cases k with
  | zero =>
    cases at_
    exact ⟨by simp, more⟩
  | succ k =>
    obtain ⟨place, below⟩ := ih k at_
    exact ⟨by rw [place, Nat.add_mul, Nat.one_mul]; omega, below⟩

theorem le_add_length_strides : size ≤ start + (strides size step start).length * step :=
  strides_induction (P := fun start offsets => size ≤ start + offsets.length * step) positive
    (fun start done => Nat.le_trans done (Nat.le_add_right _ _))
    (fun start rest _ ih => by rw [List.length_cons, Nat.add_mul, Nat.one_mul]; omega) start

theorem length_strides_le (k : Nat) :
    (strides size step (start + k * step)).length ≤ (strides size step start).length := by
  induction k with
  | zero => simp
  | succ k ih =>
    refine Nat.le_trans ?_ ih
    have next : start + (k + 1) * step = start + k * step + step := by rw [Nat.add_mul, Nat.one_mul]; omega
    rw [next]
    by_cases more : start + k * step < size
    · rw [strides_of_lt positive more]
      exact Nat.le_succ _
    · rw [strides_of_le (by omega)]
      exact Nat.zero_le _

end

/-- The piece that starts at the offset: the last one may be shorter. -/
def tile (size step offset : Nat) : Nat × Nat := (offset, min step (size - offset))

def tiles (size step start : Nat) : List (Nat × Nat) := (strides size step start).map (tile size step)

theorem tiles_of_le (done : size ≤ start) : tiles size step start = [] :=
  by rw [tiles, strides_of_le done, List.map_nil]

theorem tiles_of_lt (positive : 0 < step) (more : start < size) :
    tiles size step start = tile size step start :: tiles size step (start + step) := by
  rw [tiles, strides_of_lt positive more, List.map_cons, tiles]

theorem tiles_single (some : 0 < size) (short : size ≤ step) : tiles size step 0 = [(0, size)] := by
  rw [tiles_of_lt (by omega) some, tiles_of_le (by omega), tile, Nat.sub_zero, Nat.min_eq_right short]

theorem tile_within (positive : 0 < step) {t : Nat × Nat} (member : t ∈ tiles size step start) :
    t.1 + t.2 ≤ size ∧ 0 < t.2 := by
  obtain ⟨offset, inside, rfl⟩ := List.mem_map.mp member
  have below := lt_of_mem_strides positive inside
  show offset + min step (size - offset) ≤ size ∧ 0 < min step (size - offset)
  omega

theorem exists_tile (positive : 0 < step) {x : Nat} (below : x < size) :
    ∃ t ∈ tiles size step 0, t.1 ≤ x ∧ x < t.1 + t.2 := by
  have down : x / step * step ≤ x := Nat.div_mul_le_self x step
  have up : x < x / step * step + step := by
    have next := Nat.lt_div_mul_add positive (a := x)
    omega
  refine ⟨tile size step (x / step * step),
    List.mem_map_of_mem ((mem_strides positive).mpr ⟨by omega, x / step, by omega⟩), down, ?_⟩
  show x < x / step * step + min step (size - x / step * step)
  omega

theorem tiles_apart (positive : 0 < step) : (tiles size step start).Pairwise (fun t u => t.1 + t.2 ≤ u.1) := by
  refine List.pairwise_map.mpr ((pairwise_strides positive).imp fun {a b} apart => ?_)
  show a + min step (size - a) ≤ b
  omega

end Strides
