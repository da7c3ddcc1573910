import Mathlib.Data.List.Nodup

/-! Result lists that are filled in by index: some elements are picked with their places,
worked on elsewhere, and the outcomes written back. -/
namespace Indexed

open List
variable {α β : Type}

def pick (f : α → Option β) (xs : List α) : List (Nat × β) :=
  xs.zipIdx.filterMap (fun p => (f p.1).map (fun b => (p.2, b)))

def writes (xs : List β) (us : List (Nat × β)) : List β :=
  us.foldl (fun xs u => xs.set u.1 u.2) xs

variable {us : List (Nat × β)} {f : α → Option β} {i : Nat} {xs : List α} {γ : Type}

theorem mem_pick {b : β} : (i, b) ∈ pick f xs ↔ ∃ a, xs[i]? = some a ∧ f a = some b := by
  simp [pick, mem_filterMap, mk_mem_zipIdx_iff_getElem?]

theorem mem_pick_ok {ε : Type} {xs : List (Except ε β)} {b : β} :
    (i, b) ∈ pick Except.toOption xs ↔ xs[i]? = some (.ok b) := by
  rw [mem_pick]
  refine ⟨?_, fun found => ⟨_, found, rfl⟩⟩
  rintro ⟨_ | a, found, ok⟩
  · cases ok
  · cases ok; exact found

theorem pairwise_pick (f : α → Option β) (xs : List α) : ((pick f xs).map Prod.fst).Pairwise (· < ·) := by
  have places : (xs.zipIdx.map Prod.snd).Pairwise (· < ·) := by
    rw [zipIdx_map_snd]
    exact pairwise_lt_range'
  have part : ∀ ps : List (α × Nat),
      ((ps.filterMap (fun p => (f p.1).map (fun b => (p.2, b)))).map Prod.fst).Sublist (ps.map Prod.snd) := by
    intro ps
    induction ps with
    | nil => exact List.Sublist.refl _
    | cons p rest ih =>
      cases picked : f p.1 with
      | none => simpa [picked] using ih.cons p.2
      | some b => simpa [picked] using ih.cons_cons p.2
  exact places.sublist (part xs.zipIdx)

theorem nodup_pick (f : α → Option β) (xs : List α) : ((pick f xs).map Prod.fst).Nodup :=
  (pairwise_pick f xs).imp Nat.ne_of_lt

theorem pick_congr {g : γ → Option β} {ys : List γ} (lengths : xs.length = ys.length)
    (same : ∀ (i : Nat) x y, xs[i]? = some x → ys[i]? = some y → f x = g y) : pick f xs = pick g ys := by
  have fromPlace : ∀ k, (xs.zipIdx k).filterMap (fun p => (f p.1).map (fun b => (p.2, b))) =
      (ys.zipIdx k).filterMap (fun p => (g p.1).map (fun b => (p.2, b))) := by
    induction xs generalizing ys with
    | nil =>
      cases length_eq_zero_iff.mp lengths.symm
      simp
    | cons x xs ih =>
      cases ys with
      | nil => cases lengths
      | cons y ys =>
        intro k
        have rest := ih (Nat.succ.inj lengths) (fun i a b left right => same (i + 1) a b left right) (k + 1)
        simp only [zipIdx_cons, filterMap_cons, same 0 x y rfl rfl, rest]
  exact fromPlace 0

theorem pick_map (f : α → Option β) (g : β → γ) (xs : List α) :
    (pick f xs).map (fun p => (p.1, g p.2)) = pick (fun a => (f a).map g) xs := by
  simp only [pick, map_filterMap, Option.map_map]
  rfl

theorem places_zipWith {δ : Type} {ps : List (Nat × α)} {rs : List γ} (h : Nat × α → γ → δ)
    (same : rs.length = ps.length) : (ps.zipWith (fun p r => (p.1, h p r)) rs).map Prod.fst = ps.map Prod.fst := by
  induction ps generalizing rs with
  | nil => rfl
  | cons p rest ih =>
    cases rs with
    | nil => cases same
    | cons r rs => simp [ih (Nat.succ.inj same)]

@[simp] theorem length_writes (xs : List β) (us : List (Nat × β)) : (writes xs us).length = xs.length := by
  induction us generalizing xs with
  | nil => rfl
  | cons u rest ih => rw [writes, foldl_cons, ← writes, ih, length_set]

theorem getElem?_writes_of_notMem {xs : List β} (outside : i ∉ us.map Prod.fst) :
    (writes xs us)[i]? = xs[i]? := by
  induction us generalizing xs with
  | nil => rfl
  | cons u rest ih =>
    simp only [map_cons, mem_cons, not_or] at outside
    rw [writes, foldl_cons, ← writes, ih outside.2, getElem?_set_ne (Ne.symm outside.1)]

/-- What is found at a place has been written there, or was there and nothing was written. -/
theorem mem_of_getElem?_writes {xs : List β} {b : β} (found : (writes xs us)[i]? = some b) :
    (i, b) ∈ us ∨ i ∉ us.map Prod.fst ∧ xs[i]? = some b := by
  induction us generalizing xs with
  | nil => exact .inr ⟨not_mem_nil, found⟩
  | cons u rest ih =>
    rcases ih found with later | ⟨outside, kept⟩
    · exact .inl (mem_cons_of_mem u later)
    · by_cases same : u.1 = i
      · obtain ⟨inside, here⟩ := List.getElem?_eq_some_iff.mp kept
        subst same
        rw [getElem_set_self] at here
        exact .inl (here ▸ mem_cons_self)
      · rw [getElem?_set_ne same] at kept
        exact .inr ⟨by simpa using ⟨Ne.symm same, by simpa using outside⟩, kept⟩

theorem getElem?_writes_of_mem {xs : List β} {b : β} (once : (us.map Prod.fst).Nodup) (written : (i, b) ∈ us)
    (inside : i < xs.length) : (writes xs us)[i]? = some b := by
  induction us generalizing xs with
  | nil => cases written
  | cons u rest ih =>
    simp only [map_cons, nodup_cons] at once
    rw [writes, foldl_cons, ← writes]
    rcases mem_cons.mp written with rfl | later
    · rw [getElem?_writes_of_notMem once.1, getElem?_set_self inside]
    · exact ih once.2 later (by rwa [length_set])

end Indexed
