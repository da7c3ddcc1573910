import Mathlib.Algebra.BigOperators.Group.List.Basic
import Mathlib.Algebra.Order.Group.Multiset
import Mathlib.Data.List.AList
import Mathlib.Data.List.Induction

/-! Finite maps with an iteration order, as association lists without duplicate
keys. A sweep visits the entries in order, carries a state, keeps, changes or
drops each entry and collects what it drops; a total adds up one weight per entry. -/

abbrev Table (κ ν : Type) : Type := AList (fun _ : κ => ν)

namespace Table

open Option List AList
variable {κ ν σ δ : Type}

def total {μ : Type} [AddCommMonoid μ] (weight : κ → ν → μ) (t : Table κ ν) : μ :=
  (t.entries.map (fun e => weight e.1 e.2)).sum

theorem total_perm {μ : Type} [AddCommMonoid μ] (weight : κ → ν → μ) {t t' : Table κ ν}
    (same : t.entries.Perm t'.entries) : total weight t = total weight t' :=
  (same.map _).sum_eq

section
variable [DecidableEq κ] {t : Table κ ν} {k : κ} {v : ν}

theorem lookup_insert_eq_some {j : κ} {w : ν} :
    (t.insert k v).lookup j = some w ↔ j = k ∧ v = w ∨ j ≠ k ∧ t.lookup j = some w := by
  by_cases same : j = k
  · subst same
    simp
  · simp [lookup_insert_ne same, same]

theorem lookup_erase_eq_some {j : κ} : (t.erase k).lookup j = some v ↔ j ≠ k ∧ t.lookup j = some v := by
  by_cases same : j = k
  · subst same
    simp
  · simp [lookup_erase_ne same, same]

theorem total_congr {μ ν' : Type} [AddCommMonoid μ] {weight : κ → ν → μ} {weight' : κ → ν' → μ}
    {t' : Table κ ν'} (same : ∀ k, (t.lookup k).map (weight k) = (t'.lookup k).map (weight' k)) :
    total weight t = total weight' t' := by
  have weighed : ∀ {ν : Type} (weight : κ → ν → μ) (t : Table κ ν) (k : κ) (m : μ),
      (k, m) ∈ t.entries.map (fun e => (e.1, weight e.1 e.2)) ↔ (t.lookup k).map (weight k) = some m := by
    intro ν weight t k m
    simp [← mem_lookup_iff]
  have once : ∀ {ν : Type} (weight : κ → ν → μ) (t : Table κ ν),
      (t.entries.map (fun e => (e.1, weight e.1 e.2))).Nodup := by
    intro ν weight t
    refine List.Nodup.of_map Prod.fst ?_
    rw [List.map_map]
    exact t.nodupKeys
  have perm := (perm_ext_iff_of_nodup (once weight t) (once weight' t')).mpr (fun e => by
    rw [weighed, weighed, same])
  have sums := (perm.map Prod.snd).sum_eq
  rw [List.map_map, List.map_map] at sums
  exact sums

theorem lookup_map_entries {ν' : Type} (f : ν → ν') (t : Table κ ν) (k : κ) :
    (t.entries.map (fun e => (e.1, f e.2))).lookup k = (t.lookup k).map f := by
  have inside : ∀ es : List (Sigma fun _ : κ => ν),
      (es.map (fun e => (e.1, f e.2))).lookup k = (es.dlookup k).map f := by
    intro es
    induction es with
    | nil => rfl
    | cons e es ih =>
      obtain ⟨j, v⟩ := e
      rw [map_cons, lookup_cons]
      by_cases same : k = j
      · subst same
        rw [beq_self_eq_true, dlookup_cons_eq]
        rfl
      · rw [beq_eq_false_iff_ne.mpr same, dlookup_cons_ne _ _ same]
        exact ih
  exact inside t.entries

theorem all_entries {q : (_ : κ) × ν → Bool} :
    t.entries.all q = true ↔ ∀ k v, t.lookup k = some v → q ⟨k, v⟩ = true := by
  simp only [List.all_eq_true, Sigma.forall, ← mem_lookup_iff, mem_def]

theorem mem_total {α : Type} {weight : κ → ν → Multiset α} {x : α} :
    x ∈ total weight t ↔ ∃ k v, t.lookup k = some v ∧ x ∈ weight k v := by
  have every : ∀ es : List (Sigma fun _ : κ => ν),
      x ∈ (es.map (fun e => weight e.1 e.2)).sum ↔ ∃ e ∈ es, x ∈ weight e.1 e.2 := by
    intro es
    induction es with
    | nil => simp
    | cons e es ih => simp only [map_cons, sum_cons, Multiset.mem_add, ih, exists_mem_cons_iff]
  simp only [total, every, Sigma.exists, ← mem_lookup_iff, mem_def]

theorem mem_filterMap_entries {β : Type} {f : κ → ν → Option β} {b : β} (found : t.lookup k = some v) :
    (k, b) ∈ t.entries.filterMap (fun e => (f e.1 e.2).map (Prod.mk e.1)) ↔ f k v = some b := by
  rw [mem_filterMap]
  constructor
  · rintro ⟨⟨j, u⟩, member, picked⟩
    obtain ⟨c, value, same⟩ := map_eq_some_iff.mp picked
    obtain ⟨rfl, rfl⟩ := Prod.mk.inj same
    cases found.symm.trans (mem_lookup_iff.mpr member)
    exact value
  · intro value
    exact ⟨⟨k, v⟩, mem_lookup_iff.mp found, by rw [value]; rfl⟩

/-- Results listed with their keys tell what each entry contributed. -/
theorem filterMap_entries_inj {β : Type} {f g : κ → ν → Option β}
    (same : t.entries.filterMap (fun e => (f e.1 e.2).map (Prod.mk e.1)) =
      t.entries.filterMap (fun e => (g e.1 e.2).map (Prod.mk e.1))) (found : t.lookup k = some v) :
    f k v = g k v := by
  ext b
  rw [← mem_filterMap_entries found, same, mem_filterMap_entries found]

section Total
variable {μ : Type} [AddCommMonoid μ] (weight : κ → ν → μ)

theorem entries_erase_perm (found : t.lookup k = some v) : t.entries.Perm (⟨k, v⟩ :: (t.erase k).entries) := by
  have member : k ∈ t.entries.keys := lookup_isSome.mp (by rw [found]; rfl)
  obtain ⟨b, front, back, -, split, erased⟩ := exists_of_kerase member
  have value : t.lookup k = some b := by
    apply mem_lookup_iff.mpr
    rw [split]
    simp
  rw [found] at value
  cases value
  rw [show (t.erase k).entries = kerase k t.entries from rfl, erased, split]
  exact perm_middle

theorem total_erase (found : t.lookup k = some v) : total weight t = weight k v + total weight (t.erase k) := by
  unfold total
  rw [((entries_erase_perm found).map _).sum_eq, map_cons, sum_cons]

theorem total_insert : total weight (t.insert k v) = weight k v + total weight (t.erase k) := by
  unfold total
  rw [entries_insert, map_cons, sum_cons]
  rfl

theorem total_insert_new (missing : t.lookup k = none) :
    total weight (t.insert k v) = weight k v + total weight t := by
  unfold total
  rw [entries_insert_of_notMem (lookup_eq_none.mp missing), map_cons, sum_cons]

theorem total_insert_getD {d : ν} (nothing : weight k d = 0) :
    total weight (t.insert k v) + weight k ((t.lookup k).getD d) = total weight t + weight k v := by
  cases found : t.lookup k with
  | none => rw [total_insert_new weight found, getD_none, nothing, add_zero, add_comm]
  | some old => rw [total_insert, total_erase weight found, getD_some, add_comm, add_comm (weight k v), add_assoc]

end Total

end

section Sweep
variable (visit : σ → κ → ν → σ × Option ν × List δ)

def sweepEntries : σ → List (Sigma fun _ : κ => ν) → σ × List (Sigma fun _ : κ => ν) × List δ
  | s, [] => (s, [], [])
  | s, e :: es =>
    let here := visit s e.1 e.2
    let rest := sweepEntries here.1 es
    (rest.1, here.2.1.toList.map (Sigma.mk e.1) ++ rest.2.1, here.2.2 ++ rest.2.2)

theorem sweepEntries_keys (s : σ) (es : List (Sigma fun _ : κ => ν)) :
    (sweepEntries visit s es).2.1.keys.Sublist es.keys := by
  induction es generalizing s with
  | nil => exact List.Sublist.refl _
  | cons e es ih =>
    have rest := ih (visit s e.1 e.2).1
    simp only [sweepEntries, List.keys, map_append, map_cons] at rest ⊢
    cases (visit s e.1 e.2).2.1 with
    | none => exact rest.cons e.1
    | some v => exact rest.cons_cons e.1

def sweep (s : σ) (t : Table κ ν) : σ × Table κ ν × List δ :=
  let result := sweepEntries visit s t.entries
  (result.1, ⟨result.2.1, List.Nodup.sublist (sweepEntries_keys visit s t.entries) t.nodupKeys⟩, result.2.2)

theorem sweep_state {P : σ → Prop} (keeps : ∀ s k v, P s → P (visit s k v).1)
    {s : σ} (start : P s) (t : Table κ ν) : P (sweep visit s t).1 := by
  suffices every : ∀ (es : List (Sigma fun _ : κ => ν)) (s : σ), P s → P (sweepEntries visit s es).1 from
    every t.entries s start
  intro es
  induction es with
  | nil => exact fun s holds => holds
  | cons e es ih => exact fun s holds => ih _ (keeps s e.1 e.2 holds)

/-- An entry after a sweep is what its own visit made of it, in some state the sweep passed through. -/
theorem lookup_sweep [DecidableEq κ] (s : σ) (t : Table κ ν) (k : κ) :
    (t.lookup k = none ∧ (sweep visit s t).2.1.lookup k = none) ∨
      ∃ s' v, t.lookup k = some v ∧ (sweep visit s t).2.1.lookup k = (visit s' k v).2.1 := by
  suffices every : ∀ (es : List (Sigma fun _ : κ => ν)) (s : σ), es.NodupKeys →
      (es.dlookup k = none ∧ (sweepEntries visit s es).2.1.dlookup k = none) ∨
        ∃ s' v, es.dlookup k = some v ∧
          (sweepEntries visit s es).2.1.dlookup k = (visit s' k v).2.1 from
    every t.entries s t.nodupKeys
  intro es
  induction es with
  | nil => exact fun s _ => Or.inl ⟨rfl, rfl⟩
  | cons e es ih =>
    intro s distinct
    obtain ⟨key, value⟩ := e
    obtain ⟨fresh, distinct⟩ := nodupKeys_cons.mp distinct
    have tail := ih (visit s key value).1 distinct
    by_cases same : key = k
    · subst same
      refine Or.inr ⟨s, value, dlookup_cons_eq _ _ _, ?_⟩
      have gone : (sweepEntries visit (visit s key value).1 es).2.1.dlookup key = none := by
        apply dlookup_eq_none.mpr
        exact fun kept => fresh ((sweepEntries_keys visit _ es).subset kept)
      simp only [sweepEntries]
      cases (visit s key value).2.1 with
      | none => exact gone
      | some kept => exact dlookup_cons_eq _ _ _
    · have skip : (sweepEntries visit s (⟨key, value⟩ :: es)).2.1.dlookup k =
          (sweepEntries visit (visit s key value).1 es).2.1.dlookup k := by
        simp only [sweepEntries]
        cases (visit s key value).2.1 with
        | none => rfl
        | some kept => exact dlookup_cons_ne _ _ (Ne.symm same)
      rw [skip, dlookup_cons_ne _ _ (Ne.symm same)]
      exact tail

/-- Where a visit leaves its state alone or appends to it, a sweep appends all that its visits do. -/
theorem sweep_appends {α : Type} {visit : List α → κ → ν → List α × Option ν × List δ} {f : κ → ν → Option α}
    (appends : ∀ s k v, (visit s k v).1 = s ++ (f k v).toList) (s : List α) (t : Table κ ν) :
    (sweep visit s t).1 = s ++ t.entries.filterMap (fun e => f e.1 e.2) := by
  suffices every : ∀ (es : List (Sigma fun _ : κ => ν)) (s : List α),
      (sweepEntries visit s es).1 = s ++ es.filterMap (fun e => f e.1 e.2) from every t.entries s
  intro es
  induction es with
  | nil => exact fun s => (append_nil s).symm
  | cons e es ih =>
    intro s
    simp only [sweepEntries]
    rw [ih, appends, append_assoc, filterMap_cons]
    cases f e.1 e.2 with
    | none => rfl
    | some a => rfl

/-- Where a visit counts the entries of a kind, a sweep counts them all. -/
theorem sweep_counts {visit : Nat → κ → ν → Nat × Option ν × List δ} {found : κ → ν → Bool}
    (counts : ∀ n k v, (visit n k v).1 = n + (found k v).toNat) (n : Nat) (t : Table κ ν) :
    (sweep visit n t).1 = n + t.entries.countP (fun e => found e.1 e.2) := by
  suffices every : ∀ (es : List (Sigma fun _ : κ => ν)) (n : Nat),
      (sweepEntries visit n es).1 = n + es.countP (fun e => found e.1 e.2) from every t.entries n
  intro es
  induction es with
  | nil => exact fun n => rfl
  | cons e es ih =>
    intro n
    simp only [sweepEntries]
    rw [ih, counts, countP_cons, Nat.add_assoc, Nat.add_comm (found e.1 e.2).toNat]
    cases found e.1 e.2 with
    | false => rfl
    | true => rfl

/-- A sweep that records in its state every entry it drops has a record of each entry that is gone. -/
theorem sweep_records [DecidableEq κ] {R : σ → κ → Prop}
    (records : ∀ s k v, (visit s k v).2.1 = none → R (visit s k v).1 k)
    (keeps : ∀ s k v j, R s j → R (visit s k v).1 j) (s : σ) (t : Table κ ν) {k : κ} {v : ν}
    (found : t.lookup k = some v) :
    ((sweep visit s t).2.1.lookup k).isSome = true ∨ R (sweep visit s t).1 k := by
  have recorded : ∀ (es : List (Sigma fun _ : κ => ν)) (s : σ), R s k → R (sweepEntries visit s es).1 k := by
    intro es
    induction es with
    | nil => exact fun s holds => holds
    | cons e es ih => exact fun s holds => ih _ (keeps s e.1 e.2 k holds)
  suffices every : ∀ (es : List (Sigma fun _ : κ => ν)) (s : σ), ⟨k, v⟩ ∈ es →
      k ∈ (sweepEntries visit s es).2.1.keys ∨ R (sweepEntries visit s es).1 k by
    rcases every t.entries s (mem_lookup_iff.mp found) with kept | gone
    · exact Or.inl (AList.lookup_isSome.mpr kept)
    · exact Or.inr gone
  intro es
  induction es with
  | nil => exact fun s member => (nomatch member)
  | cons e es ih =>
    intro s member
    simp only [sweepEntries, List.keys, map_append, mem_append]
    rcases mem_cons.mp member with rfl | later
    · cases outcome : (visit s k v).2.1 with
      | none => exact Or.inr (recorded es _ (records s k v outcome))
      | some kept => exact Or.inl (Or.inl mem_cons_self)
    · exact (ih _ later).imp_left Or.inr

/-- A weight that every visit splits between what it keeps and what it drops is split by the sweep. -/
theorem total_sweep {μ : Type} [AddCommMonoid μ] (weight : κ → ν → μ) (dropped : δ → μ)
    (splits : ∀ s k v, weight k v = ((visit s k v).2.1.elim 0 (weight k)) + ((visit s k v).2.2.map dropped).sum)
    (s : σ) (t : Table κ ν) :
    total weight t = total weight (sweep visit s t).2.1 + ((sweep visit s t).2.2.map dropped).sum := by
  suffices every : ∀ (es : List (Sigma fun _ : κ => ν)) (s : σ),
      (es.map (fun e => weight e.1 e.2)).sum =
        ((sweepEntries visit s es).2.1.map (fun e => weight e.1 e.2)).sum +
          ((sweepEntries visit s es).2.2.map dropped).sum from every t.entries s
  intro es
  induction es with
  | nil => exact fun s => (add_zero 0).symm
  | cons e es ih =>
    intro s
    have here : weight e.1 e.2 = (((visit s e.1 e.2).2.1.toList.map (Sigma.mk e.1)).map
        (fun e : Sigma fun _ : κ => ν => weight e.1 e.2)).sum + ((visit s e.1 e.2).2.2.map dropped).sum := by
      rw [splits s e.1 e.2]
      cases (visit s e.1 e.2).2.1 <;> simp
    simp only [sweepEntries, map_cons, map_append, sum_cons, sum_append]
    rw [here, ih (visit s e.1 e.2).1]
    exact add_add_add_comm _ _ _ _

end Sweep

def Exactly (vs : List ν) (p : ν → Prop) : Prop := vs.Nodup ∧ ∀ v, v ∈ vs ↔ p v

namespace Exactly
variable {vs : List ν} {p q : ν → Prop}

theorem congr (h : Exactly vs p) (same : ∀ v, p v ↔ q v) : Exactly vs q :=
  ⟨h.1, fun v => (h.2 v).trans (same v)⟩

theorem push (h : Exactly vs p) {v : ν} (new : ¬p v) : Exactly (vs ++ [v]) (fun u => u = v ∨ p u) := by
  refine ⟨nodup_append.mpr ⟨h.1, nodup_singleton v, ?_⟩, ?_⟩
  · rintro u member w last rfl
    rw [mem_singleton.mp last] at member
    exact new ((h.2 v).mp member)
  · intro u
    rw [mem_append, mem_singleton, h.2 u, or_comm]

theorem erase [DecidableEq ν] (h : Exactly vs p) (v : ν) : Exactly (vs.erase v) (fun u => u ≠ v ∧ p u) :=
  ⟨h.1.erase v, fun u => by rw [h.1.mem_erase_iff, h.2 u]⟩

end Exactly

variable (t : Table κ (List ν))

def contents : Multiset ν := total (fun _ vs => Multiset.ofList vs) t

theorem contents_eq : t.contents = Multiset.ofList (t.entries.flatMap (·.2)) := by
  unfold contents total
  induction t.entries with
  | nil => rfl
  | cons e rest ih => rw [map_cons, sum_cons, ih, flatMap_cons, Multiset.coe_add]

section Lists
variable [DecidableEq κ]

/-- A map of lists read with the empty list as default. -/
def listAt (k : κ) : List ν := (t.lookup k).getD []

def pushBack (k : κ) (v : ν) : Table κ (List ν) :=
  t.insert k (t.listAt k ++ [v])

def pushAll (k : κ) (vs : List ν) : Table κ (List ν) :=
  t.insert k (t.listAt k ++ vs)

def eraseFrom [DecidableEq ν] (k : κ) (v : Option ν) : Table κ (List ν) :=
  match t.lookup k with
  | none => t
  | some vs => if (v.elim vs vs.erase).isEmpty then t.erase k else t.insert k (v.elim vs vs.erase)

variable {t : Table κ (List ν)} {k j : κ} {v : ν}

theorem listAt_of_lookup {vs : List ν} (found : t.lookup k = some vs) : t.listAt k = vs := by
  rw [listAt, found, getD_some]

theorem listAt_pushBack_self : (t.pushBack k v).listAt k = t.listAt k ++ [v] := by
  rw [listAt, pushBack, lookup_insert, getD_some]

theorem lookup_pushBack_ne (other : j ≠ k) : (t.pushBack k v).lookup j = t.lookup j :=
  lookup_insert_ne other

theorem listAt_pushBack_ne (other : j ≠ k) : (t.pushBack k v).listAt j = t.listAt j := by
  rw [listAt, lookup_pushBack_ne other, listAt]

theorem lookup_eraseFrom_ne [DecidableEq ν] {v : Option ν} (other : j ≠ k) :
    (t.eraseFrom k v).lookup j = t.lookup j := by
  unfold eraseFrom
  split
  · rfl
  · split
    · exact lookup_erase_ne other
    · exact lookup_insert_ne other

theorem listAt_eraseFrom_ne [DecidableEq ν] {v : Option ν} (other : j ≠ k) :
    (t.eraseFrom k v).listAt j = t.listAt j := by
  rw [listAt, lookup_eraseFrom_ne other, listAt]

theorem listAt_eraseFrom_self [DecidableEq ν] : (t.eraseFrom k (some v)).listAt k = (t.listAt k).erase v := by
  unfold eraseFrom
  split
  · rename_i missing
    rw [listAt, missing]
    rfl
  · rename_i vs found
    rw [listAt_of_lookup found, elim_some]
    cases empty : (vs.erase v).isEmpty with
    | true =>
      rw [if_pos rfl, listAt, lookup_erase, List.isEmpty_iff.mp empty]
      rfl
    | false => rw [if_neg Bool.false_ne_true, listAt, lookup_insert, getD_some]

theorem mem_listAt_eraseFrom [DecidableEq ν] {u : ν} (other : u ≠ v) (listed : u ∈ t.listAt j) :
    u ∈ (t.eraseFrom k (some v)).listAt j := by
  rcases eq_or_ne j k with rfl | different
  · rw [listAt_eraseFrom_self]
    exact (mem_erase_of_ne other).mpr listed
  · rw [listAt_eraseFrom_ne different]
    exact listed

variable (es : List (κ × ν))

def assign : Table κ ν := es.foldl (fun t e => t.insert e.1 e.2) ∅

theorem lookup_assign_reverse (k : κ) : (assign es).lookup k = es.reverse.lookup k := by
  induction es using reverseRec with
  | nil => rfl
  | append_singleton es e ih =>
    have step : assign (es ++ [e]) = (assign es).insert e.1 e.2 := by simp [assign]
    rw [step, reverse_append, reverse_singleton, singleton_append, lookup_cons, ← ih]
    by_cases same : k = e.1
    · rw [same, lookup_insert, beq_self_eq_true]
    · rw [lookup_insert_ne same, beq_eq_false_iff_ne.mpr same]

def emplace (t : Table κ ν) (k : κ) (v : ν) : Table κ ν := if (t.lookup k).isSome then t else t.insert k v

theorem lookup_emplace (t : Table κ ν) (k j : κ) (v : ν) :
    (t.emplace k v).lookup j = (t.lookup j).or ([(k, v)].lookup j) := by
  unfold emplace
  rw [lookup_cons]
  by_cases same : j = k
  · subst same
    rw [beq_self_eq_true]
    cases found : t.lookup j with
    | some w => simp [found]
    | none => simp
  · rw [beq_eq_false_iff_ne.mpr same, lookup_nil, or_none]
    split
    · rfl
    · exact lookup_insert_ne same

theorem lookup_emplace_eq_some {t : Table κ ν} {k j : κ} {v w : ν} :
    (t.emplace k v).lookup j = some w ↔ t.lookup j = some w ∨ t.lookup j = none ∧ j = k ∧ v = w := by
  have single : [(k, v)].lookup j = some w ↔ j = k ∧ v = w := by
    rw [lookup_cons]
    by_cases same : j = k
    · simp [same]
    · simp [same, beq_eq_false_iff_ne.mpr same]
  rw [lookup_emplace, or_eq_some_iff, single]

theorem lookup_foldl_emplace (t : Table κ ν) (k : κ) :
    (es.foldl (fun t e => t.emplace e.1 e.2) t).lookup k = (t.lookup k).or (es.lookup k) := by
  induction es generalizing t with
  | nil => exact (or_none).symm
  | cons e es ih =>
    rw [foldl_cons, ih, lookup_emplace, Option.or_assoc]
    congr 1
    rw [lookup_cons, lookup_cons]
    cases k == e.1
    · rfl
    · rfl

theorem lookup_foldl_emplace_entries {ν' : Type} (f : ν' → ν) (t' : Table κ ν') (t : Table κ ν) (k : κ) :
    ((t'.entries.map (fun e => (e.1, f e.2))).foldl (fun t e => t.emplace e.1 e.2) t).lookup k =
      (t.lookup k).or ((t'.lookup k).map f) := by
  rw [lookup_foldl_emplace, lookup_map_entries]

/-- A key has the value of its last entry. The entries are numbered in their order. -/
theorem lookup_assign {es : List (Nat × κ × ν)} (sorted : (es.map Prod.fst).Pairwise (· < ·)) {k : κ} {v : ν} :
    (assign (es.map Prod.snd)).lookup k = some v ↔
      ∃ i, (i, k, v) ∈ es ∧ ∀ j v', (j, k, v') ∈ es → j ≤ i := by
  induction es using reverseRec with
  | nil => simp [assign]
  | append_singleton es e ih =>
    obtain ⟨n, k', v'⟩ := e
    rw [map_append, pairwise_append] at sorted
    have below : ∀ i w, (i, w) ∈ es → i < n := fun i w member =>
      sorted.2.2 i (List.mem_map.mpr ⟨_, member, rfl⟩) n (mem_singleton.mpr rfl)
    have step : assign ((es ++ [(n, k', v')]).map Prod.snd) = (assign (es.map Prod.snd)).insert k' v' := by
      simp [assign]
    rw [step]
    by_cases same : k = k'
    · subst same
      rw [lookup_insert]
      constructor
      · intro found
        cases found
        refine ⟨n, by simp, fun j w member => ?_⟩
        rcases mem_append.mp member with earlier | last
        · exact Nat.le_of_lt (below j _ earlier)
        · cases mem_singleton.mp last
          exact Nat.le_refl n
      · rintro ⟨i, member, last⟩
        rcases mem_append.mp member with earlier | here
        · exact absurd (last n v' (by simp)) (Nat.not_le.mpr (below i _ earlier))
        · cases mem_singleton.mp here
          rfl
    · rw [lookup_insert_ne same, ih sorted.1]
      have others : ∀ i w, (i, k, w) ∈ es ++ [(n, k', v')] ↔ (i, k, w) ∈ es := by
        intro i w
        rw [mem_append, mem_singleton]
        exact or_iff_left (fun wrong => same (Prod.mk.inj (Prod.mk.inj wrong).2).1)
      simp only [others]

def collect : Table κ (List ν) := es.foldl (fun t e => t.pushBack e.1 e.2) ∅

def NonemptyLists (t : Table κ (List ν)) : Prop := ∀ k vs, t.lookup k = some vs → vs ≠ []

theorem NonemptyLists.pushBack (h : t.NonemptyLists) : (t.pushBack k v).NonemptyLists := by
  intro j vs found
  by_cases same : j = k
  · subst same
    rw [Table.pushBack, lookup_insert] at found
    cases found
    simp
  · rw [lookup_pushBack_ne same] at found
    exact h j vs found

theorem listAt_foldl_pushBack (t : Table κ (List ν)) (k : κ) :
    (es.foldl (fun t e => t.pushBack e.1 e.2) t).listAt k = t.listAt k ++ (es.filter (·.1 = k)).map Prod.snd := by
  induction es generalizing t with
  | nil => simp
  | cons e rest ih =>
    rw [foldl_cons, ih]
    by_cases same : e.1 = k
    · subst same
      simp [listAt_pushBack_self]
    · simp [listAt_pushBack_ne (Ne.symm same), same]

theorem listAt_collect (k : κ) : (collect es).listAt k = (es.filter (·.1 = k)).map Prod.snd := by
  rw [collect, listAt_foldl_pushBack]
  rfl

theorem nonemptyLists_collect : (collect es).NonemptyLists := by
  have start : (∅ : Table κ (List ν)).NonemptyLists := fun k vs found => by cases found
  have all : ∀ t : Table κ (List ν), t.NonemptyLists →
      (es.foldl (fun t e => t.pushBack e.1 e.2) t).NonemptyLists := by
    induction es with
    | nil => exact fun t h => h
    | cons e rest ih => exact fun t h => ih (t.pushBack e.1 e.2) h.pushBack
  exact all ∅ start

/-- The lists of a collection are the values of their keys. -/
theorem mem_entries_collect {es : List (κ × ν)} {k : κ} {vs : List ν} :
    ⟨k, vs⟩ ∈ (collect es).entries ↔ vs = (es.filter (·.1 = k)).map Prod.snd ∧ vs ≠ [] := by
  rw [← mem_lookup_iff, mem_def]
  constructor
  · intro found
    exact ⟨by rw [← listAt_of_lookup found, listAt_collect], nonemptyLists_collect es k vs found⟩
  · rintro ⟨rfl, present⟩
    have listed := listAt_collect es k
    cases found : (collect es).lookup k with
    | none =>
      rw [listAt, found, getD_none] at listed
      exact absurd listed.symm present
    | some vs => rw [← listed, listAt_of_lookup found]

theorem contents_insert (t : Table κ (List ν)) (k : κ) (vs : List ν) :
    contents (t.insert k vs) + t.listAt k = t.contents + vs :=
  total_insert_getD (fun _ vs => Multiset.ofList vs) rfl

theorem contents_pushAll (t : Table κ (List ν)) (k : κ) (vs : List ν) :
    (t.pushAll k vs).contents = t.contents + vs := by
  have change := contents_insert t k (t.listAt k ++ vs)
  rw [← Multiset.coe_add, add_left_comm, add_comm] at change
  exact add_left_cancel change

theorem contents_pushBack (t : Table κ (List ν)) (k : κ) (v : ν) : (t.pushBack k v).contents = t.contents + {v} :=
  contents_pushAll t k [v]

theorem collect_of_mem {es : List (κ × ν)} {k : κ} {v : ν} (member : (k, v) ∈ es) :
    ∃ vs, ⟨k, vs⟩ ∈ (collect es).entries ∧ v ∈ vs := by
  have listed : v ∈ (es.filter (·.1 = k)).map Prod.snd :=
    List.mem_map.mpr ⟨(k, v), mem_filter.mpr ⟨member, by simp⟩, rfl⟩
  exact ⟨_, mem_entries_collect.mpr ⟨rfl, ne_nil_of_mem listed⟩, listed⟩

theorem mem_collect {es : List (κ × ν)} {k : κ} {vs : List ν} {v : ν} (present : ⟨k, vs⟩ ∈ (collect es).entries) :
    v ∈ vs ↔ (k, v) ∈ es := by
  rw [(mem_entries_collect.mp present).1]
  simp

theorem NonemptyLists.eraseFrom [DecidableEq ν] {v : Option ν} (h : t.NonemptyLists) :
    (t.eraseFrom k v).NonemptyLists := by
  intro j vs found
  by_cases same : j = k
  · subst same
    unfold Table.eraseFrom at found
    split at found
    · exact h j vs found
    · split at found
      · rw [lookup_erase] at found
        cases found
      · rename_i kept
        rw [lookup_insert] at found
        cases found
        exact fun empty => kept (List.isEmpty_iff.mpr empty)
  · rw [lookup_eraseFrom_ne same] at found
    exact h j vs found

end Lists

def mapValues {ν' : Type} (t : Table κ ν) (f : ν → ν') : Table κ ν' :=
  ⟨t.entries.map (fun e => ⟨e.1, f e.2⟩), by
    have keys : (t.entries.map (fun e => (⟨e.1, f e.2⟩ : Sigma fun _ : κ => ν'))).keys = t.entries.keys := by
      rw [List.keys, List.map_map]
      rfl
    exact (congrArg List.Nodup keys).mpr t.nodupKeys⟩

def reorder [DecidableEq κ] (t : Table κ ν) (order : List κ) (distinct : order.Nodup) : Table κ ν :=
  ⟨order.filterMap (fun k => (t.lookup k).map (Sigma.mk k)), by
    have keys : (order.filterMap (fun k => (t.lookup k).map (Sigma.mk k))).keys.Sublist order := by
      induction order with
      | nil => exact List.Sublist.refl _
      | cons k ks ih =>
        have rest := ih (List.nodup_cons.mp distinct).2
        rw [List.filterMap_cons]
        cases t.lookup k with
        | none => exact rest.cons k
        | some v => exact rest.cons_cons k
    exact distinct.sublist keys⟩

theorem reorder_perm [DecidableEq κ] (t : Table κ ν) {order : List κ} (distinct : order.Nodup)
    (all : order.Perm t.keys) : (t.reorder order distinct).entries.Perm t.entries := by
  have listed : (t.reorder order distinct).entries.Perm
      (t.keys.filterMap (fun k => (t.lookup k).map (Sigma.mk k))) := all.filterMap _
  refine listed.trans (List.Perm.of_eq ?_)
  suffices every : ∀ es : List (Sigma fun _ : κ => ν), (∀ e ∈ es, t.lookup e.1 = some e.2) →
      es.keys.filterMap (fun k => (t.lookup k).map (Sigma.mk k)) = es from
    every t.entries (fun e member => mem_lookup_iff.mpr member)
  intro es found
  induction es with
  | nil => rfl
  | cons e es ih =>
    have rest := ih (fun e member => found e (mem_cons_of_mem _ member))
    rw [keys_cons, filterMap_cons, found e mem_cons_self, rest]
    rfl

theorem lookup_reorder [DecidableEq κ] (t : Table κ ν) {order : List κ} (distinct : order.Nodup)
    (all : order.Perm t.keys) (k : κ) : (t.reorder order distinct).lookup k = t.lookup k :=
  perm_lookup (reorder_perm t distinct all)

end Table
