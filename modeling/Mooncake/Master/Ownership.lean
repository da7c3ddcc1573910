import Mooncake.Master.Strategy

/-! What the allocation strategy owns. Between two of its calls other requests use the same
allocators, so nothing is said about their state: only that every buffer it was handed is
destroyed again or part of a replica it returns, and that it asks only the allocators it
was given. -/
namespace Mooncake.Master
open Program Multiset List
variable {H : Type}

def ownership (scope : Nat → Prop) : Contract (AllocOp H) AllocOp.Answer (Multiset (AllocatedBuffer H)) where
  requires held
    | .getSegmentName _ => True
    | .getLargestFreeRegion _ => True
    | .allocate a _ => scope a
    | .shuffle _ => True
    | .destroy b => b ∈ held
  ensures held
    | .getSegmentName _, _, held' => held' = held
    | .getLargestFreeRegion _, _, held' => held' = held
    | .allocate a size, answer, held' =>
      (answer : Option (AllocatedBuffer H)).elim (held' = held)
        (fun b => held' = b ::ₘ held ∧ b.allocator = a ∧ b.size = size)
    | .shuffle indices, order, held' => held' = held ∧ List.Perm order indices
    | .destroy b, _, held' => held = b ::ₘ held'

def Gained (frame held : Multiset (AllocatedBuffer H)) (buffer : Option (AllocatedBuffer H)) : Prop :=
  held = buffer.elim frame (· ::ₘ frame)

section Calls
variable {scope : Nat → Prop} {frame : Multiset (AllocatedBuffer H)}

theorem destroyBuffers_owns (bs : List (AllocatedBuffer H)) :
    Meets (ownership scope) (fun held _ => held = frame) (bs + frame) (destroyBuffers bs) := by
  induction bs with
  | nil => exact zero_add frame
  | cons b bs ih =>
    refine (meets_perform (Q := fun held _ => held = bs + frame) ?_ ?_).bind ?_
    · rw [← cons_coe, cons_add]
      exact mem_cons_self b _
    · intro _ held' destroyed
      rw [← cons_coe, cons_add] at destroyed
      exact (Multiset.cons_inj_right b).mp destroyed.symm
    · rintro held - rfl
      exact ih

theorem allocateFirst_owns (size : Nat) (ids : List Nat) (inside : ∀ a ∈ ids, scope a) :
    Meets (ownership scope) (Gained frame) frame (allocateFirst size ids) := by
  induction ids with
  | nil => exact rfl
  | cons a rest ih =>
    refine (meets_perform (Q := fun held answer => Gained frame held answer) ?_ ?_).bind ?_
    · exact inside a mem_cons_self
    · intro answer held' ensured
      cases answer with
      | none => exact ensured
      | some b => exact ensured.1
    · intro held answer gained
      cases answer with
      | some b => exact gained
      | none =>
        cases gained
        exact ih (fun a member => inside a (mem_cons_of_mem _ member))

theorem eligibleAllocators_owns (size : Nat) (excluded : List String) (ids : List Nat) :
    Meets (ownership scope) (fun held eligible => held = frame ∧ ∀ a ∈ eligible, a ∈ ids) frame
      (eligibleAllocators size excluded ids) := by
  induction ids with
  | nil => exact ⟨rfl, fun a member => member⟩
  | cons a rest ih =>
    refine (meets_perform (Q := fun held _ => held = frame) trivial (fun _ _ same => same)).bind ?_
    rintro held name rfl
    split
    · exact ih.mono (fun _ _ ⟨same, listed⟩ => ⟨same, fun b member => mem_cons_of_mem _ (listed b member)⟩)
    · refine (meets_perform (Q := fun held' _ => held' = held) trivial (fun _ _ same => same)).bind ?_
      rintro _ free rfl
      refine ih.bind ?_
      rintro _ others ⟨rfl, listed⟩
      refine meets_pure ⟨rfl, fun b member => ?_⟩
      split at member
      · rcases mem_cons.mp member with rfl | member
        · exact mem_cons_self
        · exact mem_cons_of_mem _ (listed b member)
      · exact mem_cons_of_mem _ (listed b member)

theorem tryRandomAllocate_owns (ids : List Nat) (size : Nat) (excluded : List String) (inside : ∀ a ∈ ids, scope a) :
    Meets (ownership scope) (Gained frame) frame (tryRandomAllocate ids size excluded) := by
  refine (eligibleAllocators_owns size excluded ids).bind ?_
  rintro _ eligible ⟨rfl, listed⟩
  split
  · exact meets_pure rfl
  · refine (meets_perform (Q := fun held order => held = _ ∧ Perm order eligible) trivial
      (fun _ _ shuffled => shuffled)).bind ?_
    rintro _ order ⟨rfl, shuffled⟩
    apply allocateFirst_owns
    intro a member
    exact inside a (listed a (shuffled.subset (mem_of_mem_take member)))

end Calls

def Placement.Names (p : Placement) (a : Nat) : Prop := a ∈ p.allocators ∨ ∃ n, a ∈ p.allocatorsByName.listAt n

section Slices
variable {p : Placement} {frame : Multiset (AllocatedBuffer H)}

theorem allocateSingleBuffer_owns (size : Nat) (excluded : List String) :
    Meets (ownership p.Names) (Gained frame) frame (allocateSingleBuffer p size excluded) := by
  have random : Meets (ownership p.Names) (Gained frame) frame (tryRandomAllocate p.allocators size excluded) :=
    tryRandomAllocate_owns p.allocators size excluded (fun a member => Or.inl member)
  unfold allocateSingleBuffer
  simp only
  split
  · refine (allocateFirst_owns size _ (fun a member => Or.inr ⟨_, member⟩)).bind ?_
    intro held answer gained
    cases answer with
    | some b => exact gained
    | none =>
      cases gained
      exact random
  · exact random

theorem allocateSlice_owns (size replicaNum : Nat) (used : List String) :
    Meets (ownership p.Names) (fun held bs => held = Multiset.ofList bs + frame ∧ length bs ≤ replicaNum) frame
      (allocateSlice p size replicaNum used) := by
  induction replicaNum generalizing used frame with
  | zero => exact ⟨(zero_add frame).symm, Nat.le_refl 0⟩
  | succ n ih =>
    refine (allocateSingleBuffer_owns size used).bind ?_
    intro held answer gained
    cases answer with
    | none => exact ⟨gained.trans (zero_add frame).symm, Nat.zero_le _⟩
    | some b =>
      cases gained
      refine (meets_perform (Q := fun held _ => held = b ::ₘ frame) trivial (fun _ _ same => same)).bind ?_
      rintro _ name rfl
      refine (ih (name :: used)).bind ?_
      rintro _ bs ⟨rfl, short⟩
      refine meets_pure ⟨?_, Nat.succ_le_succ short⟩
      rw [← cons_coe, cons_add, add_cons]

theorem flatten_zipWith_push (groups : List (List (AllocatedBuffer H))) (bs : List (AllocatedBuffer H))
    (fits : bs.length ≤ groups.length) :
    ((zipWith (fun buffers buffer => buffers ++ [buffer]) groups bs).flatten : Multiset (AllocatedBuffer H)) +
      (groups.drop bs.length).flatten = bs + (groups.flatten : Multiset (AllocatedBuffer H)) := by
  induction groups generalizing bs with
  | nil =>
    cases length_eq_zero_iff.mp (Nat.le_zero.mp fits)
    rfl
  | cons group groups ih =>
    cases bs with
    | nil => rfl
    | cons b bs =>
      have rest := ih bs (Nat.le_of_succ_le_succ fits)
      simp only [zipWith_cons_cons, flatten_cons, length_cons, drop_succ_cons,
        ← coe_add, ← cons_coe] at rest ⊢
      rw [add_assoc, rest, coe_nil, add_cons, add_zero, cons_add, cons_add,
        add_left_comm]

def Grouped (frame held : Multiset (AllocatedBuffer H)) (groups : List (List (AllocatedBuffer H))) : Prop :=
  held = (groups.flatten : Multiset (AllocatedBuffer H)) + frame

theorem allocateSlices_owns (sizes : List Nat) (count : Nat) (groups : List (List (AllocatedBuffer H)))
    (all : groups.length = count) (some_group : 0 < count) (filled : sizes = [] → ∀ bs ∈ groups, bs ≠ [])
    (held : Multiset (AllocatedBuffer H)) (owns : Grouped frame held groups) :
    Meets (ownership p.Names)
      (fun held result => match result with
        | .error _ => held = frame
        | .ok groups => Grouped frame held groups ∧ groups ≠ [] ∧ ∀ bs ∈ groups, bs ≠ [])
      held (allocateSlices p sizes count groups) := by
  induction sizes generalizing count groups held with
  | nil =>
    refine meets_pure ⟨owns, ?_, filled rfl⟩
    rintro rfl
    cases all
    cases some_group
  | cons size sizes ih =>
    refine (allocateSlice_owns size count []).bind ?_
    rintro _ bs ⟨rfl, short⟩
    cases owns
    split
    · rename_i empty
      cases isEmpty_iff.mp empty
      have destroyed : Meets (ownership p.Names) (fun held _ => held = frame)
          (groups.flatten + frame) (destroyBuffers groups.flatten) := destroyBuffers_owns groups.flatten
      refine Meets.bind ?_ (fun _ _ same => meets_pure same)
      simpa only [coe_nil, zero_add] using destroyed
    · rename_i found
      have fits : bs.length ≤ groups.length := all ▸ short
      have some_buffer : 0 < bs.length := by
        cases bs with
        | nil => exact absurd rfl found
        | cons b bs => exact Nat.succ_pos _
      have split := flatten_zipWith_push groups bs fits
      have owned : (bs : Multiset (AllocatedBuffer H)) + (groups.flatten + frame) =
          ((groups.drop bs.length).flatten : Multiset (AllocatedBuffer H)) +
            (((zipWith (fun buffers buffer => buffers ++ [buffer]) groups bs).flatten :
              Multiset (AllocatedBuffer H)) + frame) := by
        rw [← add_assoc, ← split, add_right_comm, add_comm]
      rw [owned]
      refine (destroyBuffers_owns _).bind ?_
      rintro _ - rfl
      refine ih bs.length _ ?_ some_buffer ?_ _ rfl
      · rw [length_zipWith, Nat.min_eq_right fits]
      · intro _ group member
        rw [← map_uncurry_zip_eq_zipWith] at member
        obtain ⟨⟨buffers, b⟩, -, rfl⟩ := mem_map.mp member
        exact append_ne_nil_of_right_ne_nil _ (cons_ne_nil b [])

end Slices

def Fresh (r : Replica H) : Prop := r.status = .processing ∧ r.type = .memory ∧ r.buffers ≠ []

def Placed (held : Multiset (AllocatedBuffer H)) : Except ErrorCode (List (Replica H)) → Prop
  | .error _ => held = 0
  | .ok replicas =>
    held = (replicas.flatMap Replica.buffers : Multiset (AllocatedBuffer H)) ∧ replicas ≠ [] ∧ ∀ r ∈ replicas, Fresh r

theorem allocateReplicas_owns (p : Placement) (sizes : List Nat) :
    Meets (ownership p.Names) Placed (0 : Multiset (AllocatedBuffer H)) (allocateReplicas p sizes) := by
  unfold allocateReplicas
  split
  · rename_i accepted
    simp only [validateInput, Bool.and_eq_true, decide_eq_true_eq, Bool.not_eq_true', isEmpty_eq_false_iff]
      at accepted
    have start : Grouped (0 : Multiset (AllocatedBuffer H)) 0 (replicate p.config.replicaNum []) := by
      simp [Grouped]
    refine (allocateSlices_owns sizes p.config.replicaNum _ length_replicate
      (Nat.pos_of_ne_zero accepted.1.1) (fun empty => absurd empty accepted.1.2) 0 start).bind ?_
    intro held result ensured
    cases result with
    | error e => exact ensured
    | ok groups =>
      obtain ⟨owned, nonempty, filled⟩ := ensured
      refine meets_pure ⟨?_, ?_, ?_⟩
      · rw [owned, add_zero, flatMap_map]
        exact congrArg ofList flatMap_id'.symm
      · exact fun none => nonempty (map_eq_nil_iff.mp none)
      · intro r member
        obtain ⟨bs, listed, rfl⟩ := mem_map.mp member
        exact ⟨rfl, rfl, filled bs listed⟩
  · exact meets_pure rfl

end Mooncake.Master
