import Mooncake.P2PStore.GetReplica

/-! Which places of a shard `performTransfer` tries before it gives up, and what becomes of its batches. -/
namespace Mooncake.P2PStore

open Option List

namespace Shard

/-- Every call of the engine succeeds, and a transfer completes exactly from the places that work. -/
def attempts (shard : Shard) (random : Nat) (works : Location → Bool) (residue : Nat → Nat → Option UInt8)
    (r : Nat) : Attempt :=
  if (shard.getLocation random r).any works then .completed else .failed (residue r)

structure TriesAll (shard : Shard) (works : Location → Bool) (err : Option Err)
    (batches : List (Option Location × Bool)) : Prop where
  exhausted : err = some .tooManyRetries → ∀ location ∈ shard.locations, (some location, true) ∈ batches ∧
    works location = false
  succeeds : (∃ location ∈ shard.locations, works location = true) → err = none
  freed : ∀ batch ∈ batches, batch.2 = true

/-- The random place, and of three or more places all but the last one. -/
def Reaches (shard : Shard) (random : Nat) (location : Location) : Prop :=
  shard.getRandomLocation random = some location ∨ location ∈ shard.locations.take (max 2 (shard.count - 1))

variable {shard : Shard} {random : Nat}

theorem length_locations (shard : Shard) : shard.locations.length = shard.count := length_append

theorem getLocation_succ (shard : Shard) (random r : Nat) :
    shard.getLocation random (r + 1) = shard.locations[r]? := by
  unfold getLocation getRetryLocation locations
  rw [if_neg (Nat.succ_ne_zero r), Nat.add_sub_cancel, getElem?_append]

theorem reaches_iff {location : Location} :
    shard.Reaches random location ↔ ∃ r < max 3 shard.count, shard.getLocation random r = some location := by
  unfold Reaches
  rw [mem_take_iff_getElem]
  constructor
  · rintro (first | ⟨i, inside, same⟩)
    · exact ⟨0, by omega, first⟩
    · refine ⟨i + 1, by omega, ?_⟩
      rw [getLocation_succ, ← same, getElem?_eq_getElem]
  · rintro ⟨r, below, found⟩
    cases r with
    | zero => exact .inl found
    | succ r =>
      rw [getLocation_succ] at found
      obtain ⟨inside, same⟩ := List.getElem?_eq_some_iff.mp found
      exact .inr ⟨r, by omega, same⟩

theorem getLocation_eq_none_iff (random : Nat) (positive : 0 < shard.count) (r : Nat) :
    shard.getLocation random r = none ↔ shard.count < r := by
  cases r with
  | zero =>
    unfold getLocation getRandomLocation
    unfold count at positive
    rw [if_pos rfl]
    split
    next here => simpa using Nat.mod_lt random here
    next =>
      rw [if_pos (by omega)]
      simpa using Nat.mod_lt random (by omega : 0 < shard.gold.length)
  | succ r =>
    rw [getLocation_succ, List.getElem?_eq_none_iff, length_locations]
    omega

end Shard

/-- The loop goes on to the first place that works. If there is none, it goes through them all and gives up. -/
theorem transferLoop_cases (segments : Segments) (source : Nat) {shard : Shard} {random : Nat}
    (works : Location → Bool) (residue : Nat → Nat → Option UInt8) {rounds retryCount : Nat} (memory : Memory)
    (places : ∀ r, retryCount ≤ r → r + 1 < retryCount + rounds → shard.getLocation random r ≠ none) :
    let transfer := transferLoop segments source shard random (shard.attempts random works residue) rounds retryCount memory
    ((∃ r location, r < retryCount + rounds ∧ shard.getLocation random r = some location ∧ works location = true) ∧
        transfer.err = none ∧ ∀ batch ∈ transfer.batches, batch.2 = true) ∨
      (∀ r location, retryCount ≤ r → r < retryCount + rounds → shard.getLocation random r = some location →
          works location = false) ∧
        transfer.err = some .tooManyRetries ∧
        transfer.batches = (range' retryCount rounds).map fun r =>
          (shard.getLocation random r, (shard.getLocation random r).isSome) := by
  induction rounds generalizing retryCount memory with
  | zero => exact .inr ⟨fun r _ low high => by omega, rfl, rfl⟩
  | succ rounds ih =>
    simp only [transferLoop, range'_succ, map_cons]
    have later : ∀ r, retryCount + 1 ≤ r → r + 1 < retryCount + 1 + rounds → shard.getLocation random r ≠ none :=
      fun r low high => places r (by omega) (by omega)
    cases here : shard.getLocation random retryCount with
    | none =>
      -- only the last round may be without a place
      have last : rounds = 0 := by
        by_contra more
        exact places retryCount (Nat.le_refl _) (by omega) here
      subst last
      refine .inr ⟨fun r place low high found => ?_, by simp [Shard.attempts, here], by simp [Shard.attempts, here]⟩
      rw [Nat.le_antisymm (by omega) low, here] at found
      cases found
    | some location =>
      cases working : works location with
      | true =>
        refine .inl ⟨⟨retryCount, location, by omega, here, working⟩, ?_, ?_⟩ <;> simp [Shard.attempts, here, working]
      | false =>
        have failed : shard.attempts random works residue retryCount = .failed (residue retryCount) := by
          simp [Shard.attempts, here, working]
        simp only [failed]
        rcases ih _ later with ⟨⟨r, place, below, found⟩, ok, freed⟩ | ⟨none, gaveUp, batches⟩
        · exact .inl ⟨⟨r, place, by omega, found⟩, ok, by simpa using freed⟩
        · refine .inr ⟨fun r place low high found => ?_, gaveUp, by simp [batches]⟩
          by_cases first : r = retryCount
          · subst first
            cases here.symm.trans found
            exact working
          · exact none r place (by omega) (by omega) found

/-- Every place is tried before `performTransfer` gives up, and every batch is freed, exactly if a place that it
tries works, or the shard has several places and it tries them all. -/
theorem performTransfer_triesAll_iff (segments : Segments) (source : Nat) (shard : Shard) (random : Nat)
    (works : Location → Bool) (residue : Nat → Nat → Option UInt8) (memory : Memory)
    (some_place : shard.locations ≠ []) :
    let attempts := shard.attempts random works residue
    shard.TriesAll works (performTransfer segments source shard random attempts memory).1
        (transferLoop segments source shard random attempts (max 3 shard.count) 0 memory).batches ↔
      (∃ location, shard.Reaches random location ∧ works location = true) ∨
        shard.count ≠ 1 ∧ ∀ location ∈ shard.locations, shard.Reaches random location := by
  intro attempts
  have positive : 0 < shard.count := shard.length_locations ▸ length_pos_iff.mpr some_place
  have places := Shard.getLocation_eq_none_iff random positive
  have early : ∀ r, 0 ≤ r → r + 1 < 0 + max 3 shard.count → shard.getLocation random r ≠ none := by
    intro r _ below
    rw [ne_eq, places]
    omega
  rcases transferLoop_cases segments source works residue memory early with
    ⟨⟨r, location, below, found, working⟩, ok, freed⟩ | ⟨none, gaveUp, batches⟩
  · refine iff_of_true ⟨fun failed => ?_, fun _ => ok, freed⟩
      (.inl ⟨location, Shard.reaches_iff.mpr ⟨r, by omega, found⟩, working⟩)
    cases ok.symm.trans failed
  · have fails : ∀ location, shard.Reaches random location → works location = false := by
      intro location reached
      obtain ⟨r, below, found⟩ := Shard.reaches_iff.mp reached
      exact none r location (Nat.zero_le _) (by omega) found
    have tried : ∀ location, (some location, true) ∈ (transferLoop segments source shard random attempts
        (max 3 shard.count) 0 memory).batches ↔ shard.Reaches random location := by
      intro location
      rw [batches, Shard.reaches_iff]
      simp only [List.mem_map, mem_range'_1, Prod.mk.injEq]
      constructor
      · rintro ⟨r, inside, found, -⟩
        exact ⟨r, by omega, found⟩
      · rintro ⟨r, below, found⟩
        exact ⟨r, by omega, found, by rw [found]; rfl⟩
    constructor
    · rintro ⟨exhausted, -, freed⟩
      refine .inr ⟨fun one => ?_, fun location listed => (tried location).mp (exhausted gaveUp location listed).1⟩
      have missing : shard.getLocation random 2 = Option.none := (places 2).mpr (by omega)
      rw [batches] at freed
      have wrong := freed _ (mem_map_of_mem (mem_range'_1.mpr ⟨Nat.zero_le 2, by omega⟩))
      rw [missing] at wrong
      cases wrong
    · rintro (⟨location, reached, working⟩ | ⟨several, all⟩)
      · cases (fails location reached).symm.trans working
      · refine ⟨fun _ location listed =>
          ⟨(tried location).mpr (all location listed), fails location (all location listed)⟩, ?_, ?_⟩
        · rintro ⟨location, listed, working⟩
          cases (fails location (all location listed)).symm.trans working
        · rw [batches]
          intro batch member
          obtain ⟨r, inside, rfl⟩ := mem_map.mp member
          refine isSome_iff_ne_none.mpr fun missing => ?_
          have past := (places r).mp missing
          have below := mem_range'_1.mp inside
          omega

theorem performTransfer_triesAll_two_places :
    let shard : Shard := ⟨8, [⟨"gold", 0⟩], [⟨"a", 0⟩]⟩
    let attempts := shard.attempts 0 (fun _ => false) fun _ _ => none
    shard.TriesAll (fun _ => false) (performTransfer (fun _ _ => 0) 100 shard 0 attempts fun _ => 0).1
      (transferLoop (fun _ _ => 0) 100 shard 0 attempts (max 3 shard.count) 0 fun _ => 0).batches :=
  (performTransfer_triesAll_iff _ _ _ 0 _ _ _ (by decide)).mpr (.inr ⟨by decide, fun _ listed => .inr listed⟩)

/-- Of two replicas and a gold place the gold one is never tried, though it works. The only place of a shard
fails, and the last batch is not freed. -/
theorem gold_place_untried :
    (let shard : Shard := ⟨8, [⟨"gold", 0⟩], [⟨"a", 0⟩, ⟨"b", 0⟩]⟩
     let attempts := shard.attempts 0 (fun location => location.segmentName == "gold") fun _ _ => none
     (performTransfer (fun _ _ => 0) 100 shard 0 attempts fun _ => 0).1 = some .tooManyRetries ∧
      (some ⟨"gold", 0⟩, true) ∉ (transferLoop (fun _ _ => 0) 100 shard 0 attempts 3 0 fun _ => 0).batches) ∧
    (let shard : Shard := ⟨8, [⟨"gold", 0⟩], []⟩
     let attempts := shard.attempts 0 (fun _ => false) fun _ _ => none
     (none, false) ∈ (transferLoop (fun _ _ => 0) 100 shard 0 attempts 3 0 fun _ => 0).batches) := by
  refine ⟨⟨rfl, ?_⟩, ?_⟩
  · decide
  · decide

end Mooncake.P2PStore
