import Mooncake.Master.Registration
import Mooncake.Master.SegmentSystem

/-! What holds of the whole master, however its requests and its threads interleave. -/
namespace Mooncake.Master

open World Option
variable {A H : Type} [BufferAllocatorBase A H] {p : Params} {w w' : World A H} {events : List Event}

namespace Sample

theorem reached_put : ∃ w : State, Reachable params w ∧ w.heap.live = [0] ∧ w.segments.allocators = [0] ∧
    ∃ w' m', Run.run (step params) w [.putEnd "k" .memory] = some w' ∧ w'.entry shard "k" = some m' ∧
      m'.object < w.nextObject := by
  have outcome : (Run.run (step params) (start params : State) (mount segmentA clientA ++ put "k" "a")).bind (fun w =>
      (Run.run (step params) w [.putEnd "k" .memory]).bind fun w' => (w'.entry shard "k").map fun m' =>
        decide (w.heap.live = [0] ∧ w.segments.allocators = [0] ∧ m'.object < w.nextObject)) = some true := by
    decide +kernel
  obtain ⟨w, reached, seen⟩ := reached_of_outcome outcome
  obtain ⟨w', run, seen⟩ := bind_eq_some_iff.mp seen
  obtain ⟨m', found, seen⟩ := map_eq_some_iff.mp seen
  obtain ⟨live, allocators, old⟩ := of_decide_eq_true seen
  exact ⟨w, reached, live, allocators, w', m', run, found, old⟩

end Sample

open Sample

/-- A buffer is live as long as an entry or a put in flight has it, and no two have the same. -/
theorem buffers_owned_once (reached : Reachable p w) :
    (w.heap.live : Multiset Nat) = ids w.bag ∧ (ids w.bag).Nodup := by
  have ledger := (located_reachable reached).sound.ledger
  exact ⟨ledger.live, ledger.live ▸ Multiset.coe_nodup.mpr ledger.distinct⟩

theorem buffer_of_put_owned : ∃ w : State, w.heap.live = [0] ∧ (w.heap.live : Multiset Nat) = ids w.bag := by
  obtain ⟨w, reached, live, -⟩ := reached_put
  exact ⟨w, live, (buffers_owned_once reached).1⟩

/-- What a later state has under a key is a new object or what is left of the one that was there: an object does
not come back or move to another key, its size stays, its lease does not shrink, and no data is added to it. -/
structure World.Descends (w w' : World A H) : Prop where
  later : w.nextObject ≤ w'.nextObject
  origin : ∀ i key m', w'.entry i key = some m' → w.nextObject ≤ m'.object ∨ ∃ m, w.entry i key = some m ∧ Inherits m m'

theorem objects_descend (run : Run.run (step p) w events = some w') : w.Descends w' := by
  refine Run.invariant (P := w.Descends) ?_ ?_ run
  · rintro v e v' ⟨later, origin⟩ done
    obtain ⟨r, inside⟩ := step_exec done
    have turn := exec_turn inside
    refine ⟨later.trans (turn_nextObject turn), fun i key m' found => ?_⟩
    obtain ⟨m, before, effect⟩ | ⟨-, -, -, -, -, -, -, -, rfl⟩ := turn_origin turn found
    · have kept := effect.inherits rfl
      rcases origin i key m before with new | ⟨m₀, first, old⟩
      · exact .inl (kept.object.symm ▸ new)
      · exact .inr ⟨m₀, first, old.trans kept⟩
    -- A put numbers its object from `nextObject`, which no step lowers.
    · exact .inl later
  · exact ⟨le_rfl, fun i key m found => .inr ⟨m, found, rfl, rfl, le_rfl, fun r member => ⟨r, member, rfl⟩⟩⟩

theorem ended_put_inherits : ∃ (w w' : State) (m m' : _), w.entry shard "k" = some m ∧ w'.entry shard "k" = some m' ∧
    Inherits m m' := by
  obtain ⟨w, -, -, -, w', m', run, found, old⟩ := reached_put
  obtain ⟨m, before, inherits⟩ := ((objects_descend run).origin _ _ _ found).resolve_left (Nat.not_le.mpr old)
  exact ⟨w, w', m, m', before, found, inherits⟩

/-- The segments of the master are those of a run of the segment manager alone, and its indexes agree. -/
theorem segments_refine (reached : Reachable p w) : ∃ events s,
    Run.run IndexState.step (.start p.memoryAllocator) events = some s ∧ Abstracts s w ∧ s.Consistent := by
  obtain ⟨events, s, run, rel⟩ := abstracts_reachable reached
  have sound : s.Sound := Run.invariant (fun _ _ _ x next => IndexState.step_sound x next) (IndexState.start_sound _) run
  exact ⟨events, s, run, rel, sound.consistent⟩

theorem segments_refine_mounted : ∃ (w : State) (s : _), w.segments.allocators = [0] ∧ Abstracts s w ∧ s.Consistent := by
  obtain ⟨w, reached, -, allocators, -⟩ := reached_put
  obtain ⟨-, s, -, rel, consistent⟩ := segments_refine reached
  exact ⟨w, s, allocators, rel, consistent⟩

end Mooncake.Master
