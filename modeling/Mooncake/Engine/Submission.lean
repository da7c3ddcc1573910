import Mooncake.Engine.SliceCache

/-! Rules for the loops of a submission: what a slice keeps is kept by a request, and what a request keeps by a
call. -/
namespace Mooncake.Engine.Batch
open World

/-- The offsets at which a request is cut. -/
structure GlobalConfig.Cuts (c : GlobalConfig) (request : TransferRequest) (offset : Nat) : Prop where
  inside : offset < request.length
  whole : c.sliceSize ∣ offset
  rest : offset = 0 ∨ c.fragmentLimit < request.length - offset

namespace Rdma
variable {c : GlobalConfig} {d : Devices} {thread task : Nat} {ref : TaskRef} {request : TransferRequest}

structure Posted (c : GlobalConfig) (ref : TaskRef) (request : TransferRequest) (offset : Nat) (p : Posting)
    (w : World) (x : Nat) (next : Posting) : Prop where
  world : ∃ pool, next.world = { w.modifyTask ref (fun t =>
    { t with
      totalBytes := t.totalBytes + (c.slice ref request offset).length, sliceCount := t.sliceCount + 1 }) with
    pool := pool }
  pending : next.world.pool ++ next.slicesToPost = p.world.pool ++ p.slicesToPost ++ [x]

theorem submitPostSend_or_not (p : Posting) (now : Prop) [Decidable now] :
    (∃ pool, (if now then p.submitPostSend else p).world = { p.world with pool := pool }) ∧
      (if now then p.submitPostSend else p).world.pool ++ (if now then p.submitPostSend else p).slicesToPost =
        p.world.pool ++ p.slicesToPost := by
  split
  · exact ⟨⟨_, rfl⟩, List.append_nil _⟩
  · exact ⟨⟨_, rfl⟩, rfl⟩

variable {p : Posting} {offset : Nat}

theorem sliceBody_cases (c : GlobalConfig) (d : Devices) (thread task : Nat) (request : TransferRequest)
    (offset : Nat) {t : TransferTask} (found : p.world.taskAt ref = some t) :
    ∃ w x, Draws p.world (c.slice ref request offset) w x ∧
      ((d.pick c request task offset = none ∧ ∃ n, sliceBody c d thread task ref request p offset =
          (⟨w.deallocateAll thread p.slicesToPost, p.slicesToPost, n⟩, .addressNotRegistered)) ∨
        ∃ chosen, d.pick c request task offset = some chosen ∧
          (d.stillActive task offset chosen.2 = false ∧ (∃ n,
              sliceBody c d thread task ref request p offset = (⟨w, p.slicesToPost, n⟩, .invalidArgument)) ∨
            d.stillActive task offset chosen.2 = true ∧ ∃ next, Posted c ref request offset p w x next ∧
              sliceBody c d thread task ref request p offset = (next, .ok))) := by
  have draws : Draws p.world (c.slice ref request offset) _ _ := draw_draws thread _ found
  refine ⟨_, _, draws, ?_⟩
  cases picked : d.pick c request task offset with
  | none =>
    refine .inl ⟨rfl, ?_⟩
    simp only [sliceBody, picked]
    exact ⟨_, rfl⟩
  | some chosen =>
    refine .inr ⟨chosen, rfl, ?_⟩
    cases alive : d.stillActive task offset chosen.2 with
    | false =>
      refine .inl ⟨rfl, ?_⟩
      simp only [sliceBody, picked, alive]
      exact ⟨_, rfl⟩
    | true =>
      refine .inr ⟨rfl, ?_⟩
      simp only [sliceBody, picked, alive, if_true]
      refine ⟨_, ?_, rfl⟩
      obtain ⟨⟨pool, world⟩, pending⟩ := submitPostSend_or_not
        ⟨(p.world.draw thread (c.slice ref request offset)).1.modifyTask ref (fun t =>
            { t with totalBytes := t.totalBytes + (c.slice ref request offset).length, sliceCount := t.sliceCount + 1 }),
          p.slicesToPost ++ [(p.world.draw thread (c.slice ref request offset)).2.1],
          if (p.world.draw thread (c.slice ref request offset)).2.2 = true then p.nrSlices else p.nrSlices + 1⟩
        (c.submitWatermark ≤
          if (p.world.draw thread (c.slice ref request offset)).2.2 = true then p.nrSlices else p.nrSlices + 1)
      refine ⟨⟨pool, world⟩, pending.trans ?_⟩
      rw [pool_modifyTask, draws.pool, List.append_assoc]

theorem slice_length_pos (inside : offset < request.length) : 0 < (c.slice ref request offset).length := by
  have := c.sliceSize_pos
  simp only [GlobalConfig.slice]
  split <;> omega

theorem offset_add_length (c : GlobalConfig) (ref : TaskRef) (inside : offset < request.length) :
    if c.mergeFinalSlice request offset then offset + (c.slice ref request offset).length = request.length
    else (c.slice ref request offset).length = c.sliceSize ∧ offset + c.sliceSize < request.length := by
  unfold GlobalConfig.slice
  split
  · exact Nat.add_sub_cancel' (Nat.le_of_lt inside)
  next merge =>
    simp only [GlobalConfig.mergeFinalSlice, decide_eq_true_eq] at merge
    exact ⟨rfl, by omega⟩

theorem cuts_next (cuts : c.Cuts request offset) (more : c.mergeFinalSlice request offset = false) :
    c.Cuts request (offset + c.sliceSize) := by
  simp only [GlobalConfig.mergeFinalSlice, decide_eq_false_iff_not] at more
  exact ⟨by omega, Nat.dvd_add cuts.whole (Nat.dvd_refl _), .inr (by omega)⟩

section
variable {σ α : Type}

/-- What holds after a part of a call, as it goes on or ends with an error. -/
def Ends (P : σ → Prop) (E : Status → σ → Prop) (r : σ × Status) : Prop := if r.2 = .ok then P r.1 else E r.2 r.1

variable {P P' : σ → Prop} {E E' : Status → σ → Prop} {r : σ × Status}

theorem Ends.ok (ends : Ends P E r) (fine : r.2 = .ok) : P r.1 := by rwa [Ends, if_pos fine] at ends

theorem Ends.error (ends : Ends P E r) (failed : r.2 ≠ .ok) : E r.2 r.1 := by rwa [Ends, if_neg failed] at ends

theorem Ends.mono (ends : Ends P E r) (fine : r.2 = .ok → P r.1 → P' r.1)
    (failed : ∀ status s, E status s → E' status s) : Ends P' E' r := by
  unfold Ends
  split
  next ok => exact fine ok (ends.ok ok)
  next error => exact failed _ _ (ends.error error)

variable {body : σ → Nat → σ × Status}

theorem sliceLoop_rule (ref : TaskRef) {P : σ → Nat → Prop} {s : σ}
    (step : ∀ s offset, c.Cuts request offset → P s offset →
      Ends (P · (offset + (c.slice ref request offset).length)) E (body s offset))
    (before : P s 0) : Ends (P · request.length) E (sliceLoop c request body request.length s 0) := by
  -- from any offset at which the request is cut
  have rounds : ∀ rounds s offset, request.length ≤ offset + rounds → c.Cuts request offset → P s offset →
      Ends (P · request.length) E (sliceLoop c request body rounds s offset) := by
    intro rounds
    induction rounds with
    | zero => exact fun s offset enough cuts _ => absurd cuts.inside (by omega)
    | succ rounds ih =>
      intro s offset enough cuts before
      have here := step s offset cuts before
      have cover := offset_add_length c ref cuts.inside
      have size := c.sliceSize_pos
      rw [sliceLoop, if_pos cuts.inside]
      by_cases more : (body s offset).2 = .ok ∧ c.mergeFinalSlice request offset = false
      · have after := here.ok more.1
        rw [if_neg (by simp [more.2])] at cover
        simp only [if_pos more]
        exact ih _ _ (by omega) (cuts_next cuts more.2) (cover.1 ▸ after)
      · simp only [if_neg more]
        refine here.mono (fun fine after => ?_) (fun _ _ after => after)
        rw [if_pos (by simpa [fine] using more)] at cover
        exact cover ▸ after
  cases length : request.length with
  | zero => exact before
  | succ n =>
    rw [← length]
    exact rounds _ s 0 (by omega) ⟨by omega, Nat.dvd_zero _, .inl rfl⟩ before

variable {submit : Nat → α → σ → σ × Status}

/-- The property may tell the number of the next task and which tasks are left. -/
theorem taskLoop_rule {P : Nat → List α → σ → Prop}
    (step : ∀ task x rest s, P task (x :: rest) s → Ends (P (task + 1) rest) E (submit task x s))
    {task : Nat} {xs : List α} {s : σ} (before : P task xs s) :
    Ends (P (task + xs.length) []) E (taskLoop submit task xs s) := by
  induction xs generalizing task s with
  | nil => exact before
  | cons x rest ih =>
    have here := step task x rest s before
    unfold taskLoop
    by_cases fine : (submit task x s).2 = .ok
    · have after : Ends (P (task + 1 + rest.length) []) E
        (taskLoop submit (task + 1) rest (submit task x s).1) := ih (here.ok fine)
      simp only [if_pos fine]
      rwa [Nat.add_right_comm] at after
    · simp only [if_neg fine]
      exact here.mono (fun ok => absurd ok fine) (fun _ _ after => after)

/-! How two loops end -/

variable {τ β : Type}

theorem sliceLoop_status {body' : τ → Nat → τ × Status}
    (same : ∀ s t offset, (body s offset).2 = (body' t offset).2) (rounds : Nat) (s : σ) (t : τ) (offset : Nat) :
    (sliceLoop c request body rounds s offset).2 = (sliceLoop c request body' rounds t offset).2 := by
  induction rounds generalizing s t offset with
  | zero => rfl
  | succ rounds ih =>
    simp only [sliceLoop, ← same s t offset]
    split
    · split
      · exact ih ..
      · exact same s t offset
    · rfl

theorem taskLoop_status {submit' : Nat → β → τ → τ × Status} {f : α → β}
    (same : ∀ task x s t, (submit task x s).2 = (submit' task (f x) t).2) (task : Nat) (xs : List α) (s : σ) (t : τ) :
    (taskLoop submit task xs s).2 = (taskLoop submit' task (xs.map f) t).2 := by
  induction xs generalizing task s t with
  | nil => rfl
  | cons x rest ih =>
    simp only [List.map_cons, taskLoop, ← same task x s t]
    split
    · exact ih ..
    · exact same task x s t

end

end Rdma

end Mooncake.Engine.Batch
