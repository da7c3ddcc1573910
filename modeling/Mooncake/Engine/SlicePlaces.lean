import Mathlib.Tactic.Abel
import Mooncake.Lib.Ledger
import Mooncake.Engine.EndPoints

/-! Where the slices of a worker pool are: in the queues of the shards, in those of the workers, on the queue
pairs, or, in the middle of a step, in the hand of the thread that takes it. -/
namespace Mooncake.Engine.WorkerPool

open Function Multiset World Table List
namespace World

def inShards (w : World) : Multiset Nat := Table.total (fun _ shard => shard.queue.contents) w.sliceQueue

def inWorkers (w : World) : Multiset Nat := Table.total (fun _ queue => Table.contents queue) w.collectiveSliceQueue

def pending (w : World) : Multiset Nat := w.inShards + w.inWorkers + w.posted

/-- Every slice that was handed over is in one place or marked once. Those in the queues and on the queue pairs
have a retry left. -/
structure Sound (c : Config) (w : World) (hand : Multiset Nat) : Prop where
  balanced : Ledger.Balanced (fun x => (w.slices x).handed) (fun x => (w.slices x).marks) (w.pending + hand)
    w.submittedSliceCount w.processedSliceCount
  queued : ∀ x ∈ w.pending, (w.slices x).retryCnt < (c.request x).maxRetryCnt
  fresh : ∀ x, (w.slices x).handed = false → (w.slices x).retryCnt < (c.request x).maxRetryCnt
  within : ∀ x, (w.slices x).retryCnt ≤ (c.request x).maxRetryCnt
  wellFormed : w.WellFormed

variable {c : Config} {w w' : World} {hand hand' : Multiset Nat} {x threadId : Nat}

theorem pending_congr (shards : w'.sliceQueue = w.sliceQueue)
    (workers : w'.collectiveSliceQueue = w.collectiveSliceQueue) (endpoints : w'.posted = w.posted) :
    w'.pending = w.pending := by
  unfold pending inShards inWorkers
  rw [shards, workers, endpoints]

theorem inShards_insert (w : World) (i : Nat) (shard : Shard) :
    total (fun _ shard => shard.queue.contents) (w.sliceQueue.insert i shard) + (w.shard i).queue.contents =
      w.inShards + shard.queue.contents :=
  total_insert_getD (fun _ shard => contents (Shard.queue shard)) rfl

theorem inShards_push (w : World) (i : Nat) (path : String) (x count : Nat) :
    total (fun _ shard => shard.queue.contents) (w.sliceQueue.insert i ⟨(w.shard i).queue.pushBack path x, count⟩) =
      w.inShards + {x} := by
  have change := inShards_insert w i ⟨(w.shard i).queue.pushBack path x, count⟩
  rw [contents_pushBack, add_left_comm, add_comm] at change
  exact add_left_cancel change

theorem inWorkers_setLocalQueue (w : World) (threadId : Nat) (queue : Queue) :
    (w.setLocalQueue threadId queue).inWorkers + (w.localQueue threadId).contents = w.inWorkers + queue.contents :=
  total_insert_getD (fun _ queue => contents queue) rfl

theorem inWorkers_insert (w : World) (threadId : Nat) (path : String) (sliceList : List Nat) :
    (w.setLocalQueue threadId ((w.localQueue threadId).insert path sliceList)).inWorkers +
      (w.localQueue threadId).listAt path =
      w.inWorkers + sliceList := by
  have queue := inWorkers_setLocalQueue w threadId ((w.localQueue threadId).insert path sliceList)
  have entry := contents_insert (w.localQueue threadId) path sliceList
  apply add_right_cancel (b := (w.localQueue threadId).contents)
  rw [add_right_comm, queue, add_assoc, entry]
  abel

/-! ## Moves -/

theorem Sound.frame (sound : Sound c w hand) (frame : Frame w w') : Sound c w' hand := by
  have pending := pending_congr frame.sliceQueue frame.collective frame.posted
  refine ⟨?_, ?_, ?_, ?_, frame.wellFormed⟩
  · rw [frame.slices, pending, frame.submitted, frame.processed]
    exact sound.balanced
  · rw [frame.slices, pending]
    exact sound.queued
  · rw [frame.slices]
    exact sound.fresh
  · rw [frame.slices]
    exact sound.within

theorem Sound.move (sound : Sound c w hand)
    (alike : ∀ y, (w'.slices y).handed = (w.slices y).handed ∧ (w'.slices y).marks = (w.slices y).marks ∧
      (w'.slices y).retryCnt = (w.slices y).retryCnt) (places : w'.pending + hand' = w.pending + hand)
    (queued : ∀ y ∈ w'.pending, y ∈ w.pending ∨ (w.slices y).retryCnt < (c.request y).maxRetryCnt)
    (submitted : w'.submittedSliceCount = w.submittedSliceCount)
    (processed : w'.processedSliceCount = w.processedSliceCount) (well : w'.WellFormed) : Sound c w' hand' := by
  have handed : (fun y => (w'.slices y).handed) = fun y => (w.slices y).handed := funext fun y => (alike y).1
  have marks : (fun y => (w'.slices y).marks) = fun y => (w.slices y).marks := funext fun y => (alike y).2.1
  refine ⟨?_, fun y member => ?_, fun y new => ?_, fun y => ?_, well⟩
  · rw [handed, marks, places, submitted, processed]
    exact sound.balanced
  · rw [(alike y).2.2]
    exact (queued y member).elim (sound.queued y) id
  · rw [(alike y).2.2]
    exact sound.fresh y ((alike y).1.symm.trans new)
  · rw [(alike y).2.2]
    exact sound.within y

theorem field_update {β : Type} {f : Slice → β} {slice : Slice}
    (slices : w'.slices = Function.update w.slices x slice) (same : f slice = f (w.slices x)) (y : Nat) :
    f (w'.slices y) = f (w.slices y) := by
  rw [slices]
  by_cases here : y = x
  · rw [here, update_self, same]
  · rw [update_of_ne here]

theorem WellFormed.modifySlice (well : w.WellFormed) (x : Nat) {f : Slice → Slice}
    (same : ∀ slice, (f slice).qpDepth = slice.qpDepth) : (w.modifySlice x f).WellFormed := by
  exact ⟨fun id ep found => (well.ok id ep found).congr fun y _ => field_update rfl (same _) y, well.unused⟩

theorem Sound.setPath (sound : Sound c w hand) (x : Nat) (path : String) :
    Sound c (w.modifySlice x (fun slice => { slice with peerNicPath := path })) hand := by
  have well := sound.wellFormed.modifySlice x (f := fun slice => { slice with peerNicPath := path }) fun _ => rfl
  refine sound.move (fun y => ?_) rfl (fun y member => .inl member) rfl rfl well
  by_cases here : y = x
  · subst here
    simp only [modifySlice, update_self, and_self]
  · simp only [modifySlice, update_of_ne here, and_self]

theorem Sound.requeue (sound : Sound c w (hand + {x})) (threadId : Nat) (path : String)
    (left : (w.slices x).retryCnt < (c.request x).maxRetryCnt) :
    Sound c (w.setLocalQueue threadId ((w.localQueue threadId).pushBack path x)) hand := by
  have workers : (w.setLocalQueue threadId ((w.localQueue threadId).pushBack path x)).inWorkers = w.inWorkers + {x} := by
    have change := inWorkers_insert w threadId path ((w.localQueue threadId).listAt path ++ [x])
    rw [← coe_add, add_left_comm, add_comm] at change
    exact add_left_cancel change
  have pending : (w.setLocalQueue threadId ((w.localQueue threadId).pushBack path x)).pending = w.pending + {x} := by
    refine (congrArg (fun m => w.inShards + m + w.posted) workers).trans ?_
    unfold pending
    abel
  refine sound.move (fun _ => ⟨rfl, rfl, rfl⟩) ?_ (fun y member => ?_) rfl rfl
    ⟨sound.wellFormed.ok, sound.wellFormed.unused⟩
  · rw [pending]
    abel
  · rw [pending] at member
    rcases mem_add.mp member with old | new
    · exact .inl old
    · exact .inr (Multiset.mem_singleton.mp new ▸ left)

theorem Sound.settle (sound : Sound c w (hand + {x})) {slice : Slice}
    (slices : w'.slices = Function.update w.slices x slice) (handed : slice.handed = (w.slices x).handed)
    (marks : slice.marks = (w.slices x).marks + 1) (retryCnt : slice.retryCnt = (w.slices x).retryCnt)
    (frame : w'.pending = w.pending) (submitted : w'.submittedSliceCount = w.submittedSliceCount)
    (processed : w'.processedSliceCount = w.processedSliceCount + 1) (well : w'.WellFormed) :
    Sound c w' hand := by
  have other : ∀ y, y ≠ x → w'.slices y = w.slices y := fun y other => by rw [slices, update_of_ne other]
  have here : w'.slices x = slice := by rw [slices, update_self]
  have retries := field_update (f := Slice.retryCnt) slices retryCnt
  have accepted := field_update (f := Slice.handed) slices handed
  refine ⟨?_, fun y member => ?_, fun y new => ?_, fun y => ?_, well⟩
  · have before := sound.balanced
    rw [← add_assoc] at before
    rw [frame, submitted, processed]
    exact before.settle accepted (by rw [here, marks]) fun y ne => by rw [other y ne]
  · rw [frame] at member
    rw [retries y]
    exact sound.queued y member
  · rw [retries y]
    exact sound.fresh y ((accepted y).symm.trans new)
  · rw [retries y]
    exact sound.within y

theorem WellFormed.markFailed (well : w.WellFormed) (x : Nat) : (w.markFailed x).WellFormed :=
  well.modifySlice x (f := fun slice => { slice with status := .failed, marks := slice.marks + 1 }) fun _ => rfl

theorem Sound.markFailed (sound : Sound c w (hand + {x})) : Sound c (w.markFailed x).process hand := by
  have well := sound.wellFormed.markFailed x
  exact sound.settle rfl rfl rfl rfl rfl rfl rfl ⟨well.ok, well.unused⟩

theorem Sound.clearEntry (sound : Sound c w hand) (threadId : Nat) (path : String) :
    Sound c (w.clearEntry threadId path) (hand + (w.localQueue threadId).listAt path) := by
  have workers : (w.clearEntry threadId path).inWorkers + (w.localQueue threadId).listAt path = w.inWorkers :=
    (inWorkers_insert w threadId path []).trans (add_zero _)
  have places : w.pending = (w.clearEntry threadId path).pending + (w.localQueue threadId).listAt path := by
    calc w.pending
      _ = w.inShards + ((w.clearEntry threadId path).inWorkers + (w.localQueue threadId).listAt path) + w.posted := by
        rw [workers]
        rfl
      _ = w.inShards + (w.clearEntry threadId path).inWorkers + w.posted + (w.localQueue threadId).listAt path := by abel
      _ = (w.clearEntry threadId path).pending + (w.localQueue threadId).listAt path := rfl
  refine sound.move (fun _ => ⟨rfl, rfl, rfl⟩) ?_ (fun y member => .inl ?_) rfl rfl
    ⟨sound.wellFormed.ok, sound.wellFormed.unused⟩
  · rw [places]
    abel
  · rw [places]
    exact mem_add.mpr (.inl member)

/-! ## `submitPostSend` -/

theorem Sound.enqueue (sound : Sound c w hand) (new : (w.slices x).handed = false) (device : Nat × String) :
    Sound c (w.enqueue c x device) hand := by
  have shards : (w.enqueue c x device).inShards = w.inShards + {x} := inShards_push w _ device.2 x _
  have pending : (w.enqueue c x device).pending = w.pending + {x} := by
    unfold pending
    rw [shards, add_right_comm w.inShards, add_right_comm]
    rfl
  have other : ∀ y, y ≠ x → (w.enqueue c x device).slices y = w.slices y := fun y ne => update_of_ne ne _ _
  have here : (w.enqueue c x device).slices x = { w.slices x with handed := true, peerNicPath := device.2 } :=
    update_self ..
  have retries : ∀ y, ((w.enqueue c x device).slices y).retryCnt = (w.slices y).retryCnt := field_update rfl rfl
  refine ⟨?_, fun y member => ?_, fun y unseen => ?_, fun y => ?_, ?_⟩
  · have places : (w.enqueue c x device).pending + hand = w.pending + hand + {x} := by
      rw [pending, add_right_comm]
    rw [places]
    refine sound.balanced.accept new (by rw [here]) (fun y ne => by rw [other y ne]) (field_update rfl rfl)
  · rw [retries y]
    rw [pending] at member
    rcases mem_add.mp member with old | added
    · exact sound.queued y old
    · rw [Multiset.mem_singleton.mp added]
      exact sound.fresh x new
  · rw [retries y]
    by_cases same : y = x
    · rw [same, here] at unseen
      cases unseen
    · rw [other y same] at unseen
      exact sound.fresh y unseen
  · rw [retries y]
    exact sound.within y
  · have well := sound.wellFormed.modifySlice x
      (f := fun slice => { slice with handed := true, peerNicPath := device.2 }) fun _ => rfl
    exact ⟨well.ok, well.unused⟩

theorem refuse_slices (w : World) (x : Nat) : (w.refuse x).slices =
    Function.update w.slices x { w.slices x with handed := true, status := .failed, marks := (w.slices x).marks + 1 } := by
  simp only [refuse, markFailed, modifySlice, update_self, update_idem]

theorem Sound.refuse (sound : Sound c w hand) (new : (w.slices x).handed = false) :
    Sound c (w.refuse x) hand := by
  have other : ∀ y, y ≠ x → (w.refuse x).slices y = w.slices y := fun y ne => by rw [refuse_slices, update_of_ne ne]
  have here : (w.refuse x).slices x =
    { w.slices x with handed := true, status := .failed, marks := (w.slices x).marks + 1 } := by
    rw [refuse_slices, update_self]
  have retries := field_update (f := Slice.retryCnt) (refuse_slices w x) rfl
  refine ⟨?_, fun y member => ?_, fun y unseen => ?_, fun y => ?_, ?_⟩
  · exact sound.balanced.refuse new (by rw [here]) (by rw [here]) fun y ne => by rw [other y ne]; exact ⟨rfl, rfl⟩
  · rw [retries y]
    exact sound.queued y member
  · rw [retries y]
    by_cases same : y = x
    · rw [same]
      exact sound.fresh x new
    · rw [other y same] at unseen
      exact sound.fresh y unseen
  · rw [retries y]
    exact sound.within y
  · have taken := sound.wellFormed.modifySlice x (f := fun slice => { slice with handed := true }) fun _ => rfl
    exact taken.markFailed x

theorem submitSlice_cases (view : Metadata) (s : World × Targets) (x : Nat) :
    (∃ device, (submitSlice c view s x).1 = s.1.enqueue c x device) ∨ (submitSlice c view s x).1 = s.1.refuse x := by
  unfold submitSlice
  dsimp only
  split
  · exact .inr rfl
  · split
    next device _ => exact .inl ⟨device, rfl⟩
    · split
      · exact .inr rfl
      · split
        next device _ => exact .inl ⟨device, rfl⟩
        · exact .inr rfl

theorem Sound.submitSlice (sound : Sound c w hand) (new : (w.slices x).handed = false) (view : Metadata)
    (targets : Targets) :
    Sound c (submitSlice c view (w, targets) x).1 hand ∧
      ∀ y, y ≠ x → (submitSlice c view (w, targets) x).1.slices y = w.slices y := by
  rcases submitSlice_cases (c := c) view (w, targets) x with ⟨device, queued⟩ | marked
  · rw [queued]
    exact ⟨sound.enqueue new device, fun y ne => update_of_ne ne _ _⟩
  · rw [marked]
    exact ⟨sound.refuse new, fun y ne => by rw [refuse_slices, update_of_ne ne]⟩

theorem Sound.submitAll {sliceList : List Nat} (sound : Sound c w hand) (distinct : sliceList.Nodup)
    (new : ∀ x ∈ sliceList, (w.slices x).handed = false) (view : Metadata) (targets : Targets) :
    Sound c (sliceList.foldl (World.submitSlice c view) (w, targets)).1 hand := by
  induction sliceList generalizing w targets with
  | nil => exact sound
  | cons x rest ih =>
    obtain ⟨absent, distinct⟩ := nodup_cons.mp distinct
    obtain ⟨first, others⟩ := sound.submitSlice (new x mem_cons_self) view targets
    refine ih first distinct (fun y member => ?_) (World.submitSlice c view (w, targets) x).2
    rw [others y (ne_of_mem_of_not_mem member absent)]
    exact new y (mem_cons_of_mem _ member)

/-! ## `performPostSend` -/

theorem contents_pushEntries (es : List (Sigma fun _ : String => List Nat)) : ∀ queue : Queue,
    (es.foldl (fun queue e => queue.pushAll e.1 e.2) queue).contents =
      queue.contents + Multiset.ofList (es.flatMap (·.2)) := by
  induction es with
  | nil => exact fun queue => (add_zero _).symm
  | cons e rest ih =>
    intro queue
    rw [List.foldl_cons, ih, contents_pushAll, List.flatMap_cons, ← coe_add, add_assoc]

theorem contents_cleared (queue : Queue) : contents (queue.mapValues (fun _ => ([] : List Nat))) = 0 := by
  rw [contents_eq]
  refine (coe_eq_zero _).mpr (flatMap_eq_nil_iff.mpr fun e member => ?_)
  obtain ⟨e', -, rfl⟩ := mem_map.mp member
  rfl

theorem moved {a a' b b' m : Multiset Nat} (less : a' + m = a) (more : b' = b + m) (rest : Multiset Nat) :
    a' + b' + rest = a + b + rest := by
  rw [more, ← less]
  abel

theorem pending_drainShard (w : World) (threadId shardId : Nat) :
    (w.drainShard threadId shardId).pending = w.pending := by
  unfold drainShard
  dsimp only
  split
  · rfl
  · have shards := inShards_insert w shardId ⟨(w.shard shardId).queue.mapValues (fun _ => []), 0⟩
    rw [contents_cleared, add_zero] at shards
    have workers := inWorkers_setLocalQueue w threadId
      ((w.shard shardId).queue.entries.foldl (fun queue e => queue.pushAll e.1 e.2) (w.localQueue threadId))
    rw [contents_pushEntries, ← contents_eq, add_left_comm, add_comm] at workers
    exact moved shards (add_left_cancel workers) w.posted

theorem Sound.drainShard (sound : Sound c w hand) (shardId : Nat) : Sound c (w.drainShard threadId shardId) hand := by
  have places := pending_drainShard w threadId shardId
  have same : (w.drainShard threadId shardId).slices = w.slices ∧
      (w.drainShard threadId shardId).submittedSliceCount = w.submittedSliceCount ∧
      (w.drainShard threadId shardId).processedSliceCount = w.processedSliceCount ∧
        (w.drainShard threadId shardId).WellFormed := by
    unfold World.drainShard
    dsimp only
    split
    · exact ⟨rfl, rfl, rfl, sound.wellFormed⟩
    · exact ⟨rfl, rfl, rfl, ⟨sound.wellFormed.ok, sound.wellFormed.unused⟩⟩
  obtain ⟨slices, submitted, processed, well⟩ := same
  refine sound.move (fun y => ?_) (by rw [places]) (fun y member => .inl (places ▸ member)) submitted processed well
  rw [slices]
  exact ⟨rfl, rfl, rfl⟩

theorem Sound.drainAll (sound : Sound c w hand) (shards : List Nat) :
    Sound c (shards.foldl (World.drainShard threadId) w) hand := by
  induction shards generalizing w with
  | nil => exact sound
  | cons i rest ih => exact ih (sound.drainShard i)

theorem Sound.redispatchSlice (sound : Sound c w (hand + {x})) (view : Metadata) :
    Sound c (w.redispatchSlice c view threadId x) hand := by
  unfold World.redispatchSlice
  dsimp only
  split
  · exact sound.markFailed
  next left =>
    split
    · exact sound.markFailed
    next device _ =>
      refine (sound.setPath x device.2).requeue threadId device.2 ?_
      simp only [modifySlice, update_self]
      exact Nat.lt_of_not_le left

theorem Sound.redispatch {sliceList : List Nat} (sound : Sound c w sliceList) (view : Metadata) :
    Sound c (w.redispatch c view threadId sliceList) 0 := by
  induction sliceList generalizing w with
  | nil => exact sound
  | cons x rest ih =>
    rw [← cons_coe, ← singleton_add, add_comm] at sound
    exact ih (sound.redispatchSlice view)

theorem Sound.retry (sound : Sound c w hand) (member : x ∈ hand)
    (left : (w.slices x).retryCnt < (c.request x).maxRetryCnt) : Sound c (w.retry x) hand := by
  have other : ∀ y, y ≠ x → (w.retry x).slices y = w.slices y := fun y ne => update_of_ne ne _ _
  have here : (w.retry x).slices x = { w.slices x with retryCnt := (w.slices x).retryCnt + 1 } := update_self ..
  have absent : x ∉ w.pending := fun queued =>
    disjoint_left.mp (nodup_add.mp sound.balanced.nodup).2.2 queued member
  have known : (w.slices x).handed = true := sound.balanced.of_mem (mem_add.mpr (.inr member))
  have handed : (fun y => ((w.retry x).slices y).handed) = fun y => (w.slices y).handed := funext (field_update rfl rfl)
  have marks : (fun y => ((w.retry x).slices y).marks) = fun y => (w.slices y).marks := funext (field_update rfl rfl)
  refine ⟨?_, fun y queued => ?_, fun y new => ?_, fun y => ?_, ?_⟩
  · rw [handed, marks]
    exact sound.balanced
  · rw [other y fun same => absent (same ▸ queued)]
    exact sound.queued y queued
  · have unseen : (w.slices y).handed = false := (congrFun handed y).symm.trans new
    rw [other y fun same => Bool.false_ne_true (unseen.symm.trans (same ▸ known))]
    exact sound.fresh y unseen
  · by_cases same : y = x
    · rw [same, here]
      exact left
    · rw [other y same]
      exact sound.within y
  · exact sound.wellFormed.modifySlice x (f := fun slice => { slice with retryCnt := slice.retryCnt + 1 }) fun _ => rfl

theorem Sound.retryAll (sound : Sound c w hand) {failed : List Nat} (members : ∀ x ∈ failed, x ∈ hand)
    (distinct : failed.Nodup) (left : ∀ x ∈ failed, (w.slices x).retryCnt < (c.request x).maxRetryCnt) :
    Sound c (failed.foldl World.retry w) hand := by
  induction failed generalizing w with
  | nil => exact sound
  | cons x rest ih =>
    obtain ⟨absent, distinct⟩ := nodup_cons.mp distinct
    have first := sound.retry (members x mem_cons_self) (left x mem_cons_self)
    refine ih first (fun y member => members y (mem_cons_of_mem _ member)) distinct fun y member => ?_
    have other : (w.retry x).slices y = w.slices y := update_of_ne (ne_of_mem_of_not_mem member absent) _ _
    rw [other]
    exact left y (mem_cons_of_mem _ member)

end World

end Mooncake.Engine.WorkerPool
