import Mooncake.Engine.Submission

/-! Slice objects are not shared, as long as no submission has to give back slices that wait to be posted: they
stay in the lists of their tasks. -/
namespace Mooncake.Engine.Batch
open World Option List TransferTask

/-! ## Slices that get counted -/

def Open (w : World) (ref : TaskRef) : Prop := ∃ t, w.taskAt ref = some t ∧ t.isFinished = false

def Counts (f : TransferTask → TransferTask) : Prop :=
  ∀ t, ∃ totalBytes, f t = { t with totalBytes := totalBytes, sliceCount := t.sliceCount + 1 }

section
variable {w w' : World} {pool : List Nat} {ref r : TaskRef} {x : Nat} {slice : Slice} {f : TransferTask → TransferTask}

theorem Open.changed (unfinished : Open w r)
    (changes : w'.taskAt r = if r = ref then (w.taskAt r).map f else w.taskAt r)
    (same : ∀ t, (f t).isFinished = t.isFinished) : Open w' r := by
  obtain ⟨t, found, running⟩ := unfinished
  unfold Open
  rw [changes, found]
  split
  · exact ⟨f t, rfl, (same t).trans running⟩
  · exact ⟨t, rfl, running⟩

theorem Open.modify (unfinished : Open w r) (same : ∀ t, (f t).isFinished = t.isFinished) :
    Open (w.modifyTask ref f) r :=
  unfinished.changed (taskAt_modifyTask w ref f r) same

theorem Open.draw (unfinished : Open w r) (draws : Draws w slice w' x) : Open w' r :=
  unfinished.changed (draws.tasks r) (fun _ => rfl)

theorem waiting_append_singleton (w : World) (pool : List Nat) (x : Nat) (ref : TaskRef) :
    w.waiting (pool ++ [x]) ref = w.waiting pool ref + if (w.slices x).task = ref then 1 else 0 := by
  unfold waiting
  rw [countP_append, countP_singleton]
  simp only [decide_eq_true_eq]

theorem Counts.keeps (counts : Counts f) (t : TransferTask) :
    (f t).sliceList = t.sliceList ∧ (f t).isFinished = t.isFinished ∧ (f t).sliceCount = t.sliceCount + 1 ∧
      (f t).successSliceCount = t.successSliceCount ∧ (f t).failedSliceCount = t.failedSliceCount := by
  obtain ⟨totalBytes, same⟩ := counts t
  rw [same]
  exact ⟨rfl, rfl, rfl, rfl, rfl⟩

theorem Counted.post (owned : Owned w) (counted : Counted w pool) (unfinished : Open w slice.task)
    (draws : Draws w slice w' x) (counts : Counts f) :
    Owned (w'.modifyTask slice.task f) ∧ Counted (w'.modifyTask slice.task f) (pool ++ [x]) := by
  obtain ⟨absent, after⟩ := counted.draw owned draws
  obtain ⟨t, found, running⟩ := unfinished
  have points : (w'.slices x).task = slice.task := by rw [draws.slices, Function.update_self]
  have here : w'.taskAt slice.task = some { t with sliceList := t.sliceList ++ [x] } := by
    rw [draws.tasks, if_pos rfl, found]
    rfl
  refine ⟨(owned.draw draws).modify (fun t => (counts.keeps t).1), after.modify ?_ ?_ (fun t => (counts.keeps t).1) ?_ ?_⟩
  · exact nodup_append.mpr ⟨counted.once, nodup_singleton x, fun y member z last same =>
      absent (mem_singleton.mp last ▸ same ▸ member)⟩
  · intro y member
    rcases mem_append.mp member with old | new
    · exact after.listed y old
    · cases mem_singleton.mp new
      exact ⟨_, points ▸ here, mem_append_right _ (mem_singleton.mpr rfl)⟩
  · intro r other
    rw [waiting_append_singleton, if_neg (fun same => other (same.symm.trans points))]
    exact Nat.le_refl _
  · intro t' found'
    cases here.symm.trans found'
    obtain ⟨-, finished, count, success, failed⟩ := counts.keeps { t with sliceList := t.sliceList ++ [x] }
    have enough := after.counted slice.task _ here
    rw [waiting_append_singleton, if_pos points, count, success, failed, finished]
    exact ⟨by omega, fun ceased => (nomatch running.symm.trans ceased)⟩

end

/-! ## A call -/

/-- In the middle of a call: the slices that wait to be posted count as handed over. -/
structure Posting.Sound (refs : List TaskRef) (p : Posting) : Prop where
  owned : Owned p.world
  counted : Counted p.world (p.world.pool ++ p.slicesToPost)
  unfinished : ∀ ref ∈ refs, Open p.world ref

/-- A call that fails for want of a device has given back what was waiting. -/
def Posting.Failed (refs : List TaskRef) (status : Status) (p : Posting) : Prop :=
  (status = .addressNotRegistered → p.slicesToPost = []) → p.Sound refs

namespace Rdma
variable {c : GlobalConfig} {d : Devices} {thread task : Nat} {ref : TaskRef} {request : TransferRequest}
  {refs : List TaskRef}

theorem sliceBody_sound {p : Posting} {offset : Nat} (sound : p.Sound refs) (member : ref ∈ refs) :
    Ends (Posting.Sound refs) (Posting.Failed refs) (sliceBody c d thread task ref request p offset) := by
  obtain ⟨t, found, running⟩ := sound.unfinished ref member
  obtain ⟨w, x, draws, result⟩ := sliceBody_cases c d thread task request offset found
  have ended (n : Nat) : Posting.Sound refs ⟨w, p.slicesToPost, n⟩ :=
    ⟨sound.owned.draw draws, draws.pool.symm ▸ (sound.counted.draw sound.owned draws).2,
      fun r other => (sound.unfinished r other).draw draws⟩
  rcases result with ⟨-, n, same⟩ | ⟨chosen, -, ⟨-, n, same⟩ | ⟨-, next, posted, same⟩⟩
  · rw [same]
    intro empty
    have waits : p.slicesToPost = [] := empty rfl
    have sound := ended n
    rw [waits] at sound ⊢
    exact sound
  · rw [same]
    exact fun _ => ended n
  · obtain ⟨owned, counted⟩ := Counted.post sound.owned sound.counted (sound.unfinished ref member) draws
      (f := fun t =>
        { t with totalBytes := t.totalBytes + (c.slice ref request offset).length, sliceCount := t.sliceCount + 1 })
      (fun t => ⟨_, rfl⟩)
    obtain ⟨pool, world⟩ := posted.world
    rw [same]
    refine ⟨?_, ?_, fun r other => ?_⟩
    · rw [world]
      exact owned.withPool pool
    · rw [posted.pending, world]
      exact counted.withPool pool
    · rw [world]
      exact ((sound.unfinished r other).draw draws).modify (fun _ => rfl)

theorem taskLoop_sound (thread : Nat) {tasks : List (TaskRef × TransferRequest)} {p : Posting} (sound : p.Sound refs)
    (members : ∀ task ∈ tasks, task.1 ∈ refs) :
    Ends (Posting.Sound refs) (Posting.Failed refs) (taskLoop (submitTask c d thread) 0 tasks p) := by
  let P (_ : Nat) (rest : List (TaskRef × TransferRequest)) (p : Posting) : Prop :=
    p.Sound refs ∧ ∀ task ∈ rest, task.1 ∈ refs
  have loops : Ends (P tasks.length []) (Posting.Failed refs) (taskLoop (submitTask c d thread) 0 tasks p) := by
    rw [← Nat.zero_add tasks.length]
    refine taskLoop_rule (P := P) (fun task x rest p before => ?_) ⟨sound, members⟩
    obtain ⟨sound, left⟩ := before
    have slices : Ends (Posting.Sound refs) (Posting.Failed refs) (submitTask c d thread task x p) :=
      sliceLoop_rule x.1 (P := fun p _ => Posting.Sound refs p)
        (fun p offset _ before => sliceBody_sound before (left _ mem_cons_self))
          ⟨sound.owned, sound.counted, sound.unfinished⟩
    exact slices.mono (fun _ after => ⟨after, fun task later => left task (mem_cons_of_mem _ later)⟩)
      (fun _ _ after => after)
  exact loops.mono (fun _ both => both.1) (fun _ _ after => after)

/-- What a call gives back to the cache, if it fails for want of a device. -/
def givenBack (c : GlobalConfig) (d : Devices) (thread : Nat) (tasks : List (TaskRef × TransferRequest))
    (w : World) : List Nat :=
  let r := taskLoop (submitTask c d thread) 0 tasks ⟨w, [], 0⟩
  if r.2 = .addressNotRegistered then r.1.slicesToPost else []

end Rdma

structure World.Sound (w : World) : Prop where
  owned : Owned w
  counted : Counted w w.pool

section
variable {c : GlobalConfig} {w : World} {refs : List TaskRef} {tasks : List (TaskRef × TransferRequest)}

theorem Rdma.submitTransferTask_sound (thread : Nat) {d : Devices} (sound : w.Sound)
    (unfinished : ∀ ref ∈ refs, Open w ref) (members : ∀ task ∈ tasks, task.1 ∈ refs)
    (kept : Rdma.givenBack c d thread tasks w = []) :
    (Rdma.submitTransferTask c d thread tasks w).1.Sound ∧
      ∀ ref ∈ refs, Open (Rdma.submitTransferTask c d thread tasks w).1 ref := by
  have begun : Posting.Sound refs ⟨w, [], 0⟩ := ⟨sound.owned, (append_nil w.pool).symm ▸ sound.counted, unfinished⟩
  have loops := Rdma.taskLoop_sound (c := c) (d := d) thread begun members
  simp only [Rdma.submitTransferTask]
  split
  next fine =>
    have after := loops.ok fine
    exact ⟨⟨after.owned.withPool _, after.counted.withPool _⟩, after.unfinished⟩
  next failed =>
    have after := loops.error failed fun missing => by simpa [Rdma.givenBack, missing] using kept
    exact ⟨⟨after.owned, after.counted.sublist (sublist_append_left _ _)⟩, after.unfinished⟩

theorem Tcp.taskBody_sound (thread : Nat) {task : TaskRef × TransferRequest} (sound : w.Sound)
    (unfinished : ∀ ref ∈ refs, Open w ref) (member : task.1 ∈ refs) :
    (Tcp.taskBody thread w task).Sound ∧ ∀ ref ∈ refs, Open (Tcp.taskBody thread w task) ref := by
  obtain ⟨t, found, running⟩ := unfinished task.1 member
  have draws := draw_draws thread ⟨task.2.source, task.2.length, task.2.targetOffset, task.2.targetId, 0, 0, task.1⟩ found
  obtain ⟨owned, counted⟩ := Counted.post sound.owned sound.counted ⟨t, found, running⟩ draws
    (f := fun t => { t with totalBytes := task.2.length, sliceCount := t.sliceCount + 1 }) (fun t => ⟨_, rfl⟩)
  refine ⟨⟨owned.withPool _, ?_⟩, fun ref other => ((unfinished ref other).draw draws).modify (fun _ => rfl)⟩
  simp only [Tcp.taskBody, pool_modifyTask, draws.pool]
  exact counted.withPool _

theorem Tcp.submitTransferTask_sound (thread : Nat) (sound : w.Sound) (unfinished : ∀ ref ∈ refs, Open w ref)
    (members : ∀ task ∈ tasks, task.1 ∈ refs) :
    (Tcp.submitTransferTask thread tasks w).Sound ∧ ∀ ref ∈ refs, Open (Tcp.submitTransferTask thread tasks w) ref := by
  induction tasks generalizing w with
  | nil => exact ⟨sound, unfinished⟩
  | cons task rest ih =>
    obtain ⟨here, still⟩ := Tcp.taskBody_sound thread sound unfinished (members task mem_cons_self)
    exact ih here still (fun task later => members task (mem_cons_of_mem _ later))

end

/-! ## Other changes of one task -/

section
variable {w : World} {ref : TaskRef} {f : TransferTask → TransferTask}

theorem World.Sound.modify (sound : w.Sound) (same : ∀ t, (f t).sliceList = t.sliceList)
    (here : ∀ t, w.taskAt ref = some t →
      (f t).successSliceCount + (f t).failedSliceCount + w.waiting w.pool ref ≤ (f t).sliceCount ∧
        ((f t).isFinished = true → w.waiting w.pool ref = 0)) : (w.modifyTask ref f).Sound := by
  refine ⟨sound.owned.modify same, ?_⟩
  rw [pool_modifyTask]
  exact sound.counted.modify sound.counted.once sound.counted.listed same (fun _ _ => Nat.le_refl _) here

theorem World.Sound.setRequest (sound : w.Sound) (ref : TaskRef) (request : TransferRequest) :
    (w.modifyTask ref (fun t => { t with request := some request })).Sound :=
  sound.modify (fun _ => rfl) (fun t found => ⟨sound.counted.counted ref t found, sound.counted.finished ref t found⟩)

theorem World.Sound.poll (sound : w.Sound) (ref : TaskRef) :
    (w.modifyTask ref (fun t =>
      if t.successSliceCount + t.failedSliceCount = t.sliceCount then { t with isFinished := true } else t)).Sound := by
  refine sound.modify (fun t => by split <;> rfl) (fun t found => ?_)
  have counted := sound.counted.counted ref t found
  split
  next all => exact ⟨counted, fun _ => by omega⟩
  next => exact ⟨counted, sound.counted.finished ref t found⟩

theorem waiting_erase {pool : List Nat} {x : Nat} (member : x ∈ pool) (ref : TaskRef) :
    w.waiting (pool.erase x) ref + (if (w.slices x).task = ref then 1 else 0) = w.waiting pool ref := by
  unfold waiting
  rw [(perm_cons_erase member).countP_eq, countP_cons]
  simp only [decide_eq_true_eq]

theorem World.Sound.mark {x : Nat} (sound : w.Sound) (member : x ∈ w.pool)
    (same : ∀ t, (f t).sliceList = t.sliceList)
    (counts : ∀ t, (f t).successSliceCount + (f t).failedSliceCount = t.successSliceCount + t.failedSliceCount + 1 ∧
      (f t).sliceCount = t.sliceCount ∧ (f t).isFinished = t.isFinished) :
    ({ w.modifyTask (w.slices x).task f with pool := w.pool.erase x } : World).Sound := by
  have fewer : (w.pool.erase x).Sublist w.pool := erase_sublist
  refine ⟨(sound.owned.modify same).withPool _, Counted.withPool (sound.counted.modify (sound.counted.once.sublist fewer)
    (fun y later => sound.counted.listed y (fewer.subset later)) same (fun r _ => fewer.countP_le) (fun t found => ?_)) _⟩
  obtain ⟨marks, count, finished⟩ := counts t
  have less := waiting_erase (w := w) member (w.slices x).task
  rw [if_pos rfl] at less
  have counted := sound.counted.counted _ t found
  refine ⟨by omega, fun ceased => ?_⟩
  have := sound.counted.finished _ t found (finished ▸ ceased)
  omega

end

/-! ## The other parts of a call -/

section
variable {w : World} {batchId : Nat} {batch : BatchDesc}

theorem flatMap_replicate_new (n : Nat) : (List.replicate n new).flatMap sliceList = [] :=
  flatMap_eq_nil_iff.mpr (fun t member => by rw [eq_of_mem_replicate member]; rfl)

theorem taskAt_resize (found : w.batches.lookup batchId = some batch) (n : Nat) (ref : TaskRef) :
    (w.resize batchId batch n).taskAt ref =
      if ref.1 = batchId ∧ batch.taskList.length ≤ ref.2 then
        (if ref.2 < batch.taskList.length + n then some .new else none)
      else w.taskAt ref := by
  obtain ⟨b, i⟩ := ref
  unfold taskAt resize
  by_cases same : b = batchId
  · subst same
    simp only [AList.lookup_insert, bind_some, found, true_and]
    split
    next behind =>
      rw [getElem?_append_right behind, getElem?_replicate]
      split <;> split <;> first | rfl | omega
    next inside => rw [getElem?_append_left (Nat.lt_of_not_le inside)]
  · simp [AList.lookup_insert_ne same, same]

theorem taskAt_behind {ref : TaskRef} (found : w.batches.lookup batchId = some batch) (same : ref.1 = batchId)
    (behind : batch.taskList.length ≤ ref.2) : w.taskAt ref = none := by
  unfold taskAt
  rw [same, found, bind_some]
  exact getElem?_eq_none behind

theorem Counted.waiting_missing {pool : List Nat} {ref : TaskRef} (counted : Counted w pool)
    (missing : w.taskAt ref = none) : w.waiting pool ref = 0 := by
  unfold waiting
  rw [countP_eq_zero]
  intro x member
  obtain ⟨t, found, -⟩ := counted.listed x member
  simp only [decide_eq_true_eq]
  rintro rfl
  exact nomatch missing.symm.trans found

theorem World.Sound.resize (sound : w.Sound) (found : w.batches.lookup batchId = some batch) (n : Nat) :
    (w.resize batchId batch n).Sound := by
  have holdings : (w.resize batchId batch n).holdings = w.holdings := by
    unfold World.holdings listed World.resize
    simp only [Table.total_insert]
    rw [Table.total_erase _ found, flatMap_append, flatMap_replicate_new, append_nil]
    rfl
  have tasks := taskAt_resize found n
  -- a task of the new list is an old one, or has nothing
  have cases_task {ref : TaskRef} {t : TransferTask} (here : (if ref.1 = batchId ∧ batch.taskList.length ≤ ref.2 then
      (if ref.2 < batch.taskList.length + n then some new else none) else w.taskAt ref) = some t) :
      w.taskAt ref = some t ∨ (t = .new ∧ w.taskAt ref = none) := by
    split at here
    next behind =>
      split at here
      · exact .inr ⟨(some.inj here).symm, taskAt_behind found behind.1 behind.2⟩
      · cases here
    next => exact .inl here
  refine ⟨⟨holdings ▸ sound.owned.nodup, fun x member => sound.owned.known x (holdings ▸ member), ?_, ?_⟩,
    ⟨sound.counted.once, ?_, ?_, ?_⟩⟩
  · intro ref t x here inside
    rcases cases_task ((tasks ref).symm.trans here) with old | ⟨rfl, -⟩
    · exact sound.owned.own ref t x old inside
    · cases inside
  · intro b above
    by_cases same : b = batchId
    · subst same
      exact nomatch (sound.owned.fresh b above).symm.trans found
    · exact (AList.lookup_insert_ne same).trans (sound.owned.fresh b above)
  · intro x member
    obtain ⟨t, old, inside⟩ := sound.counted.listed x member
    refine ⟨t, (tasks _).trans ((if_neg ?_).trans old), inside⟩
    rintro ⟨same, behind⟩
    exact nomatch old.symm.trans (taskAt_behind found same behind)
  · intro ref t here
    rcases cases_task ((tasks ref).symm.trans here) with old | ⟨rfl, missing⟩
    · exact sound.counted.counted ref t old
    · have none := sound.counted.waiting_missing missing
      exact Nat.le_of_eq ((Nat.zero_add _).trans none)
  · intro ref t here ceased
    rcases cases_task ((tasks ref).symm.trans here) with old | ⟨rfl, missing⟩
    · exact sound.counted.finished ref t old ceased
    · cases ceased

theorem assignLoop_rule {P : World → Prop}
    (keeps : ∀ w ref request, P w → P (w.modifyTask ref (fun t => { t with request := some request })))
    (select : Nat → Except Status Transport) (batchId taskId : Nat) (entries : List TransferRequest)
    (tasks : SubmitTasks) (before : P w) : P (assignLoop select batchId taskId entries w tasks).1 := by
  induction entries generalizing taskId w tasks with
  | nil => exact before
  | cons request rest ih =>
    unfold assignLoop
    split
    · exact before
    · exact ih (taskId + 1) _ (keeps w _ request before)

def SubmitTasks.of (tasks : SubmitTasks) : Transport → List (TaskRef × TransferRequest)
  | .rdma => tasks.rdma
  | .tcp => tasks.tcp

theorem assignLoop_tasks {select : Nat → Except Status Transport} {taskId first n : Nat}
    {entries : List TransferRequest} {tasks tasks' : SubmitTasks} (low : first ≤ taskId)
    (high : taskId + entries.length ≤ first + n)
    (done : (assignLoop select batchId taskId entries w tasks).2 = .ok tasks') (transport : Transport) :
    ∀ task ∈ tasks'.of transport, task ∈ tasks.of transport ∨
      (∃ j < n, (batchId, first + j) = task.1) ∧ task.2 ∈ entries := by
  induction entries generalizing taskId w tasks with
  | nil =>
    cases Except.ok.inj done
    exact fun _ member => .inl member
  | cons request rest ih =>
    simp only [length_cons] at high
    unfold assignLoop at done
    split at done
    · cases done
    next chosen _ =>
      intro task member
      have place : ∃ j < n, (batchId, first + j) = (batchId, taskId) := ⟨taskId - first, by omega, by congr 1; omega⟩
      rcases ih (by omega) (by omega) done task member with before | ⟨place', inside⟩
      · cases transport <;> cases chosen
        case rdma.tcp | tcp.rdma => exact .inl before
        case rdma.rdma | tcp.tcp =>
          rcases mem_append.mp before with before | new
          · exact .inl before
          · cases mem_singleton.mp new
            exact .inr ⟨place, mem_cons_self⟩
      · exact .inr ⟨place', mem_cons_of_mem _ inside⟩

end

/-! ## Steps -/

def SubmitTasks.beforeRdma (tasks : SubmitTasks) (e : Surroundings) (thread : Nat) (w : World) : World :=
  if e.rdmaFirst then w else Tcp.submitTransferTask thread tasks.tcp w

/-- What a submission gives back to the cache, if it finds no active device for a slice of an RDMA request. -/
def World.givenBack (c : GlobalConfig) (w : World) : Event → List Nat
  | .submitTransfer thread batchId entries e =>
    match w.batches.lookup batchId with
    | none => []
    | some batch =>
      if batch.batchSize < batch.taskList.length + entries.length then []
      else
        match assignLoop e.selectTransport batchId batch.taskList.length entries
          (w.resize batchId batch entries.length) ⟨[], []⟩ with
        | (_, .error _) => []
        | (w, .ok tasks) => Rdma.givenBack c e.devices thread tasks.rdma (tasks.beforeRdma e thread w)
  | _ => []

section
variable {c : GlobalConfig} {w w' : World}

variable {status : Status} {entries : List TransferRequest} {e : Surroundings}

theorem World.Sound.submitTasks (sound : w.Sound) {thread : Nat} {tasks : SubmitTasks} {refs : List TaskRef}
    (unfinished : ∀ ref ∈ refs, Open w ref) (rdma : ∀ task ∈ tasks.rdma, task.1 ∈ refs)
    (tcp : ∀ task ∈ tasks.tcp, task.1 ∈ refs)
    (kept : Rdma.givenBack c e.devices thread tasks.rdma (tasks.beforeRdma e thread w) = [])
    (done : w.submitTasks c e thread tasks = (w', status)) : w'.Sound := by
  unfold World.submitTasks at done
  unfold SubmitTasks.beforeRdma at kept
  split at done
  next first =>
    rw [if_pos first] at kept
    obtain ⟨after, still⟩ := Rdma.submitTransferTask_sound thread sound unfinished rdma kept
    cases done
    exact (Tcp.submitTransferTask_sound thread after still tcp).1
  next last =>
    rw [if_neg last] at kept
    obtain ⟨after, still⟩ := Tcp.submitTransferTask_sound thread sound unfinished tcp
    have result := (Rdma.submitTransferTask_sound thread after still rdma kept).1
    rw [done] at result
    exact result

def newRefs (batchId first n : Nat) : List TaskRef := (List.range n).map (fun j => (batchId, first + j))

theorem World.Sound.assignLoop (sound : w.Sound) {batchId : Nat} {batch : BatchDesc}
    (found : w.batches.lookup batchId = some batch) {select : Nat → Except Status Transport}
    {result : Except Status SubmitTasks}
    (assigned : assignLoop select batchId batch.taskList.length entries (w.resize batchId batch entries.length)
      ⟨[], []⟩ = (w', result)) :
    (w'.Sound ∧ ∀ ref ∈ newRefs batchId batch.taskList.length entries.length, Open w' ref) ∧
      ∀ tasks, result = .ok tasks → ∀ transport, ∀ task ∈ tasks.of transport,
        task.1 ∈ newRefs batchId batch.taskList.length entries.length ∧ task.2 ∈ entries := by
  have unfinished : ∀ ref ∈ newRefs batchId batch.taskList.length entries.length,
      Open (w.resize batchId batch entries.length) ref := by
    intro ref member
    obtain ⟨j, inside, rfl⟩ := List.mem_map.mp member
    have below := mem_range.mp inside
    refine ⟨.new, (taskAt_resize found entries.length _).trans ?_, rfl⟩
    simp [below]
  have kept := assignLoop_rule
    (P := fun w => w.Sound ∧ ∀ ref ∈ newRefs batchId batch.taskList.length entries.length, Open w ref)
    (fun w ref request before => ⟨before.1.setRequest ref request,
      fun r member => (before.2 r member).modify (fun _ => rfl)⟩)
    select batchId batch.taskList.length entries ⟨[], []⟩ ⟨sound.resize found entries.length, unfinished⟩
  rw [assigned] at kept
  refine ⟨kept, fun tasks ok transport task member => ?_⟩
  rcases assignLoop_tasks (Nat.le_refl _) (Nat.le_refl _) ((congrArg Prod.snd assigned).trans ok) transport task member
    with none | ⟨⟨j, inside, here⟩, listed⟩
  · cases transport <;> cases none
  · exact ⟨List.mem_map.mpr ⟨j, mem_range.mpr inside, here⟩, listed⟩

theorem World.Sound.submitTransfer (sound : w.Sound) {thread batchId : Nat}
    (kept : w.givenBack c (.submitTransfer thread batchId entries e) = [])
    (done : w.submitTransfer c e thread batchId entries = some (w', status)) : w'.Sound := by
  obtain ⟨batch, found, result⟩ := map_eq_some_iff.mp done
  split at result
  · cases result
    exact sound
  next room =>
    split at result
    next assigned =>
      cases result
      exact (sound.assignLoop found assigned).1.1
    next tasks assigned =>
      obtain ⟨⟨after, unfinished⟩, members⟩ := sound.assignLoop found assigned
      simp only [givenBack, found, if_neg room, assigned] at kept
      exact after.submitTasks unfinished (fun task member => (members tasks rfl .rdma task member).1)
        (fun task member => (members tasks rfl .tcp task member).1) kept result

theorem taskAt_allocateBatchID (missing : w.batches.lookup w.nextBatch = none) (batchSize : Nat) (ref : TaskRef) :
    (w.allocateBatchID batchSize).taskAt ref = w.taskAt ref := by
  obtain ⟨b, i⟩ := ref
  unfold taskAt allocateBatchID
  by_cases same : b = w.nextBatch
  · subst same
    simp [missing]
  · simp [AList.lookup_insert_ne same]

variable (sound : w.Sound)
include sound

theorem World.Sound.allocateBatchID (batchSize : Nat) : (w.allocateBatchID batchSize).Sound := by
  have missing := sound.owned.fresh w.nextBatch (Nat.le_refl _)
  have holdings : (w.allocateBatchID batchSize).holdings = w.holdings := by
    unfold World.holdings listed World.allocateBatchID
    rw [Table.total_insert_new _ missing]
    exact congrArg (w.cached + ·) (zero_add _)
  have tasks := taskAt_allocateBatchID missing batchSize
  refine ⟨⟨holdings ▸ sound.owned.nodup, fun x member => sound.owned.known x (holdings ▸ member), fun ref t x found =>
    sound.owned.own ref t x (tasks ref ▸ found), fun b above => ?_⟩, ⟨sound.counted.once, fun x member => ?_,
    fun ref t found => sound.counted.counted ref t (tasks ref ▸ found),
    fun ref t found => sound.counted.finished ref t (tasks ref ▸ found)⟩⟩
  · have other : b ≠ w.nextBatch := Nat.ne_of_gt above
    exact (AList.lookup_insert_ne other).trans (sound.owned.fresh b (Nat.le_of_lt above))
  · obtain ⟨t, found, inside⟩ := sound.counted.listed x member
    exact ⟨t, (tasks _).trans found, inside⟩

theorem World.Sound.recache (batches : Table Nat BatchDesc) {caches : Table Nat (List Nat)}
    (fewer : ({ w with batches := batches, caches := caches } : World).holdings ≤ w.holdings)
    (kept : ∀ b batch, batches.lookup b = some batch → w.batches.lookup b = some batch)
    (waits : ∀ ref t, w.taskAt ref = some t → 0 < w.waiting w.pool ref →
      ∃ batch, batches.lookup ref.1 = some batch) :
    ({ w with batches := batches, caches := caches } : World).Sound := by
  have tasks {ref : TaskRef} {t : TransferTask}
    (found : ({ w with batches := batches, caches := caches } : World).taskAt ref = some t) :
      w.taskAt ref = some t := by
    obtain ⟨batch, here, place⟩ := bind_eq_some_iff.mp found
    unfold taskAt
    rw [kept _ _ here]
    exact place
  refine ⟨⟨Multiset.nodup_of_le fewer sound.owned.nodup,
    fun x member => sound.owned.known x (Multiset.mem_of_le fewer member),
    fun ref t x found => sound.owned.own ref t x (tasks found), fun b above => ?_⟩, ⟨sound.counted.once, fun x member => ?_,
    fun ref t found => sound.counted.counted ref t (tasks found),
    fun ref t found => sound.counted.finished ref t (tasks found)⟩⟩
  · cases found : batches.lookup b with
    | none => rfl
    | some batch => exact nomatch (sound.owned.fresh b above).symm.trans (kept b batch found)
  · obtain ⟨t, found, inside⟩ := sound.counted.listed x member
    refine ⟨t, ?_, inside⟩
    have some_waiting : 0 < w.waiting w.pool (w.slices x).task := countP_pos_iff.mpr ⟨x, member, by simp⟩
    obtain ⟨batch, here⟩ := waits _ t found some_waiting
    obtain ⟨batch', there, place⟩ := bind_eq_some_iff.mp found
    cases (kept _ _ here).symm.trans there
    unfold taskAt
    rw [here]
    exact place

theorem World.Sound.freeBatchID {thread batchId : Nat}
    (done : w.freeBatchID thread batchId = some (w', status)) : w'.Sound := by
  obtain ⟨batch, found, result⟩ := map_eq_some_iff.mp done
  split at result
  next ceased =>
    obtain ⟨bound, caches, same⟩ := deallocateAll_spec { w with batches := w.batches.erase batchId } thread
      (batch.taskList.flatMap sliceList)
    cases result
    rw [same] at bound ⊢
    refine sound.recache (w.batches.erase batchId) ?_ (fun b batch' here => ?_) (fun ref t here some_waiting => ?_)
    · have parts : w.listed = ((batch.taskList.flatMap sliceList : List Nat) : Multiset Nat) +
          ({ w with batches := w.batches.erase batchId } : World).listed := Table.total_erase _ found
      calc ({ w with batches := w.batches.erase batchId, caches := caches } : World).holdings
          ≤ w.cached + (batch.taskList.flatMap sliceList : List Nat) +
              ({ w with batches := w.batches.erase batchId } : World).listed := add_le_add_left bound _
        _ = w.holdings := by rw [add_assoc, ← parts]; rfl
    · exact (Table.lookup_erase_eq_some.mp here).2
    · obtain ⟨batch', there, place⟩ := bind_eq_some_iff.mp here
      by_cases same : ref.1 = batchId
      · rw [same] at there
        cases found.symm.trans there
        have finished := List.all_eq_true.mp ceased t (mem_of_getElem? place)
        have := sound.counted.finished ref t here finished
        omega
      · exact ⟨batch', (AList.lookup_erase_ne same).trans there⟩
  next =>
    cases result
    exact sound

theorem World.Sound.exitThread (thread : Nat) : ({ w with caches := w.caches.erase thread } : World).Sound := by
  refine sound.recache w.batches ?_ (fun _ _ here => here) (fun ref t here _ => ?_)
  · have fewer : ({ w with caches := w.caches.erase thread } : World).cached ≤ w.cached := by
      unfold cached
      cases found : w.caches.lookup thread with
      | none =>
        have same : w.caches.erase thread = w.caches :=
          AList.ext (kerase_of_notMem_keys (AList.lookup_eq_none.mp found))
        rw [same]
      | some cache =>
        rw [Table.total_erase _ found]
        exact Multiset.le_add_left _ _
    exact add_le_add_left fewer _
  · obtain ⟨batch, there, -⟩ := bind_eq_some_iff.mp here
    exact ⟨batch, there⟩

theorem World.Sound.step {event : Event} (kept : w.givenBack c event = []) (done : w.step c event = some w') :
    w'.Sound := by
  cases event with
  | allocateBatchID batchSize =>
    cases done
    exact sound.allocateBatchID batchSize
  | submitTransfer thread batchId entries surroundings =>
    obtain ⟨⟨w'', status⟩, call, rfl⟩ := map_eq_some_iff.mp done
    exact sound.submitTransfer kept call
  | mark x success =>
    simp only [World.step] at done
    split at done
    next member =>
      cases done
      cases success with
      | true =>
        simp only [if_true, markSuccess, pool_modifyTask]
        exact sound.mark member (fun _ => rfl) (fun _ => ⟨by simp only; omega, rfl, rfl⟩)
      | false =>
        simp only [Bool.false_eq_true, if_false, markFailed, pool_modifyTask]
        exact sound.mark member (fun _ => rfl) (fun _ => ⟨by simp only; omega, rfl, rfl⟩)
    next => cases done
  | getTransferStatus ref expired =>
    obtain ⟨⟨w'', status⟩, call, rfl⟩ := map_eq_some_iff.mp done
    obtain ⟨t, -, same⟩ := map_eq_some_iff.mp call
    cases same
    exact sound.poll ref
  | freeBatchID thread batchId =>
    obtain ⟨⟨w'', status⟩, call, rfl⟩ := map_eq_some_iff.mp done
    exact sound.freeBatchID call
  | exitThread thread =>
    cases done
    exact sound.exitThread thread

end

theorem sound_start : start.Sound :=
  ⟨⟨Multiset.nodup_zero, fun _ member => (nomatch member), fun _ _ _ found => (nomatch found), fun _ _ => rfl⟩,
    ⟨nodup_nil, fun _ member => (nomatch member), fun _ _ found => (nomatch found), fun _ _ found => (nomatch found)⟩⟩

/-- If no submission gives back slices that wait, then no slice object is ever shared. -/
theorem World.unshared_of_nothing_waits (c : GlobalConfig) {events : List Event} {w : World}
    (reached : Run.run (World.step c) World.start events = some w)
    (kept : Run.Guarded (World.step c) (fun w event => w.givenBack c event = []) World.start events) :
    w.Unshared := by
  have sound : w.Sound := Run.guarded_invariant (fun _ _ _ before met done => before.step met done) sound_start reached kept
  exact sound.owned.unshared sound.counted

/-! ## Two requests, of which the second has no device -/

namespace Sample

def config : GlobalConfig := ⟨65536, 16384, 9, 256, 2, by decide⟩

def request : TransferRequest := ⟨4096, 1, 0, 8, 0⟩

def surroundings (registered : Nat → Bool) : Surroundings where
  selectTransport _ := .ok .rdma
  rdmaFirst := true
  devices := ⟨fun task _ => if registered task then some (0, 0)
    else none, fun _ _ _ _ => none, fun _ _ _ _ => true, fun _ _ _ => true⟩

def all : Surroundings := surroundings (fun _ => true)

def recycles : List Event :=
  [.allocateBatchID 1, .submitTransfer 0 0 [request] all, .mark 0 true, .getTransferStatus (0, 0) (fun _ => false),
    .freeBatchID 0 0, .allocateBatchID 1, .submitTransfer 0 1 [request] all]

def failsSecond : List Event :=
  [.allocateBatchID 2, .submitTransfer 0 0 [request, request] (surroundings (· == 0)), .allocateBatchID 1,
    .submitTransfer 0 1 [request] all]

end Sample

open Sample in
/-- The second batch gets the slice of the first one back, which has been freed. -/
theorem recycled_slice_unshared : ∃ w, Run.run (World.step config) World.start recycles = some w ∧
    (w.taskAt (1, 0)).map TransferTask.sliceList = some [0] ∧ w.pool = [0] ∧ w.Unshared := by
  have ends : (Run.run (step config) start recycles).any
      (fun w => decide ((w.taskAt (1, 0)).map sliceList = some [0]) && decide (w.pool = [0])) = true := by decide +kernel
  obtain ⟨w, reached, facts⟩ := (Option.any_eq_true _ _).mp ends
  obtain ⟨list, pool⟩ := (Bool.and_eq_true _ _).mp facts
  exact ⟨w, reached, of_decide_eq_true list, of_decide_eq_true pool,
    unshared_of_nothing_waits config reached (by decide +kernel)⟩

open Sample in
/-- The slice of the first request is given back while it is in the list of its task, and the next batch draws
it. -/
theorem failed_submission_shares_slice :
    (Run.run (World.step config) World.start failsSecond).map (fun w =>
      (w.holdings.count 0, (w.taskAt (0, 0)).map TransferTask.sliceList, (w.taskAt (1, 0)).map TransferTask.sliceList,
        w.pool)) = some (2, some [0], some [0], [0]) := by decide +kernel

end Mooncake.Engine.Batch
