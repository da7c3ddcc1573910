import Mooncake.Engine.Unshared

/-! What is reported about the tasks of a batch. Each byte of a request is in one slice, and each slice has been
transferred, has failed or is still to be marked, provided that every submission goes through. -/
namespace Mooncake.Engine.Batch
open World Function Option List

def pendingBytes (w : World) (pool : List Nat) (ref : TaskRef) : Nat :=
  ((pool.filter (fun x => (w.slices x).task = ref)).map (fun x => (w.slices x).length)).sum

structure Billed (w : World) (pool : List Nat) (ref : TaskRef) (t : TransferTask) (cut : Nat) : Prop where
  count : t.successSliceCount + t.failedSliceCount + w.waiting pool ref = t.sliceCount
  bytes : ∃ lost, t.transferredBytes + pendingBytes w pool ref + lost = cut ∧ t.failedSliceCount ≤ lost ∧
    (t.failedSliceCount = 0 → lost = 0)

structure Bills (w : World) (pool : List Nat) (asked : TaskRef → Option TransferRequest → Prop)
    (cut : TaskRef → Nat) : Prop where
  positive : ∀ x ∈ pool, 0 < (w.slices x).length
  asked : ∀ ref t, w.taskAt ref = some t → asked ref t.request
  billed : ∀ ref t, w.taskAt ref = some t → Billed w pool ref t (cut ref)

section
variable {w w' : World} {pool : List Nat} {ref : TaskRef} {x : Nat} {slice : Slice} {f : TransferTask → TransferTask}
variable {asked : TaskRef → Option TransferRequest → Prop} {cut : TaskRef → Nat} {t : TransferTask}

theorem pendingBytes_append_singleton (w : World) (pool : List Nat) (x : Nat) (ref : TaskRef) :
    pendingBytes w (pool ++ [x]) ref =
      pendingBytes w pool ref + if (w.slices x).task = ref then (w.slices x).length else 0 := by
  unfold pendingBytes
  rw [filter_append, map_append, sum_append, filter_singleton]
  by_cases same : (w.slices x).task = ref <;> simp [same]

theorem pendingBytes_erase {pool : List Nat} {x : Nat} (member : x ∈ pool) (ref : TaskRef) :
    pendingBytes w (pool.erase x) ref + (if (w.slices x).task = ref then (w.slices x).length else 0) =
      pendingBytes w pool ref := by
  unfold pendingBytes
  rw [(((perm_cons_erase member).filter _).map _).sum_eq, filter_cons]
  by_cases same : (w.slices x).task = ref <;> simp [same, Nat.add_comm]

theorem pendingBytes_congr (same : ∀ x ∈ pool, w'.slices x = w.slices x) (ref : TaskRef) :
    pendingBytes w' pool ref = pendingBytes w pool ref := by
  unfold pendingBytes
  have filters : pool.filter (fun x => (w'.slices x).task = ref) = pool.filter (fun x => (w.slices x).task = ref) :=
    filter_congr (fun x member => by rw [same x member])
  rw [filters]
  exact congrArg sum (map_congr_left (fun x member => by rw [same x (mem_filter.mp member).1]))

theorem waiting_congr (same : ∀ x ∈ pool, w'.slices x = w.slices x) (ref : TaskRef) :
    w'.waiting pool ref = w.waiting pool ref :=
  countP_congr (fun x member => by rw [same x member])

theorem Billed.congr {n : Nat} (billed : Billed w pool ref t n) {pool' : List Nat}
    (waits : w'.waiting pool' ref = w.waiting pool ref)
    (bytes : pendingBytes w' pool' ref = pendingBytes w pool ref) : Billed w' pool' ref t n :=
  ⟨waits ▸ billed.count, bytes ▸ billed.bytes⟩

section
variable (bills : Bills w pool asked cut)
include bills

theorem Bills.draw (absent : x ∉ pool) (draws : Draws w slice w' x) : Bills w' pool asked cut := by
  have kept (y : Nat) (member : y ∈ pool) : w'.slices y = w.slices y := by
    rw [draws.slices, update_of_ne (fun same : y = x => absent (same ▸ member))]
  refine ⟨fun y member => (kept y member).symm ▸ bills.positive y member, fun ref t found => ?_, fun ref t found => ?_⟩
  · obtain ⟨list, old⟩ := draws.before found
    have same := bills.asked ref _ old
    exact same
  · obtain ⟨list, old⟩ := draws.before found
    have billed := (bills.billed ref _ old).congr (waiting_congr kept ref) (pendingBytes_congr kept ref)
    exact ⟨billed.count, billed.bytes⟩

theorem Bills.modify {pool' : List Nat} {n : Nat} {asked' : TaskRef → Option TransferRequest → Prop}
    (positive : ∀ x ∈ pool', 0 < (w.slices x).length)
    (asks : ∀ r t, w.taskAt r = some t → asked' r (if r = ref then (f t).request else t.request))
    (others : ∀ r, r ≠ ref → w.waiting pool' r = w.waiting pool r ∧ pendingBytes w pool' r = pendingBytes w pool r)
    (here : ∀ t, w.taskAt ref = some t → Billed w pool' ref (f t) n) :
    Bills (w.modifyTask ref f) pool' asked' (update cut ref n) := by
  have waits (r : TaskRef) : (w.modifyTask ref f).waiting pool' r = w.waiting pool' r :=
    waiting_congr (fun x _ => by rw [slices_modifyTask]) r
  have bytes (r : TaskRef) : pendingBytes (w.modifyTask ref f) pool' r = pendingBytes w pool' r :=
    pendingBytes_congr (fun x _ => by rw [slices_modifyTask]) r
  refine ⟨fun x member => ?_, fun r t found => ?_, fun r t found => ?_⟩
  · rw [slices_modifyTask]
    exact positive x member
  · obtain ⟨t', old, changed⟩ := taskAt_changed (taskAt_modifyTask w ref f r) found
    have asks := asks r t' old
    obtain ⟨same, rfl⟩ | ⟨other, rfl⟩ := changed
    · rwa [if_pos same] at asks
    · rwa [if_neg other] at asks
  · obtain ⟨t', old, ⟨rfl, rfl⟩ | ⟨other, rfl⟩⟩ := taskAt_changed (taskAt_modifyTask w ref f r) found
    · rw [update_self]
      exact (here t' old).congr (waits r) (bytes r)
    · rw [update_of_ne other]
      exact (bills.billed r t' old).congr ((waits r).trans (others r other).1) ((bytes r).trans (others r other).2)

theorem Bills.withPool (pool' : List Nat) : Bills { w with pool := pool' } pool asked cut :=
  ⟨bills.positive, bills.asked, fun ref t found => ⟨(bills.billed ref t found).count, (bills.billed ref t found).bytes⟩⟩

theorem Bills.post (owned : Owned w) (counted : Counted w pool) (draws : Draws w slice w' x) (counts : Counts f)
    (some_bytes : 0 < slice.length) :
    Bills (w'.modifyTask slice.task f) (pool ++ [x]) asked (update cut slice.task (cut slice.task + slice.length)) := by
  have absent := (counted.draw owned draws).1
  have drawn := bills.draw absent draws
  have filled : w'.slices x = slice := by rw [draws.slices, update_self]
  refine drawn.modify (fun y member => ?_) (fun r t found => ?_) (fun r other => ?_) (fun t found => ?_)
  · rcases mem_append.mp member with old | new
    · exact drawn.positive y old
    · rw [mem_singleton.mp new, filled]
      exact some_bytes
  · obtain ⟨totalBytes, same⟩ := counts t
    rw [same, ite_self]
    exact drawn.asked r t found
  · have apart : (w'.slices x).task ≠ r := by
      rw [filled]
      exact Ne.symm other
    rw [waiting_append_singleton, pendingBytes_append_singleton, if_neg apart, if_neg apart]
    exact ⟨rfl, rfl⟩
  · obtain ⟨totalBytes, same⟩ := counts t
    obtain ⟨count, lost, bytes, failed, none⟩ := drawn.billed slice.task t found
    rw [same]
    refine ⟨?_, lost, ?_, failed, none⟩
    · rw [waiting_append_singleton, filled, if_pos rfl]
      simp only
      omega
    · rw [pendingBytes_append_singleton, filled, if_pos rfl]
      simp only
      omega

end

end

/-! ## A submission that goes through -/

def Asked (full : TaskRef → Nat) (ref : TaskRef) (request : Option TransferRequest) : Prop :=
  ∃ r, request = some r ∧ 0 < r.length ∧ full ref = r.length

def due (full : TaskRef → Nat) (left : List (TaskRef × TransferRequest)) (ref : TaskRef) : Nat :=
  if ref ∈ left.map Prod.fst then 0 else full ref

structure Listed (full : TaskRef → Nat) (left : List (TaskRef × TransferRequest)) : Prop where
  once : (left.map Prod.fst).Nodup
  lengths : ∀ task ∈ left, full task.1 = task.2.length

def Devices.Serves (c : GlobalConfig) (d : Devices) (task : Nat) (request : TransferRequest) : Prop :=
  ∀ offset, c.Cuts request offset → ∃ chosen, d.pick c request task offset = some chosen ∧
    d.stillActive task offset chosen.2 = true

section
variable {full : TaskRef → Nat} {ref : TaskRef} {request : TransferRequest} {left left' : List (TaskRef × TransferRequest)}

theorem update_due_zero (full : TaskRef → Nat) (task : TaskRef × TransferRequest)
    (left : List (TaskRef × TransferRequest)) :
    update (due full (task :: left)) task.1 0 = due full (task :: left) :=
  update_eq_self_iff.mpr (if_pos mem_cons_self).symm

theorem Listed.update_due {task : TaskRef × TransferRequest} (listed : Listed full (task :: left)) :
    update (due full (task :: left)) task.1 task.2.length = due full left := by
  have once := nodup_cons.mp listed.once
  funext r
  by_cases same : r = task.1
  · subst same
    rw [update_self, due, if_neg once.1, listed.lengths _ mem_cons_self]
  · rw [update_of_ne same]
    simp only [due, map_cons, mem_cons, same, false_or]

theorem due_perm (same : left.Perm left') : due full left = due full left' := by
  funext r
  simp only [due, (same.map Prod.fst).mem_iff]

theorem Listed.perm (listed : Listed full left) (same : left.Perm left') : Listed full left' :=
  ⟨(same.map Prod.fst).nodup_iff.mp listed.once, fun task member => listed.lengths task (same.mem_iff.mpr member)⟩

theorem Listed.sublist (listed : Listed full left) (part : left'.Sublist left) : Listed full left' :=
  ⟨listed.once.sublist (part.map _), fun task member => listed.lengths task (part.subset member)⟩

end

namespace Rdma
variable {c : GlobalConfig} {d : Devices} {thread task : Nat} {ref : TaskRef} {request : TransferRequest}
  {refs : List TaskRef}
variable {full cut : TaskRef → Nat}

structure Bound (refs : List TaskRef) (full cut : TaskRef → Nat) (p : Posting) : Prop where
  sound : p.Sound refs
  bills : Bills p.world (p.world.pool ++ p.slicesToPost) (Asked full) cut

theorem sliceBody_bound {p : Posting} {offset : Nat} (bound : Bound refs full (update cut ref offset) p)
    (member : ref ∈ refs) (serves : d.Serves c task request) (cuts : c.Cuts request offset) :
    Ends (Bound refs full (update cut ref (offset + (c.slice ref request offset).length))) (fun _ _ => False)
      (sliceBody c d thread task ref request p offset) := by
  have sound := bound.sound
  obtain ⟨t, found, -⟩ := sound.unfinished ref member
  obtain ⟨w, x, draws, result⟩ := sliceBody_cases c d thread task request offset found
  obtain ⟨chosen, picked, alive⟩ := serves offset cuts
  have kept : Ends (Posting.Sound refs) (Posting.Failed refs) (sliceBody c d thread task ref request p offset) :=
    sliceBody_sound sound member
  rcases result with ⟨none, -⟩ | ⟨chosen', picked', ⟨dead, -⟩ | ⟨-, next, posted, same⟩⟩
  · exact nomatch none.symm.trans picked
  · cases picked.symm.trans picked'
    exact nomatch alive.symm.trans dead
  · rw [same] at kept ⊢
    refine ⟨kept, ?_⟩
    have posts := bound.bills.post sound.owned sound.counted draws
      (f := fun t =>
        { t with totalBytes := t.totalBytes + (c.slice ref request offset).length, sliceCount := t.sliceCount + 1 })
      (fun t => ⟨_, rfl⟩) (slice_length_pos cuts.inside)
    obtain ⟨pool, world⟩ := posted.world
    have cuts : update (update cut ref offset) ref
        (update cut ref offset ref + (c.slice ref request offset).length) =
        update cut ref (offset + (c.slice ref request offset).length) := by
      rw [update_self, update_idem]
    rw [posted.pending, world, ← cuts]
    exact posts.withPool pool

theorem taskLoop_bound (thread : Nat) {tasks others : List (TaskRef × TransferRequest)} {p : Posting}
    (bound : Bound refs full (due full (tasks ++ others)) p) (listed : Listed full (tasks ++ others))
    (members : ∀ (k : Nat) task, tasks[k]? = some task → task.1 ∈ refs ∧ d.Serves c k task.2) :
    Ends (Bound refs full (due full others)) (fun _ _ => False) (taskLoop (submitTask c d thread) 0 tasks p) := by
  let P (next : Nat) (rest : List (TaskRef × TransferRequest)) (p : Posting) : Prop :=
    Bound refs full (due full (rest ++ others)) p ∧ Listed full (rest ++ others) ∧
      ∀ (k : Nat) task, rest[k]? = some task → task.1 ∈ refs ∧ d.Serves c (next + k) task.2
  have loops : Ends (P (0 + tasks.length) []) (fun _ _ => False) (taskLoop (submitTask c d thread) 0 tasks p) := by
    refine taskLoop_rule (P := P) (fun task x rest p before => ?_) ⟨bound, listed, fun k x there => ?_⟩
    · obtain ⟨⟨sound, bills⟩, listed, members⟩ := before
      obtain ⟨member, serves⟩ := members 0 x rfl
      rw [cons_append] at listed
      have begun : Bound refs full (update (due full (x :: (rest ++ others))) x.1 0) { p with nrSlices := 0 } :=
        ⟨⟨sound.owned, sound.counted, sound.unfinished⟩, (update_due_zero full x _).symm ▸ bills⟩
      have slices : Ends (Bound refs full (update (due full (x :: (rest ++ others))) x.1 x.2.length)) (fun _ _ => False)
          (submitTask c d thread task x p) :=
        sliceLoop_rule x.1 (P := fun p offset =>
          Bound refs full (update (due full (x :: (rest ++ others))) x.1 offset) p)
          (fun p offset cuts before => sliceBody_bound before member serves cuts) begun
      refine slices.mono (fun p after => ⟨?_, listed.sublist (sublist_cons_self _ _), fun k y there => ?_⟩)
        (fun _ _ wrong => wrong)
      · rw [← listed.update_due]
        exact after
      · rw [Nat.add_right_comm, Nat.add_assoc]
        exact members (k + 1) y there
    · rw [Nat.zero_add]
      exact members k x there
  exact loops.mono (fun _ all => all.1) (fun _ _ wrong => wrong)

end Rdma

/-! ## A call -/

structure Ready (refs : List TaskRef) (full : TaskRef → Nat) (left : List (TaskRef × TransferRequest))
    (w : World) : Prop where
  sound : w.Sound
  unfinished : ∀ ref ∈ refs, Open w ref
  bills : Bills w w.pool (Asked full) (due full left)

section
variable {c : GlobalConfig} {d : Devices} {w w' : World} {refs : List TaskRef} {full : TaskRef → Nat}
variable {tasks others : List (TaskRef × TransferRequest)}

theorem Ready.rdma (thread : Nat) (ready : Ready refs full (tasks ++ others) w)
    (listed : Listed full (tasks ++ others))
    (members : ∀ (k : Nat) task, tasks[k]? = some task → task.1 ∈ refs ∧ d.Serves c k task.2) :
    Ready refs full others (Rdma.submitTransferTask c d thread tasks w).1 := by
  have begun : Rdma.Bound refs full (due full (tasks ++ others)) ⟨w, [], 0⟩ :=
    ⟨⟨ready.sound.owned, (append_nil w.pool).symm ▸ ready.sound.counted, ready.unfinished⟩,
      (append_nil w.pool).symm ▸ ready.bills⟩
  have loops := Rdma.taskLoop_bound thread begun listed members
  simp only [Rdma.submitTransferTask]
  split
  next fine =>
    have after := loops.ok fine
    exact ⟨⟨after.sound.owned.withPool _, after.sound.counted.withPool _⟩, after.sound.unfinished, after.bills.withPool _⟩
  next failed => exact (loops.error failed).elim

theorem Ready.tcpBody (thread : Nat) {task : TaskRef × TransferRequest} (ready : Ready refs full (task :: others) w)
    (listed : Listed full (task :: others)) (member : task.1 ∈ refs) (some_bytes : 0 < task.2.length) :
    Ready refs full others (Tcp.taskBody thread w task) := by
  obtain ⟨sound, still⟩ := Tcp.taskBody_sound thread ready.sound ready.unfinished member
  refine ⟨sound, still, ?_⟩
  obtain ⟨t, found, -⟩ := ready.unfinished task.1 member
  have draws := draw_draws thread ⟨task.2.source, task.2.length, task.2.targetOffset, task.2.targetId, 0, 0, task.1⟩ found
  have posts := ready.bills.post ready.sound.owned ready.sound.counted draws
    (f := fun t => { t with totalBytes := task.2.length, sliceCount := t.sliceCount + 1 }) (fun t => ⟨_, rfl⟩) some_bytes
  have none : due full (task :: others) task.1 = 0 := if_pos mem_cons_self
  rw [none, Nat.zero_add] at posts
  simp only [Tcp.taskBody, pool_modifyTask, draws.pool]
  rw [← listed.update_due]
  exact posts.withPool _

theorem Ready.tcp (thread : Nat) (ready : Ready refs full (tasks ++ others) w)
    (listed : Listed full (tasks ++ others)) (members : ∀ task ∈ tasks, task.1 ∈ refs ∧ 0 < task.2.length) :
    Ready refs full others (Tcp.submitTransferTask thread tasks w) := by
  induction tasks generalizing w with
  | nil => exact ready
  | cons task rest ih =>
    obtain ⟨member, some_bytes⟩ := members task mem_cons_self
    have here : Ready refs full (rest ++ others) (Tcp.taskBody thread w task) :=
      ready.tcpBody thread listed member some_bytes
    exact ih here (listed.sublist (sublist_cons_self _ _)) (fun task later => members task (mem_cons_of_mem _ later))

theorem Ready.submitTasks {e : Surroundings} {thread : Nat} {tasks : SubmitTasks} {status : Status}
    (ready : Ready refs full (tasks.rdma ++ tasks.tcp) w) (listed : Listed full (tasks.rdma ++ tasks.tcp))
    (rdma : ∀ (k : Nat) task, tasks.rdma[k]? = some task → task.1 ∈ refs ∧ e.devices.Serves c k task.2)
    (tcp : ∀ task ∈ tasks.tcp, task.1 ∈ refs ∧ 0 < task.2.length)
    (done : w.submitTasks c e thread tasks = (w', status)) : Ready refs full [] w' := by
  unfold World.submitTasks at done
  have nil (tasks : List (TaskRef × TransferRequest)) : tasks ++ [] = tasks := append_nil tasks
  split at done
  · cases done
    have after := ready.rdma thread listed rdma
    rw [← nil tasks.tcp] at after
    refine after.tcp thread ?_ tcp
    rw [nil]
    exact listed.sublist (sublist_append_right _ _)
  · have swap : (tasks.rdma ++ tasks.tcp).Perm (tasks.tcp ++ tasks.rdma) := perm_append_comm
    have swapped : Ready refs full (tasks.tcp ++ tasks.rdma) w :=
      ⟨ready.sound, ready.unfinished, due_perm swap ▸ ready.bills⟩
    have after := swapped.tcp thread (listed.perm swap) tcp
    rw [← nil tasks.rdma] at after
    have result := after.rdma thread (by rw [nil]; exact listed.sublist (sublist_append_left _ _)) rdma
    rw [done] at result
    exact result

end

section
variable {w : World} {batchId : Nat} {full : TaskRef → Nat} {ref : TaskRef} {request : TransferRequest}
variable {left left' : List (TaskRef × TransferRequest)}

theorem due_assign (full : TaskRef → Nat) (n : Nat) (same : left'.Perm ((ref, request) :: left)) :
    due (update full ref n) left' = update (due full left) ref 0 := by
  rw [due_perm same]
  funext r
  by_cases here : r = ref
  · simp [due, here]
  · simp only [due, map_cons, mem_cons, here, false_or, update_of_ne here]

theorem Listed.assign (listed : Listed full left) (new : ref ∉ left.map Prod.fst)
    (same : left'.Perm ((ref, request) :: left)) : Listed (update full ref request.length) left' := by
  have both : Listed (update full ref request.length) ((ref, request) :: left) := by
    refine ⟨nodup_cons.mpr ⟨new, listed.once⟩, fun task member => ?_⟩
    rcases mem_cons.mp member with rfl | old
    · exact update_self _ _ _
    · have other : task.1 ≠ ref := fun same => new (same ▸ List.mem_map_of_mem old)
      rw [update_of_ne other]
      exact listed.lengths task old
  exact both.perm same.symm

structure Assigning (batchId taskId n : Nat) (full : TaskRef → Nat) (left : List (TaskRef × TransferRequest))
    (w : World) : Prop where
  bills : Bills w w.pool (fun ref request => Asked full ref request ∨
    (ref.1 = batchId ∧ taskId ≤ ref.2 ∧ ref.2 < taskId + n))
    (due full left)
  zero : ∀ j, taskId ≤ j → full (batchId, j) = 0
  listed : Listed full left
  before : ∀ task ∈ left, task.1.2 < taskId

theorem Assigning.next {taskId n : Nat} (assigning : Assigning batchId taskId (n + 1) full left w)
    (some_bytes : 0 < request.length) (same : left'.Perm (((batchId, taskId), request) :: left)) :
    Assigning batchId (taskId + 1) n (update full (batchId, taskId) request.length) left'
      (w.modifyTask (batchId, taskId) (fun t => { t with request := some request })) := by
  obtain ⟨bills, zero, listed, before⟩ := assigning
  have new : (batchId, taskId) ∉ left.map Prod.fst := by
    intro member
    obtain ⟨task, inside, here⟩ := List.mem_map.mp member
    have := before task inside
    rw [here] at this
    exact Nat.lt_irrefl _ this
  have none : due full left (batchId, taskId) = 0 := by
    rw [due, if_neg new]
    exact zero taskId (Nat.le_refl _)
  refine ⟨?_, fun j later => ?_, listed.assign new same, fun task member => ?_⟩
  · rw [pool_modifyTask, due_assign full _ same]
    refine bills.modify bills.positive (fun r t found => ?_) (fun _ _ => ⟨rfl, rfl⟩) (fun t found => ?_)
    · split
      next here => exact .inl ⟨request, rfl, some_bytes, here ▸ update_self _ _ _⟩
      next other =>
        rcases bills.asked r t found with ⟨req, named, positive, length⟩ | ⟨batch, low, high⟩
        · exact .inl ⟨req, named, positive, (update_of_ne other _ _).trans length⟩
        · have later : r.2 ≠ taskId := fun same => other (Prod.ext batch same)
          exact .inr ⟨batch, by omega, by omega⟩
    · have billed := bills.billed _ t found
      rw [none] at billed
      exact ⟨billed.count, billed.bytes⟩
  · have other : (batchId, j) ≠ (batchId, taskId) := fun same => by
      have := (Prod.mk.inj same).2
      omega
    rw [update_of_ne other]
    exact zero j (Nat.le_of_succ_le later)
  · rcases mem_cons.mp (same.mem_iff.mp member) with rfl | old
    · exact Nat.lt_succ_self _
    · exact Nat.lt_succ_of_lt (before task old)

theorem Assigning.loop {select : Nat → Except Status Transport} {taskId : Nat} {entries : List TransferRequest}
    (tasks : SubmitTasks) (assigning : Assigning batchId taskId entries.length full (tasks.rdma ++ tasks.tcp) w)
    (resolves : ∀ request ∈ entries, 0 < request.length ∧
      ∃ transport, select request.targetId = .ok transport) :
    ∃ w' tasks' full', assignLoop select batchId taskId entries w tasks = (w', .ok tasks') ∧
      Bills w' w'.pool (Asked full') (due full' (tasks'.rdma ++ tasks'.tcp)) ∧
        Listed full' (tasks'.rdma ++ tasks'.tcp) := by
  induction entries generalizing taskId w tasks full with
  | nil =>
    refine ⟨w, tasks, full, rfl, ⟨assigning.bills.positive, fun ref t found => ?_, assigning.bills.billed⟩,
      assigning.listed⟩
    rcases assigning.bills.asked ref t found with asked | ⟨-, low, high⟩
    · exact asked
    · exact absurd high (Nat.not_lt.mpr low)
  | cons request rest ih =>
    obtain ⟨some_bytes, transport, selected⟩ := resolves request mem_cons_self
    have later := fun request member => resolves request (mem_cons_of_mem _ member)
    simp only [assignLoop, selected]
    cases transport with
    | rdma =>
      refine ih _ (assigning.next some_bytes ?_) later
      rw [append_assoc]
      exact perm_middle
    | tcp =>
      refine ih _ (assigning.next some_bytes ?_) later
      rw [← append_assoc]
      exact perm_append_singleton _ _

end

/-! ## Steps -/

structure World.Settled (w : World) : Prop where
  sound : w.Sound
  bills : ∃ full, Bills w w.pool (Asked full) full

def SomeBytes : Event → Prop
  | .submitTransfer _ _ entries _ => ∀ request ∈ entries, 0 < request.length
  | _ => True

/-- A submission finds a transport for every target, and an active device for every slice of its RDMA requests,
which are tasks of that transport in their order. -/
def Resolves (c : GlobalConfig) : Event → Prop
  | .submitTransfer _ _ entries e =>
    (∀ request ∈ entries, ∃ transport, e.selectTransport request.targetId = .ok transport) ∧
    ∀ (k : Nat) request, (entries.filter (fun r => e.selectTransport r.targetId = .ok .rdma))[k]? = some request →
      e.devices.Serves c k request
  | _ => True

variable {entries : List TransferRequest}

theorem assignLoop_rdma {w : World} {select : Nat → Except Status Transport} {batchId taskId : Nat}
    {tasks tasks' : SubmitTasks}
    (done : (assignLoop select batchId taskId entries w tasks).2 = .ok tasks') :
    tasks'.rdma.map Prod.snd = tasks.rdma.map Prod.snd ++ entries.filter (fun r => select r.targetId = .ok .rdma) := by
  induction entries generalizing taskId w tasks with
  | nil =>
    cases Except.ok.inj done
    exact (append_nil _).symm
  | cons request rest ih =>
    unfold assignLoop at done
    split at done
    · cases done
    next chosen selected =>
      rw [ih done]
      cases chosen with
      | rdma => simp [selected]
      | tcp => simp [selected]

section
variable {c : GlobalConfig} {w w' : World} {pool : List Nat} {asked : TaskRef → Option TransferRequest → Prop}
  {cut : TaskRef → Nat}
variable {ref : TaskRef}

theorem pendingBytes_eq_zero (none : w.waiting pool ref = 0) : pendingBytes w pool ref = 0 := by
  have empty : pool.filter (fun x => (w.slices x).task = ref) = [] :=
    filter_eq_nil_iff.mpr (countP_eq_zero.mp none)
  rw [pendingBytes, empty]
  rfl

theorem Bills.fewer (bills : Bills w pool asked cut) (slices : w'.slices = w.slices)
    (tasks : ∀ ref t, w'.taskAt ref = some t → w.taskAt ref = some t) : Bills w' pool asked cut := by
  have kept (x : Nat) (_ : x ∈ pool) : w'.slices x = w.slices x := by rw [slices]
  refine ⟨fun x member => slices ▸ bills.positive x member, fun ref t found => bills.asked ref t (tasks ref t found),
    fun ref t found => ?_⟩
  exact (bills.billed ref t (tasks ref t found)).congr (waiting_congr kept ref) (pendingBytes_congr kept ref)

theorem World.Settled.assigning (settled : w.Settled) {batchId : Nat} {batch : BatchDesc}
    (found : w.batches.lookup batchId = some batch) (n : Nat) :
    ∃ full, Assigning batchId batch.taskList.length n full [] (w.resize batchId batch n) := by
  obtain ⟨sound, full, bills⟩ := settled
  let full' (ref : TaskRef) : Nat := if ref.1 = batchId ∧ batch.taskList.length ≤ ref.2 then 0 else full ref
  have tasks := taskAt_resize found n
  refine ⟨full', ⟨bills.positive, fun ref t here => ?_, fun ref t here => ?_⟩, fun j later => if_pos ⟨rfl, later⟩,
    ⟨nodup_nil, fun _ none => (nomatch none)⟩, fun _ none => (nomatch none)⟩
  · rw [tasks] at here
    split at here
    next behind =>
      split at here
      next inside => exact .inr ⟨behind.1, behind.2, inside⟩
      · cases here
    next old =>
      obtain ⟨r, named, positive, length⟩ := bills.asked ref t here
      exact .inl ⟨r, named, positive, (if_neg old).trans length⟩
  · have nothing : due full' [] ref = full' ref := if_neg not_mem_nil
    rw [nothing]
    rw [tasks] at here
    split at here
    next behind =>
      split at here
      · cases here
        have none := sound.counted.waiting_missing (taskAt_behind found behind.1 behind.2)
        have zero : full' ref = 0 := if_pos behind
        rw [zero]
        exact ⟨(Nat.zero_add _).trans none, 0, (Nat.zero_add _).trans (pendingBytes_eq_zero none),
          Nat.le_refl _, fun _ => rfl⟩
      · cases here
    next old =>
      have same : full' ref = full ref := if_neg old
      rw [same]
      exact ⟨(bills.billed ref t here).count, (bills.billed ref t here).bytes⟩

theorem World.Settled.submitTransfer (settled : w.Settled) {e : Surroundings} {thread batchId : Nat}
    {status : Status}
    (lengths : SomeBytes (.submitTransfer thread batchId entries e))
    (resolves : Resolves c (.submitTransfer thread batchId entries e))
    (done : w.submitTransfer c e thread batchId entries = some (w', status)) : w'.Settled := by
  obtain ⟨batch, found, result⟩ := map_eq_some_iff.mp done
  split at result
  · cases result
    exact settled
  · obtain ⟨full, assigning⟩ := settled.assigning found entries.length
    obtain ⟨w'', tasks, full', assigned, bills, listed⟩ := Assigning.loop ⟨[], []⟩ assigning
      (fun request member => ⟨lengths request member, resolves.1 request member⟩)
    rw [assigned] at result
    obtain ⟨⟨sound, unfinished⟩, members⟩ := settled.sound.assignLoop found assigned
    have ready : Ready _ full' (tasks.rdma ++ tasks.tcp) w'' := ⟨sound, unfinished, bills⟩
    have after := ready.submitTasks listed
      (fun k task there => ⟨(members tasks rfl .rdma task (mem_of_getElem? there)).1, ?_⟩)
      (fun task member => (members tasks rfl .tcp task member).imp_right (lengths task.2)) result
    · have all : due full' [] = full' := funext (fun _ => if_neg not_mem_nil)
      exact ⟨after.sound, full', all ▸ after.bills⟩
    · have requests : tasks.rdma.map Prod.snd = _ := assignLoop_rdma (congrArg Prod.snd assigned)
      rw [map_nil, nil_append] at requests
      refine resolves.2 k task.2 ?_
      rw [← requests, getElem?_map, there]
      rfl

variable {f : TransferTask → TransferTask}

theorem Bills.mark {full : TaskRef → Nat} {x : Nat}
    (bills : Bills w w.pool (Asked full) full) (member : x ∈ w.pool) (request : ∀ t, (f t).request = t.request)
    (marks : ∀ t, (f t).sliceCount = t.sliceCount ∧
      ((f t).successSliceCount = t.successSliceCount + 1 ∧ (f t).failedSliceCount = t.failedSliceCount ∧
          (f t).transferredBytes = t.transferredBytes + (w.slices x).length ∨
        (f t).successSliceCount = t.successSliceCount ∧ (f t).failedSliceCount = t.failedSliceCount + 1 ∧
          (f t).transferredBytes = t.transferredBytes)) :
    Bills (w.modifyTask (w.slices x).task f) (w.pool.erase x) (Asked full) full := by
  have fewer : (w.pool.erase x).Sublist w.pool := erase_sublist
  have positive := bills.positive x member
  have same : update full (w.slices x).task (full (w.slices x).task) = full := update_eq_self _ _
  rw [← same]
  refine bills.modify (fun y later => bills.positive y (fewer.subset later)) (fun r t found => ?_)
    (fun r other => ?_) (fun t found => ?_)
  · rw [request, ite_self, same]
    exact bills.asked r t found
  · have waits := waiting_erase (w := w) member r
    have bytes := pendingBytes_erase (w := w) member r
    rw [if_neg (Ne.symm other)] at waits bytes
    exact ⟨waits, bytes⟩
  · have waits := waiting_erase (w := w) member (w.slices x).task
    have bytes := pendingBytes_erase (w := w) member (w.slices x).task
    rw [if_pos rfl] at waits bytes
    obtain ⟨count, lost, sum, failed, none⟩ := bills.billed _ t found
    obtain ⟨slices, ⟨success, failures, transferred⟩ | ⟨success, failures, transferred⟩⟩ := marks t
    · exact ⟨by omega, lost, by omega, by omega, fun zero => none (failures.symm.trans zero)⟩
    · exact ⟨by omega, lost + (w.slices x).length, by omega, by omega, fun zero => by omega⟩

theorem Bills.poll {full : TaskRef → Nat} (bills : Bills w w.pool (Asked full) full) (ref : TaskRef)
    (polls : ∀ t, ∃ finished, f t = { t with isFinished := finished }) :
    Bills (w.modifyTask ref f) (w.modifyTask ref f).pool (Asked full) full := by
  have same : update full ref (full ref) = full := update_eq_self _ _
  rw [pool_modifyTask, ← same]
  refine bills.modify bills.positive (fun r t found => ?_) (fun _ _ => ⟨rfl, rfl⟩) (fun t found => ?_)
  · obtain ⟨_, kept⟩ := polls t
    rw [kept, ite_self, same]
    exact bills.asked r t found
  · obtain ⟨_, kept⟩ := polls t
    have billed := bills.billed ref t found
    rw [kept]
    exact ⟨billed.count, billed.bytes⟩

theorem freeBatchID_frame {thread batchId : Nat} {status : Status}
    (done : w.freeBatchID thread batchId = some (w', status)) :
    w'.slices = w.slices ∧ w'.pool = w.pool ∧ ∀ ref t, w'.taskAt ref = some t → w.taskAt ref = some t := by
  obtain ⟨batch, found, result⟩ := map_eq_some_iff.mp done
  split at result
  · obtain ⟨-, caches, same⟩ := deallocateAll_spec { w with batches := w.batches.erase batchId } thread
      (batch.taskList.flatMap TransferTask.sliceList)
    cases result
    rw [same]
    refine ⟨rfl, rfl, fun ref t here => ?_⟩
    obtain ⟨batch', there, place⟩ := bind_eq_some_iff.mp here
    unfold taskAt
    rw [(Table.lookup_erase_eq_some.mp there).2]
    exact place
  · cases result
    exact ⟨rfl, rfl, fun _ _ here => here⟩

theorem World.Settled.step (settled : w.Settled) {event : Event} (lengths : SomeBytes event)
    (resolves : Resolves c event) (done : w.step c event = some w') : w'.Settled := by
  have sound (calm : w.givenBack c event = []) : w'.Sound := settled.sound.step calm done
  obtain ⟨full, bills⟩ := settled.bills
  cases event with
  | allocateBatchID batchSize =>
    cases done
    have missing := settled.sound.owned.fresh w.nextBatch (Nat.le_refl _)
    exact ⟨sound rfl, full, bills.fewer rfl
      (fun ref t found => (taskAt_allocateBatchID missing batchSize ref).symm.trans found)⟩
  | submitTransfer thread batchId entries surroundings =>
    obtain ⟨⟨w'', status⟩, call, rfl⟩ := map_eq_some_iff.mp done
    exact settled.submitTransfer lengths resolves call
  | mark x success =>
    simp only [World.step] at done
    split at done
    next member =>
      cases done
      refine ⟨sound rfl, full, Bills.withPool ?_ _⟩
      cases success with
      | true =>
        simp only [if_true, markSuccess, pool_modifyTask]
        exact bills.mark member (fun _ => rfl) (fun _ => ⟨rfl, .inl ⟨rfl, rfl, rfl⟩⟩)
      | false =>
        simp only [Bool.false_eq_true, if_false, markFailed, pool_modifyTask]
        exact bills.mark member (fun _ => rfl) (fun _ => ⟨rfl, .inr ⟨rfl, rfl, rfl⟩⟩)
    next => cases done
  | getTransferStatus ref expired =>
    obtain ⟨⟨w'', status⟩, call, rfl⟩ := map_eq_some_iff.mp done
    obtain ⟨t, -, same⟩ := map_eq_some_iff.mp call
    cases same
    refine ⟨sound rfl, full, bills.poll ref fun t => ?_⟩
    split
    · exact ⟨true, rfl⟩
    · exact ⟨_, rfl⟩
  | freeBatchID thread batchId =>
    obtain ⟨⟨w'', status⟩, call, rfl⟩ := map_eq_some_iff.mp done
    obtain ⟨slices, pool, tasks⟩ := freeBatchID_frame call
    refine ⟨sound rfl, full, ?_⟩
    rw [pool]
    exact bills.fewer slices tasks
  | exitThread thread =>
    cases done
    exact ⟨sound rfl, full, bills.fewer rfl (fun ref t found => found)⟩

theorem settled_start : start.Settled :=
  ⟨sound_start, fun _ => 0, fun _ member => (nomatch member), fun _ _ found => (nomatch found),
    fun _ _ found => (nomatch found)⟩

/-! ## Reports -/

def TransferTask.Truthful (t : TransferTask) (expired : Nat → Bool) : Prop :=
  ∃ request, t.request = some request ∧
    (t.status expired = .completed ∧ t.transferredBytes = request.length ∨
      t.status expired = .failed ∧ t.transferredBytes < request.length)

theorem World.Settled.over (settled : w.Settled) {t : TransferTask} (found : w.taskAt ref = some t)
    (none : w.waiting w.pool ref = 0) :
    t.successSliceCount + t.failedSliceCount = t.sliceCount ∧ ∀ expired, t.Truthful expired := by
  obtain ⟨full, bills⟩ := settled.bills
  obtain ⟨request, named, positive, length⟩ := bills.asked ref t found
  obtain ⟨count, lost, sum, failed, zero⟩ := bills.billed ref t found
  rw [none, Nat.add_zero] at count
  rw [pendingBytes_eq_zero none, Nat.add_zero, length] at sum
  refine ⟨count, fun expired => ⟨request, named, ?_⟩⟩
  unfold TransferTask.status
  rw [if_pos count]
  by_cases some_failed : t.failedSliceCount = 0
  · rw [if_neg (not_not.mpr some_failed)]
    have := zero some_failed
    exact .inl ⟨rfl, by omega⟩
  · rw [if_pos some_failed]
    exact .inr ⟨rfl, by omega⟩

end

def pollAll (batchId : Nat) (indices : List Nat) : List Event :=
  indices.map (fun i => .getTransferStatus (batchId, i) (fun _ => false))

section
variable {c : GlobalConfig} {w : World} {batchId : Nat}

theorem pollAll_finishes {indices : List Nat} (there : w.batches.lookup batchId ≠ none)
    (present : ∀ i ∈ indices, ∃ t, w.taskAt (batchId, i) = some t)
    (ceased : ∀ i t, w.taskAt (batchId, i) = some t → t.successSliceCount + t.failedSliceCount = t.sliceCount) :
    ∃ w', Run.run (step c) w (pollAll batchId indices) = some w' ∧ w'.batches.lookup batchId ≠ none ∧
      ∀ i t', w'.taskAt (batchId, i) = some t' →
        ∃ t, w.taskAt (batchId, i) = some t ∧ (t.isFinished = true ∨ i ∈ indices → t'.isFinished = true) := by
  induction indices generalizing w with
  | nil => exact ⟨w, rfl, there, fun i t' found => ⟨t', found, fun done => done.resolve_right not_mem_nil⟩⟩
  | cons j rest ih =>
    obtain ⟨t, found⟩ := present j mem_cons_self
    let polled := w.modifyTask (batchId, j) (fun t =>
      if t.successSliceCount + t.failedSliceCount = t.sliceCount then { t with isFinished := true } else t)
    have first : w.step c (.getTransferStatus (batchId, j) (fun _ => false)) = some polled := by
      simp only [step, getTransferStatus, found, map_some, polled]
    -- each task before the poll, from what it is after it
    have back (i : Nat) (t' : TransferTask) (after : polled.taskAt (batchId, i) = some t') :
        ∃ t, w.taskAt (batchId, i) = some t ∧ t'.successSliceCount + t'.failedSliceCount = t'.sliceCount ∧
          (t.isFinished = true ∨ i = j → t'.isFinished = true) := by
      obtain ⟨t, before, changed⟩ := taskAt_changed (taskAt_modifyTask w ..) after
      have all := ceased i t before
      obtain ⟨-, rfl⟩ | ⟨other, rfl⟩ := changed
      · rw [if_pos all]
        exact ⟨t, before, all, fun _ => rfl⟩
      · exact ⟨t, before, all, fun done => done.resolve_right (fun same => other (congrArg (Prod.mk batchId) same))⟩
    have present' (i : Nat) (member : i ∈ rest) : ∃ t, polled.taskAt (batchId, i) = some t := by
      obtain ⟨t, before⟩ := present i (mem_cons_of_mem _ member)
      rw [taskAt_modifyTask, before]
      split
      · exact ⟨_, rfl⟩
      · exact ⟨t, rfl⟩
    have over' (i : Nat) (t' : TransferTask) (after : polled.taskAt (batchId, i) = some t') :
        t'.successSliceCount + t'.failedSliceCount = t'.sliceCount := by
      obtain ⟨-, -, all, -⟩ := back i t' after
      exact all
    obtain ⟨w', runs, still, finished⟩ :=
      ih (fun none => there ((lookup_modifyTask_eq_none _ _ _ _).mp none)) present' over'
    refine ⟨w', bind_eq_some_iff.mpr ⟨polled, first, runs⟩, still, fun i t' after => ?_⟩
    obtain ⟨mid, middle, later⟩ := finished i t' after
    obtain ⟨t, before, -, here⟩ := back i mid middle
    refine ⟨t, before, fun done => later ?_⟩
    rcases done with done | member
    · exact .inl (here (.inl done))
    · rcases mem_cons.mp member with same | inside
      · exact .inl (here (.inr same))
      · exact .inr inside

/-- If every submission finds its transports and devices, then a batch whose slices have all been marked reports
the truth about each of its tasks, and can be freed. -/
theorem World.status_truthful_of_resolves (c : GlobalConfig) {events : List Event} {w : World}
    (reached : Run.run (World.step c) World.start events = some w) (lengths : ∀ event ∈ events, SomeBytes event)
    (resolves : ∀ event ∈ events, Resolves c event) {batchId : Nat} {batch : BatchDesc}
    (found : w.batches.lookup batchId = some batch) (marked : ∀ x ∈ w.pool, (w.slices x).task.1 ≠ batchId) :
    (∀ t ∈ batch.taskList, ∀ expired, t.Truthful expired) ∧
      ∀ thread, ∃ w', Run.run (World.step c) w (pollAll batchId (List.range batch.taskList.length)) = some w' ∧
        (w'.freeBatchID thread batchId).map Prod.snd = some .ok := by
  have guarded : Run.Guarded (step c) (fun _ event => SomeBytes event ∧ Resolves c event) start events :=
    Run.guarded_of_forall start (fun event member => ⟨lengths event member, resolves event member⟩)
  have settled : w.Settled :=
    Run.guarded_invariant (fun _ _ _ before met done => before.step met.1 met.2 done) settled_start reached guarded
  have place (i : Nat) : w.taskAt (batchId, i) = batch.taskList[i]? := by
    unfold taskAt
    rw [found]
    rfl
  have none (i : Nat) : w.waiting w.pool (batchId, i) = 0 := by
    apply countP_eq_zero.mpr
    intro x member
    simp only [decide_eq_true_eq]
    exact fun same => marked x member (congrArg Prod.fst same)
  refine ⟨fun t member expired => ?_, fun thread => ?_⟩
  · obtain ⟨i, here⟩ := mem_iff_getElem?.mp member
    exact (settled.over ((place i).trans here) (none i)).2 expired
  · have present (i : Nat) (member : i ∈ range batch.taskList.length) : ∃ t, w.taskAt (batchId, i) = some t := by
      rw [place]
      exact ⟨_, List.getElem?_eq_getElem (mem_range.mp member)⟩
    obtain ⟨w', runs, still, finished⟩ := pollAll_finishes (c := c) (by rw [found]; exact some_ne_none _) present
      (fun i t here => (settled.over here (none i)).1)
    refine ⟨w', runs, ?_⟩
    obtain ⟨batch', there⟩ := ne_none_iff_exists'.mp still
    have all : batch'.taskList.all TransferTask.isFinished = true := by
      apply List.all_eq_true.mpr
      intro t' member
      obtain ⟨i, here⟩ := mem_iff_getElem?.mp member
      obtain ⟨t, before, done⟩ := finished i t' (by unfold taskAt; rw [there]; exact here)
      rw [place] at before
      exact done (.inr (mem_range.mpr (List.getElem?_eq_some_iff.mp before).1))
    unfold freeBatchID
    rw [there, map_some, if_pos all]
    rfl

end

/-! ## Two requests -/

namespace Sample

def twoMarked : List Event :=
  [.allocateBatchID 2, .submitTransfer 0 0 [request, request] all, .mark 1 false, .mark 0 true]

theorem all_resolves (thread batchId : Nat) (entries : List TransferRequest) :
    Resolves config (.submitTransfer thread batchId entries all) :=
  ⟨fun _ _ => ⟨.rdma, rfl⟩, fun _ _ _ _ _ => ⟨(0, 0), rfl, rfl⟩⟩

end Sample

open Sample in
/-- One request is completed and the other one failed. -/
theorem two_marked_truthful : ∃ w batch, Run.run (World.step config) World.start twoMarked = some w ∧
    w.batches.lookup 0 = some batch ∧ batch.taskList.map (·.status (fun _ => false)) = [.completed, .failed] ∧
    (∀ t ∈ batch.taskList, t.Truthful (fun _ => false)) ∧
    ∃ w', Run.run (World.step config) w (pollAll 0 (List.range batch.taskList.length)) = some w' ∧
      (w'.freeBatchID 0 0).map Prod.snd = some .ok := by
  have ends : ((Run.run (step config) start twoMarked).any (fun w => decide (w.pool = []) &&
      (w.batches.lookup 0).any (fun batch =>
        decide (batch.taskList.map (·.status (fun _ => false)) = [.completed, .failed])))) =
      true := by decide +kernel
  obtain ⟨w, reached, facts⟩ := (Option.any_eq_true _ _).mp ends
  obtain ⟨pool, facts⟩ := (Bool.and_eq_true _ _).mp facts
  obtain ⟨batch, found, reports⟩ := (Option.any_eq_true _ _).mp facts
  have lengths : ∀ event ∈ twoMarked, SomeBytes event := by
    simp only [twoMarked, forall_mem_cons]
    exact ⟨trivial, by simp [SomeBytes, request], trivial, trivial, fun _ none => (nomatch none)⟩
  have resolves : ∀ event ∈ twoMarked, Resolves config event := by
    simp only [twoMarked, forall_mem_cons]
    exact ⟨trivial, all_resolves _ _ _, trivial, trivial, fun _ none => (nomatch none)⟩
  obtain ⟨truthful, freed⟩ := status_truthful_of_resolves config reached lengths resolves found
    (by rw [of_decide_eq_true pool]; exact fun _ none => (nomatch none))
  exact ⟨w, batch, reached, found, of_decide_eq_true reports, fun t member => truthful t member _, freed 0⟩

open Sample in
/-- The first request waits for ever and the second one is reported as completed, while nothing has been handed
over. -/
theorem failed_submission_misreported :
    (Run.run (World.step config) World.start
      ([.allocateBatchID 2, .submitTransfer 0 0 [request, request] (surroundings (· == 0))] ++
        pollAll 0 [0, 1])).map (fun w =>
        (w.pool, (w.taskAt (0, 0)).map (·.status (fun _ => false)), (w.taskAt (0, 1)).map (·.status (fun _ => false)),
          (w.taskAt (0, 1)).map (·.transferredBytes), (w.freeBatchID 0 0).map Prod.snd)) =
      some ([], some .waiting, some .completed, some 0, some .batchBusy) := by decide +kernel

end Mooncake.Engine.Batch
