import Mooncake.Engine.SlicePlaces
import Mooncake.Lib.Run

/-! Slices are neither lost nor marked twice, as long as no queue pair is reset that has slices on it. -/
namespace Mooncake.Engine.WorkerPool

open Option Multiset List World
namespace World
variable {c : Config} {w w' : World} {hand : Multiset Nat} {x threadId id : Nat} {path : String} {ep : EndPoint} {qp : Qp}

/-! ## Posting -/

theorem mem_inWorkers (member : x ∈ (w.localQueue threadId).listAt path) : x ∈ w.inWorkers := by
  have taken := inWorkers_insert w threadId path []
  rw [coe_nil, add_zero] at taken
  rw [← taken]
  exact mem_add.mpr (.inr (mem_coe.mpr member))

theorem mem_posted (found : w.endpoints.lookup id = some ep) (member : x ∈ ep.outstanding) : x ∈ w.posted :=
  Table.mem_total.mpr ⟨id, ep, found, mem_coe.mpr member⟩

variable {failed : List Nat} {q : Nat} {s : World × List Nat} {e : Completion}

theorem mem_outstanding (place : ep.qps[q]? = some qp) (member : x ∈ qp.posted) : x ∈ ep.outstanding :=
  mem_flatMap.mpr ⟨qp, mem_of_getElem? place, member⟩

theorem Sound.not_posted (sound : Sound c w hand) (member : x ∈ (w.localQueue threadId).listAt path) :
    x ∉ w.posted := by
  have distinct := (nodup_add.mp (nodup_add.mp sound.balanced.nodup).1).2.2
  exact disjoint_left.mp distinct (mem_add.mpr (.inr (mem_inWorkers member)))

theorem posted_setQp (found : w.endpoints.lookup id = some ep) (place : ep.qps[q]? = some qp) (qp' : Qp) :
    Table.total (fun _ ep => Multiset.ofList ep.outstanding) (w.endpoints.insert id { ep with qps := ep.qps.set q qp' }) +
      qp.posted = w.posted + qp'.posted := by
  have bags := posted_insert found { ep with qps := ep.qps.set q qp' }
  have bag := Ledger.coe_flatMap_set (f := Qp.posted) place qp'
  apply add_right_cancel (b := ofList ep.outstanding)
  rw [add_right_comm, bags, add_assoc]
  refine (congrArg (w.posted + ·) bag).trans ?_
  rw [add_comm (ofList _) (ofList qp'.posted), ← add_assoc]
  rfl

theorem ok_setQp {slices slices' : Nat → Slice} {qp' : Qp} (ok : ep.Ok slices id)
    (depth : qp'.wrDepth = qp'.posted.length) (connected : ep.connected = true)
    (points : ∀ y ∈ qp'.posted, (slices' y).qpDepth = some (id, q))
    (others : ∀ y ∈ ep.outstanding, (slices' y).qpDepth = (slices y).qpDepth) :
    EndPoint.Ok slices' id { ep with qps := ep.qps.set q qp' } := by
  refine ⟨fun qp'' member => ?_, fun q' qp'' place y member => ?_, fun unconnected => ?_⟩
  · rcases mem_or_eq_of_mem_set member with old | rfl
    · exact ok.depth qp'' old
    · exact depth
  · by_cases same : q = q'
    · subst same
      rw [getElem?_set_self'] at place
      obtain ⟨_, _, rfl⟩ := map_eq_some_iff.mp place
      exact points y member
    · rw [getElem?_set_ne same] at place
      exact (others y (mem_outstanding place member)).trans (ok.points q' qp'' place y member)
  · cases connected.symm.trans unconnected

theorem Sound.post {taken accepted bad rest : List Nat} {cqOutstanding : Nat → Int} (sound : Sound c w hand)
    (found : w.endpoints.lookup id = some ep) (connected : ep.connected = true) (place : ep.qps[q]? = some qp)
    (listed : (w.localQueue threadId).listAt path = taken ++ rest) (divided : accepted ++ bad = taken) :
    Sound c { w.setLocalQueue threadId ((w.localQueue threadId).insert path rest) with
      slices := fun x => if x ∈ taken then { w.slices x with status := .posted, qpDepth := some (id, q) } else w.slices x
      endpoints := w.endpoints.insert id
        { ep with qps := ep.qps.set q ⟨qp.posted ++ accepted, qp.wrDepth + accepted.length⟩ }
      cqOutstanding := cqOutstanding } (hand + bad) := by
  have ok := sound.wellFormed.ok id ep found
  have workers : (w.setLocalQueue threadId ((w.localQueue threadId).insert path rest)).inWorkers + taken = w.inWorkers := by
    have change := inWorkers_insert w threadId path rest
    rw [listed, ← coe_add, ← add_assoc] at change
    exact add_right_cancel change
  have posted := posted_setQp found place ⟨qp.posted ++ accepted, qp.wrDepth + accepted.length⟩
  rw [← coe_add, add_left_comm, add_comm] at posted
  have posted' := add_left_cancel posted
  have places : w.inShards + (w.setLocalQueue threadId ((w.localQueue threadId).insert path rest)).inWorkers +
      Table.total (fun _ ep => ofList ep.outstanding) (w.endpoints.insert id
        { ep with qps := ep.qps.set q ⟨qp.posted ++ accepted, qp.wrDepth + accepted.length⟩ }) + bad = w.pending := by
    rw [posted', pending, ← workers, ← divided, ← coe_add]
    abel
  have apart : ∀ y ∈ w.posted, y ∉ taken := fun y member inside =>
    sound.not_posted (listed ▸ mem_append_left _ inside) member
  have keeps : ∀ y ∈ w.posted, (if y ∈ taken then { w.slices y with status := .posted, qpDepth := some (id, q) }
      else w.slices y).qpDepth = (w.slices y).qpDepth := fun y member => by rw [if_neg (apart y member)]
  refine sound.move (fun y => ?_) ?_ (fun y member => .inl ?_) rfl rfl ⟨fun id' ep' found' => ?_, fun id' large => ?_⟩
  · dsimp only
    split
    · exact ⟨rfl, rfl, rfl⟩
    · exact ⟨rfl, rfl, rfl⟩
  · rw [← places]
    exact (add_assoc _ hand _).symm.trans (add_right_comm _ hand _)
  · rw [← places]
    exact mem_add.mpr (.inl member)
  · rcases Table.lookup_insert_eq_some.mp found' with ⟨rfl, rfl⟩ | ⟨-, before⟩
    · refine ok_setQp ok ?_ connected (fun y member => ?_) fun y member => keeps y (mem_posted found member)
      · rw [ok.depth qp (mem_of_getElem? place), length_append, Int.natCast_add]
      · rcases mem_append.mp member with old | new
        · exact (keeps y (mem_posted found (mem_outstanding place old))).trans (ok.points q qp place y old)
        · have inside : y ∈ taken := divided ▸ mem_append_left _ new
          dsimp only
          rw [if_pos inside]
    · exact (sound.wellFormed.ok id' ep' before).congr fun y member => keeps y (mem_posted before member)
  · by_cases same : id' = id
    · subst same
      cases (sound.wellFormed.unused id' large).symm.trans found
    · exact (AList.lookup_insert_ne same).trans (sound.wellFormed.unused id' large)

/-- The slices that a thread has in its hand have a retry left. -/
def Holding (c : Config) (s : World × List Nat) : Prop :=
  Sound c s.1 s.2 ∧ ∀ x ∈ s.2, (s.1.slices x).retryCnt < (c.request x).maxRetryCnt

theorem mem_pending (member : x ∈ (w.localQueue threadId).listAt path) : x ∈ w.pending :=
  mem_add.mpr (.inl (mem_add.mpr (.inr (mem_inWorkers member))))

section
variable (holding : Holding c (w, failed))
include holding

theorem Holding.postSlices (connected : w.connected id = true) (path : String)
    (choice : Choice) : Holding c (w.postSlices c threadId id path choice failed) := by
  obtain ⟨sound, left⟩ := holding
  unfold World.postSlices
  split
  · exact ⟨sound, left⟩
  next ep found =>
    have ready : ep.connected = true := by
      rw [World.connected, found] at connected
      exact connected
    dsimp only
    split
    · exact ⟨sound, left⟩
    next qp place =>
      refine ⟨?_, fun x member => ?_⟩
      · rw [← coe_add]
        exact sound.post found ready place (take_append_drop _ _).symm (take_append_drop _ _)
      · have before : (w.slices x).retryCnt < (c.request x).maxRetryCnt := by
          rcases mem_append.mp member with old | new
          · exact left x old
          · exact sound.queued x (mem_pending (mem_of_mem_take (mem_of_mem_drop new)))
        dsimp only
        split
        · exact before
        · exact before

theorem Holding.clearEntry (frame : Frame w w') (path : String) :
    Holding c (w'.clearEntry threadId path, failed ++ (w.localQueue threadId).listAt path) := by
  obtain ⟨sound, left⟩ := holding
  have queue : w'.localQueue threadId = w.localQueue threadId := by
    unfold localQueue
    rw [frame.collective]
  have cleared := (sound.frame frame).clearEntry threadId path
  refine ⟨?_, fun x member => ?_⟩
  · rw [← coe_add, ← queue]
    exact cleared
  · have same : (w'.clearEntry threadId path).slices = w.slices := frame.slices
    rw [same]
    rcases mem_append.mp member with old | new
    · exact left x old
    · exact sound.queued x (mem_pending new)

theorem Holding.frame (frame : Frame w w') : Holding c (w', failed) := by
  refine ⟨holding.1.frame frame, fun x member => ?_⟩
  rw [frame.slices]
  exact holding.2 x member

end

theorem connected_doSetupConnection (found : (w.endpoints.lookup id).any EndPoint.active = true) :
    (w.modifyEndpoint id (·.doSetupConnection .done)).connected id = true := by
  obtain ⟨ep, present, -⟩ := (any_eq_true _ _).mp found
  unfold modifyEndpoint
  rw [present]
  unfold connected
  rw [AList.lookup_insert]
  rfl

theorem Holding.postEntry (holding : Holding c s) (choice : String → Choice) (path : String) :
    Holding c (postEntry c threadId choice s path) := by
  obtain ⟨w, failed⟩ := s
  have reached := frame_endpoint c holding.1.wellFormed path (choice path).constructs
  unfold postEntry
  dsimp only
  split
  · exact holding
  · cases result : w.endpoint c path (choice path).constructs with
    | mk w' found =>
      rw [result] at reached
      cases found with
      | none => exact holding.clearEntry reached path
      | some id =>
        have well := reached.wellFormed
        dsimp only
        split
        · refine holding.clearEntry (reached.trans ?_) path
          split
          · exact frame_deleteEndpoint well path
          · exact .refl well
        next active =>
          have present : (w'.endpoints.lookup id).any EndPoint.active = true := by simpa using active
          split
          next ready => exact (holding.frame reached).postSlices ready path (choice path)
          next unconnected =>
            have tried := frame_doSetupConnection well (Bool.eq_false_iff.mpr unconnected) (choice path).setup
            split
            next done =>
              refine (holding.frame (reached.trans tried)).postSlices ?_ path (choice path)
              rw [done]
              exact connected_doSetupConnection present
            · have inactive := frame_setActive tried.wellFormed id false
              have counted := inactive.trans (frame_countFailure inactive.wellFormed)
              exact holding.clearEntry ((reached.trans tried).trans counted) path

theorem Holding.postEntries (holding : Holding c s) (threadId : Nat) (choice : String → Choice)
    (paths : List String) : Holding c (paths.foldl (World.postEntry c threadId choice) s) := by
  induction paths generalizing s with
  | nil => exact holding
  | cons path rest ih => exact ih (holding.postEntry choice path)

theorem Sound.postLocal (sound : Sound c w 0) (threadId : Nat) (view : Metadata) (choice : String → Choice) :
    Sound c (w.postLocal c threadId view choice) 0 := by
  unfold World.postLocal
  split
  · refine Sound.redispatch ?_ view
    have workers : (w.setLocalQueue threadId ∅).inWorkers + ofList ((w.localQueue threadId).entries.flatMap (·.2)) =
        w.inWorkers := by
      rw [← Table.contents_eq]
      exact (inWorkers_setLocalQueue w threadId ∅).trans (add_zero _)
    have places : (w.setLocalQueue threadId ∅).pending + ofList ((w.localQueue threadId).entries.flatMap (·.2)) =
        w.pending := by
      unfold pending
      rw [← workers, ← add_assoc]
      exact add_right_comm _ _ _
    refine sound.move (fun _ => ⟨rfl, rfl, rfl⟩) (places.trans (add_zero _).symm) (fun y member => .inl ?_) rfl rfl
      ⟨sound.wellFormed.ok, sound.wellFormed.unused⟩
    rw [← places]
    exact mem_add.mpr (.inl member)
  · have holding : Holding c (w, []) := ⟨sound, fun _ none => (nomatch none)⟩
    obtain ⟨posted, left⟩ := holding.postEntries threadId choice (w.localQueue threadId).keys
    refine Sound.redispatch ?_ view
    refine posted.retryAll (fun x member => mem_coe.mpr member) ?_ left
    exact coe_nodup.mp (nodup_add.mp posted.balanced.nodup).2.1

theorem Sound.performPostSend (sound : Sound c w 0) (threadId : Nat) (view : Metadata) (choice : String → Choice) :
    Sound c (w.performPostSend c threadId view choice) 0 :=
  (sound.drainAll (shardsOf c threadId)).postLocal threadId view choice

/-! ## Completions -/

theorem release_complete
    (points : ∀ ep qp, w.endpoints.lookup e.endpoint = some ep → ep.qps[e.qpIndex]? = some qp →
      e.slice ∈ qp.posted → (w.slices e.slice).qpDepth = some (e.endpoint, e.qpIndex))
    (completed : w.complete c threadId e = some w') :
    ∃ ep qp cqOutstanding, w.endpoints.lookup e.endpoint = some ep ∧ ep.qps[e.qpIndex]? = some qp ∧ e.slice ∈ qp.posted ∧
      w'.releaseDepth e.slice = { w with
        endpoints := w.endpoints.insert e.endpoint
          { ep with qps := ep.qps.set e.qpIndex ⟨qp.posted.erase e.slice, qp.wrDepth - 1⟩ }
        cqOutstanding := cqOutstanding } := by
  obtain ⟨ep, found, inner⟩ := bind_eq_some_iff.mp completed
  obtain ⟨qp, place, guarded⟩ := bind_eq_some_iff.mp inner
  split at guarded
  next fine =>
    cases guarded
    refine ⟨ep, qp, Function.update w.cqOutstanding ep.cq (w.cqOutstanding ep.cq - 1), found, place, fine.1, ?_⟩
    unfold releaseDepth
    dsimp only
    rw [points ep qp found place fine.1]
    dsimp only [modifyEndpoint]
    rw [AList.lookup_insert]
    dsimp only
    rw [AList.insert_insert]
    have qps : (ep.qps.set e.qpIndex ⟨qp.posted.erase e.slice, qp.wrDepth⟩).modify e.qpIndex
        (fun qp => { qp with wrDepth := qp.wrDepth - 1 }) =
          ep.qps.set e.qpIndex ⟨qp.posted.erase e.slice, qp.wrDepth - 1⟩ := by
      apply ext_getElem?
      intro i
      simp only [getElem?_modify, getElem?_set]
      split
      · split
        · rfl
        · rfl
      · simp
    rw [qps]
  · cases guarded

theorem Sound.complete (sound : Sound c w 0) (completed : w.complete c threadId e = some w') :
    Sound c (w'.releaseDepth e.slice) (0 + {e.slice}) ∧
      ((w'.releaseDepth e.slice).slices e.slice).retryCnt < (c.request e.slice).maxRetryCnt := by
  obtain ⟨ep, qp, cqOutstanding, found, place, member, released⟩ := release_complete
    (fun ep qp found place member => (sound.wellFormed.ok _ ep found).points _ qp place _ member) completed
  have ok := sound.wellFormed.ok _ ep found
  have present := mem_outstanding place member
  have inside : e.slice ∈ w.pending := mem_add.mpr (.inr (mem_posted found present))
  have connected : ep.connected = true := by
    by_contra unconnected
    rw [ok.idle (Bool.eq_false_iff.mpr unconnected)] at present
    cases present
  have posted := posted_setQp found place ⟨qp.posted.erase e.slice, qp.wrDepth - 1⟩
  rw [coe_eq_coe.mpr (perm_cons_erase member), ← cons_coe, ← singleton_add, ← add_assoc] at posted
  have places : w.inShards + w.inWorkers + Table.total (fun _ ep => ofList ep.outstanding) (w.endpoints.insert e.endpoint
      { ep with qps := ep.qps.set e.qpIndex ⟨qp.posted.erase e.slice, qp.wrDepth - 1⟩ }) + {e.slice} = w.pending := by
    rw [add_assoc, add_right_cancel posted]
    rfl
  have ok' : EndPoint.Ok w.slices e.endpoint
      { ep with qps := ep.qps.set e.qpIndex ⟨qp.posted.erase e.slice, qp.wrDepth - 1⟩ } := by
    refine ok_setQp ok ?_ connected (fun y posted => ?_) fun _ _ => rfl
    · have length := length_erase_of_mem member
      have some_length := length_pos_of_mem member
      have depth := ok.depth qp (mem_of_getElem? place)
      dsimp only
      omega
    · exact ok.points _ qp place y (mem_of_mem_erase posted)
  rw [released]
  refine ⟨?_, sound.queued e.slice inside⟩
  refine sound.move (fun _ => ⟨rfl, rfl, rfl⟩) ?_ (fun y other => .inl ?_) rfl rfl
    ⟨fun id' => (sound.wellFormed.insert found ok').1, fun id' => (sound.wellFormed.insert found ok').2⟩
  · rw [zero_add, add_zero]
    exact places
  · rw [← places]
    exact mem_add.mpr (.inl other)

theorem Sound.handleCompletion (sound : Sound c w (0 + {x}))
    (left : (w.slices x).retryCnt < (c.request x).maxRetryCnt) (threadId : Nat) (success : Bool) :
    Sound c (w.handleCompletion c threadId x success) 0 := by
  unfold World.handleCompletion
  split
  · have well := sound.wellFormed.modifySlice x
      (f := fun slice => { slice with status := .success, marks := slice.marks + 1 }) fun _ => rfl
    exact sound.settle rfl rfl rfl rfl rfl rfl rfl ⟨well.ok, well.unused⟩
  · have counted := frame_countFailure sound.wellFormed
    have frame := counted.trans (frame_deleteEndpoint counted.wellFormed (w.slices x).peerNicPath)
    have failed := sound.frame frame
    rw [← frame.slices] at left
    have retried := failed.retry (mem_add.mpr (.inr (Multiset.mem_singleton_self x))) left
    dsimp only
    split
    · exact retried.markFailed
    next more =>
      have queued := retried.requeue threadId (w.slices x).peerNicPath (Nat.lt_of_not_le more)
      exact queued.frame ⟨rfl, rfl, rfl, rfl, rfl, rfl, ⟨queued.wellFormed.ok, queued.wellFormed.unused⟩⟩

theorem Sound.performPollCq {completions : List Completion} (sound : Sound c w 0)
    (polled : w.performPollCq c threadId completions = some w') : Sound c w' 0 := by
  induction completions generalizing w with
  | nil =>
    cases polled
    exact sound
  | cons e rest ih =>
    obtain ⟨mid, first, later⟩ := bind_eq_some_iff.mp polled
    obtain ⟨done, completed, rfl⟩ := map_eq_some_iff.mp first
    obtain ⟨held, left⟩ := sound.complete completed
    exact ih (held.handleCompletion left threadId e.success) later

/-! ## Runs -/

/-- The queue pairs that the event resets have no slices. -/
def resetsQuiet (w : World) : Event → Bool
  | .setupConnectionsByPassive _ _ =>
    match w.daemon with
    | .found id => w.quiet id
    | _ => true
  | .deviceFatal => w.storedEndpoints.all w.quiet
  | _ => true

theorem Sound.step {e : Event} (sound : Sound c w 0) (quiet : w.resetsQuiet e = true) (next : w.step c e = some w') :
    Sound c w' 0 := by
  have well := sound.wellFormed
  cases e with
  | submitPostSend sliceList view =>
    simp only [World.step] at next
    split at next
    next fine =>
      cases next
      exact sound.submitAll fine.1 fine.2 view _
    · cases next
  | performPostSend threadId view choice =>
    simp only [World.step] at next
    split at next
    · cases next
      exact sound.performPostSend threadId view choice
    · cases next
  | performPollCq threadId completions =>
    simp only [World.step] at next
    split at next
    · exact sound.performPollCq next
    · cases next
  | onSetupRdmaConnections path =>
    simp only [World.step] at next
    split at next
    · cases next
      have deleted := frame_deleteEndpoint well path
      exact sound.frame (deleted.trans (frame_enterDaemon deleted.wellFormed _))
    · cases next
  | findEndpoint constructs =>
    simp only [World.step] at next
    split at next
    next path _ =>
      have reached := frame_endpoint c well path constructs
      split at next
      next w' result =>
        rw [result] at reached
        cases next
        exact sound.frame (reached.trans (frame_enterDaemon reached.wellFormed _))
      next w' id result =>
        rw [result] at reached
        cases next
        exact sound.frame (reached.trans (frame_enterDaemon reached.wellFormed _))
    · cases next
  | setupConnectionsByPassive consistent setup =>
    simp only [World.step] at next
    simp only [resetsQuiet] at quiet
    split at next
    next id holds =>
      rw [holds] at quiet
      cases next
      have set := frame_setupConnectionsByPassive well quiet consistent setup
      exact sound.frame (set.trans (frame_enterDaemon set.wellFormed _))
    · cases next
  | deleteEndpoint path =>
    cases next
    exact sound.frame (frame_deleteEndpoint well path)
  | evictEndpoint =>
    cases next
    exact sound.frame (frame_evictEndpoint well)
  | reclaimEndpoint =>
    cases next
    exact sound.frame (frame_reclaimEndpoint well)
  | qpFatal endpoint =>
    cases next
    exact sound.frame (frame_setActive well endpoint false)
  | deviceFatal =>
    cases next
    have inactive : Frame w { w with contextActive := false } := ⟨rfl, rfl, rfl, rfl, rfl, rfl, ⟨well.ok, well.unused⟩⟩
    exact sound.frame (inactive.trans (frame_disconnectAll _ inactive.wellFormed (all_eq_true.mp quiet)))
  | contextActive =>
    cases next
    exact sound.frame ⟨rfl, rfl, rfl, rfl, rfl, rfl, ⟨well.ok, well.unused⟩⟩

theorem Sound.start {retryCnt : Nat → Nat} (fresh : ∀ x, retryCnt x < (c.request x).maxRetryCnt) :
    Sound c (start retryCnt) 0 where
  balanced := ⟨fun _ => rfl, rfl⟩
  queued := fun _ none => (nomatch none)
  fresh := fun x _ => fresh x
  within := fun x => Nat.le_of_lt (fresh x)
  wellFormed := ⟨fun id _ found => (nomatch (AList.lookup_empty id).symm.trans found), fun id _ => AList.lookup_empty id⟩

def places (w : World) (x : Nat) : Nat :=
  w.inShards.count x + w.inWorkers.count x + w.posted.count x + (w.slices x).marks

theorem slices_kept_of_resets_quiet (c : Config) (retryCnt : Nat → Nat)
    (fresh : ∀ x, retryCnt x < (c.request x).maxRetryCnt) (events : List Event) (w : World)
    (reached : Run.run (World.step c) (World.start retryCnt) events = some w)
    (quiet : Run.Guarded (World.step c) (fun w e => w.resetsQuiet e = true) (World.start retryCnt) events) :
    (∀ x, (w.slices x).handed = true → w.places x = 1) ∧
      (∀ x, (w.slices x).handed = true → (w.slices x).retryCnt ≤ (c.request x).maxRetryCnt) ∧
      (w.processedSliceCount = w.submittedSliceCount ↔ ∀ x, x ∉ w.inShards ∧ x ∉ w.inWorkers ∧ x ∉ w.posted) := by
  have sound : Sound c w 0 := Run.guarded_invariant (P := fun w => Sound c w 0)
    (fun _ _ _ sound quiet next => sound.step quiet next) (.start fresh) reached quiet
  have balanced := sound.balanced
  rw [add_zero] at balanced
  refine ⟨fun x handed => ?_, fun x _ => sound.within x, ?_⟩
  · have once := balanced.once x
    rw [handed, if_pos rfl, pending, count_add, count_add] at once
    exact once
  · rw [balanced.processed_eq_iff, eq_zero_iff_forall_notMem]
    refine forall_congr' fun x => ?_
    rw [pending, mem_add, mem_add]
    tauto

end World

/-! ## One slice -/

namespace Sample

def config : Config where
  workersPerCtx := 1
  numQpPerEp := 1
  maxWr := 4
  maxCqe := 4
  maxEpPerCtx := 2
  cqCount := 1
  hint := ""
  request := fun _ => ⟨1, 4096, 64, 2⟩

def segment : SegmentDesc where
  name := "peer"
  devices := [⟨"a", 1, "gid"⟩]
  buffers := [⟨"cpu:0", 4096, 64, [1], [1]⟩]
  topology := (∅ : Topology.Matrix).insert "cpu:0" ⟨["a"], []⟩

def view : Metadata := ⟨fun _ => some segment, fun _ => some segment, [], fun _ _ _ => (0, 0)⟩

def choice : String → Choice := fun _ => ⟨true, false, .done, 0, 4⟩

/-- Between the deletion of the endpoint and the search for it a worker puts a new one into the store and posts
the slice there. -/
def reconnected : List Event :=
  [.submitPostSend [0] view, .onSetupRdmaConnections "peer@a", .performPostSend 0 view choice, .findEndpoint true,
    .setupConnectionsByPassive true .done]

/-- The slice is posted, fails and is posted again on a new endpoint; its completion arrives after the peer has
connected to another one in its place. -/
def retried : List Event :=
  [.submitPostSend [0] view, .performPostSend 0 view choice, .performPollCq 0 [⟨0, 0, 0, false⟩],
    .performPostSend 0 view choice,
    .performPostSend 0 view choice, .onSetupRdmaConnections "peer@a", .findEndpoint true,
    .setupConnectionsByPassive true .done, .performPollCq 0 [⟨0, 1, 0, true⟩]]

end Sample

open Sample in
/-- The slice that was posted is nowhere, and the counters never agree again. -/
theorem slice_lost_by_reconnection : ∃ w, Run.run (World.step config) (World.start fun _ => 0) reconnected = some w ∧
    (w.slices 0).handed = true ∧ w.places 0 = 0 ∧ w.processedSliceCount ≠ w.submittedSliceCount ∧ w.pending = 0 := by
  have outcome : (Run.run (step config) (start fun _ => 0) reconnected).any (fun w =>
      (w.slices 0).handed &&
        decide (w.places 0 = 0 ∧ w.processedSliceCount ≠ w.submittedSliceCount ∧ w.pending = 0)) = true := by
    decide +kernel
  obtain ⟨w, reached, facts⟩ := (any_eq_true _ _).mp outcome
  obtain ⟨handed, lost⟩ := (Bool.and_eq_true _ _).mp facts
  exact ⟨w, reached, handed, of_decide_eq_true lost⟩

open Sample in
theorem slice_retried_kept : ∃ w, Run.run (World.step config) (World.start fun _ => 0) retried = some w ∧
    (w.slices 0).retryCnt = 1 ∧ (∀ x, (w.slices x).handed = true → w.places x = 1) ∧
      (∀ x, (w.slices x).handed = true → (w.slices x).retryCnt ≤ (config.request x).maxRetryCnt) ∧
      (w.processedSliceCount = w.submittedSliceCount ↔ ∀ x, x ∉ w.inShards ∧ x ∉ w.inWorkers ∧ x ∉ w.posted) := by
  have outcome : (Run.run (step config) (start fun _ => 0) retried).any (fun w =>
      decide ((w.slices 0).retryCnt = 1)) = true := by decide +kernel
  obtain ⟨w, reached, once⟩ := (any_eq_true _ _).mp outcome
  exact ⟨w, reached, of_decide_eq_true once,
    slices_kept_of_resets_quiet config (fun _ => 0) (fun _ => Nat.zero_lt_two) retried w
    reached (by decide +kernel)⟩

end Mooncake.Engine.WorkerPool
