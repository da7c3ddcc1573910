import Mooncake.Engine.WorkerPool

/-! What the endpoints of the device have on their queue pairs. Everything that is done to endpoints, except for
posting slices and for dropping them with a queue pair that is reset, leaves the posted slices as they are. -/
namespace Mooncake.Engine.WorkerPool

open Option List AList Table

def EndPoint.outstanding (ep : EndPoint) : List Nat := ep.qps.flatMap Qp.posted

/-- The counters are right, the slices point to them, and an endpoint that is not connected has no slices. -/
structure EndPoint.Ok (slices : Nat → Slice) (id : Nat) (ep : EndPoint) : Prop where
  depth : ∀ qp ∈ ep.qps, qp.wrDepth = qp.posted.length
  points : ∀ (q : Nat) (qp : Qp), ep.qps[q]? = some qp → ∀ x ∈ qp.posted, (slices x).qpDepth = some (id, q)
  idle : ep.connected = false → ep.outstanding = []

namespace EndPoint
variable {ep : EndPoint} {slices slices' : Nat → Slice} {id : Nat}

theorem outstanding_eq_nil : ep.outstanding = [] ↔ ∀ qp ∈ ep.qps, qp.posted = [] := List.flatMap_eq_nil_iff

theorem Ok.congr (ok : ep.Ok slices id) (same : ∀ x ∈ ep.outstanding, (slices' x).qpDepth = (slices x).qpDepth) :
    ep.Ok slices' id where
  depth := ok.depth
  points := fun q qp found x member =>
    (same x (List.mem_flatMap.mpr ⟨qp, List.mem_of_getElem? found, member⟩)).trans (ok.points q qp found x member)
  idle := ok.idle

theorem Ok.of_qps (ok : ep.Ok slices id) (none : ep.outstanding = []) (ep' : EndPoint) (same : ep'.qps = ep.qps) :
    ep'.Ok slices id where
  depth := same ▸ ok.depth
  points := same ▸ ok.points
  idle := fun _ => (congrArg (List.flatMap Qp.posted) same).trans none

theorem doSetupConnection_qps (none : ep.outstanding = []) (setup : Setup) :
    (ep.doSetupConnection setup).qps = ep.qps := by
  have empty : ∀ qp ∈ ep.qps, { qp with posted := [] } = qp := by
    intro qp member
    rw [← outstanding_eq_nil.mp none qp member]
  cases setup with
  | rejected => rfl
  | failedAt qpIndex =>
    refine ext_getElem? fun i => ?_
    rw [doSetupConnection, getElem?_mapIdx]
    cases found : ep.qps[i]? with
    | none => rfl
    | some qp =>
      rw [map_some, empty qp (mem_of_getElem? found), ite_self]
  | done => exact (map_congr_left empty).trans (List.map_id _)

theorem reset_qps (ok : ep.Ok slices id) (none : ep.outstanding = []) :
    ep.qps.map (fun _ => (⟨[], 0⟩ : Qp)) = ep.qps := by
  refine (map_congr_left fun qp member => ?_).trans (List.map_id _)
  have empty := outstanding_eq_nil.mp none qp member
  have depth := ok.depth qp member
  rw [empty] at depth
  exact congrArg₂ Qp.mk empty.symm depth.symm

theorem outstanding_of_reclaimable (ok : ep.Ok slices id) (reclaimable : ep.hasOutstandingSlice = false) :
    ep.outstanding = [] := by
  refine outstanding_eq_nil.mpr fun qp member => ?_
  have unused : (qp.wrDepth != 0) = false :=
    Bool.eq_false_iff.mpr (List.any_eq_false.mp (Bool.or_eq_false_iff.mp reclaimable).2 qp member)
  have depth := ok.depth qp member
  rw [bne_eq_false_iff_eq.mp unused] at depth
  exact length_eq_zero_iff.mp (by omega)

end EndPoint

namespace World

def posted (w : World) : Multiset Nat := Table.total (fun _ ep => Multiset.ofList ep.outstanding) w.endpoints

structure WellFormed (w : World) : Prop where
  ok : ∀ id ep, w.endpoints.lookup id = some ep → ep.Ok w.slices id
  unused : ∀ id, w.nextEndpoint ≤ id → w.endpoints.lookup id = none

/-- The slices, the queues and the counters stay, and the slices on the queue pairs stay posted. -/
structure Frame (w w' : World) : Prop where
  slices : w'.slices = w.slices
  sliceQueue : w'.sliceQueue = w.sliceQueue
  collective : w'.collectiveSliceQueue = w.collectiveSliceQueue
  submitted : w'.submittedSliceCount = w.submittedSliceCount
  processed : w'.processedSliceCount = w.processedSliceCount
  posted : w'.posted = w.posted
  wellFormed : w'.WellFormed

variable {w w' w'' : World} {id : Nat} {path : String}

theorem Frame.refl (well : w.WellFormed) : Frame w w := ⟨rfl, rfl, rfl, rfl, rfl, rfl, well⟩

theorem Frame.trans (first : Frame w w') (second : Frame w' w'') : Frame w w'' where
  slices := second.slices.trans first.slices
  sliceQueue := second.sliceQueue.trans first.sliceQueue
  collective := second.collective.trans first.collective
  submitted := second.submitted.trans first.submitted
  processed := second.processed.trans first.processed
  posted := second.posted.trans first.posted
  wellFormed := second.wellFormed

theorem frame_withStore (well : w.WellFormed) (store : EndpointStore) : Frame w { w with store := store } :=
  ⟨rfl, rfl, rfl, rfl, rfl, rfl, ⟨well.ok, well.unused⟩⟩

theorem frame_enterDaemon (well : w.WellFormed) (daemon : Daemon) : Frame w (w.enterDaemon daemon) :=
  ⟨rfl, rfl, rfl, rfl, rfl, rfl, ⟨well.ok, well.unused⟩⟩

theorem frame_countFailure (well : w.WellFormed) : Frame w w.countFailure :=
  ⟨rfl, rfl, rfl, rfl, rfl, rfl, ⟨well.ok, well.unused⟩⟩

theorem posted_insert {ep : EndPoint} (found : w.endpoints.lookup id = some ep) (ep' : EndPoint) :
    total (fun _ ep => Multiset.ofList ep.outstanding) (w.endpoints.insert id ep') + ep.outstanding =
      w.posted + ep'.outstanding := by
  have change := total_insert_getD (fun _ ep => Multiset.ofList ep.outstanding) (t := w.endpoints) (k := id) (v := ep')
    (d := ⟨"", false, false, 0, []⟩) rfl
  rw [found] at change
  exact change

section
variable (well : w.WellFormed)
include well

theorem WellFormed.insert {ep ep' : EndPoint} (found : w.endpoints.lookup id = some ep)
    (ok : ep'.Ok w.slices id) {id' : Nat} :
    (∀ ep'', (w.endpoints.insert id ep').lookup id' = some ep'' → ep''.Ok w.slices id') ∧
      (w.nextEndpoint ≤ id' → (w.endpoints.insert id ep').lookup id' = none) := by
  by_cases same : id' = id
  · subst same
    rw [lookup_insert]
    refine ⟨fun ep'' here => some.inj here ▸ ok, fun large => ?_⟩
    cases (well.unused id' large).symm.trans found
  · rw [lookup_insert_ne same]
    exact ⟨well.ok id', well.unused id'⟩

theorem frame_modifyEndpoint {f : EndPoint → EndPoint}
    (keeps : ∀ ep, w.endpoints.lookup id = some ep → (f ep).outstanding = ep.outstanding ∧ (f ep).Ok w.slices id) :
    Frame w (w.modifyEndpoint id f) := by
  unfold modifyEndpoint
  cases found : w.endpoints.lookup id with
  | none => exact .refl well
  | some ep =>
    obtain ⟨same, ok⟩ := keeps ep found
    refine ⟨rfl, rfl, rfl, rfl, rfl, ?_, ⟨fun id' => (well.insert found ok).1, fun id' => (well.insert found ok).2⟩⟩
    have change := posted_insert found (f ep)
    rw [same] at change
    exact add_right_cancel change

theorem frame_setActive (id : Nat) (flag : Bool) : Frame w (w.setActive id flag) :=
  frame_modifyEndpoint well fun ep found =>
    ⟨rfl, ⟨(well.ok id ep found).depth, (well.ok id ep found).points, (well.ok id ep found).idle⟩⟩

theorem frame_doSetupConnection (unconnected : w.connected id = false) (setup : Setup) :
    Frame w (w.modifyEndpoint id (·.doSetupConnection setup)) := by
  refine frame_modifyEndpoint well fun ep found => ?_
  rw [connected, found, any_some] at unconnected
  have none := (well.ok id ep found).idle unconnected
  have same := ep.doSetupConnection_qps none setup
  exact ⟨congrArg (flatMap Qp.posted) same, (well.ok id ep found).of_qps none _ same⟩

theorem frame_disconnectUnlocked (quiet : ∀ ep, w.endpoints.lookup id = some ep → ep.outstanding = []) :
    Frame w (w.disconnectUnlocked id) := by
  unfold disconnectUnlocked
  cases found : w.endpoints.lookup id with
  | none => exact .refl well
  | some ep =>
    have ok := well.ok id ep found
    have none := quiet ep found
    have same := ep.reset_qps ok none
    have ok' := ok.of_qps none { ep with connected := false, qps := ep.qps.map (fun _ => ⟨[], 0⟩) } same
    refine ⟨rfl, rfl, rfl, rfl, rfl, ?_, ⟨fun id' => (well.insert found ok').1, fun id' => (well.insert found ok').2⟩⟩
    have change := posted_insert found { ep with connected := false, qps := ep.qps.map (fun _ => ⟨[], 0⟩) }
    have still : EndPoint.outstanding { ep with connected := false, qps := ep.qps.map (fun _ => ⟨[], 0⟩) } =
      ep.outstanding :=
      congrArg (flatMap Qp.posted) same
    rw [still] at change
    exact add_right_cancel change

end

/-! ## The store -/

theorem frame_deleteEndpoint (well : w.WellFormed) (path : String) : Frame w (w.deleteEndpoint path) := by
  unfold deleteEndpoint
  split
  · exact frame_withStore well _
  · exact .refl well

theorem frame_evictEndpoint (well : w.WellFormed) : Frame w w.evictEndpoint := by
  unfold evictEndpoint
  split
  · exact .refl well
  · dsimp only
    split
    · exact (frame_setActive well _ false).trans (frame_withStore (frame_setActive well _ false).wellFormed _)
    · exact frame_withStore well _

theorem frame_reclaimOne (well : w.WellFormed) : Frame w (w.reclaimOne id) := by
  unfold reclaimOne
  cases found : w.endpoints.lookup id with
  | none => exact .refl well
  | some ep =>
    dsimp only
    cases reclaimable : ep.hasOutstandingSlice with
    | true => exact .refl well
    | false =>
      have none := ep.outstanding_of_reclaimable (well.ok id ep found) reclaimable
      refine ⟨rfl, rfl, rfl, rfl, rfl, ?_, ⟨fun id' ep' found' => ?_, fun id' large => ?_⟩⟩
      · have total := total_erase (fun _ ep => Multiset.ofList (EndPoint.outstanding ep)) found
        rw [none] at total
        exact ((zero_add _).symm.trans total.symm)
      · exact well.ok id' ep' (lookup_erase_eq_some.mp found').2
      · by_cases same : id' = id
        · subst same
          exact lookup_erase id' w.endpoints
        · exact (lookup_erase_ne same).trans (well.unused id' large)

theorem frame_foldl {α : Type} {f : World → α → World} (keeps : ∀ w x, w.WellFormed → Frame w (f w x)) (l : List α) :
    ∀ {w : World}, w.WellFormed → Frame w (l.foldl f w) := by
  induction l with
  | nil => exact fun well => .refl well
  | cons x rest ih => exact fun well => (keeps _ x well).trans (ih (keeps _ x well).wellFormed)

theorem frame_reclaimEndpoint (well : w.WellFormed) : Frame w w.reclaimEndpoint :=
  frame_foldl (fun _ _ well => frame_reclaimOne well) _ well

theorem frame_evictWhile (maxSize fuel : Nat) :
    ∀ {w : World}, w.WellFormed → Frame w (evictWhile maxSize fuel w) := by
  induction fuel with
  | zero => exact fun well => .refl well
  | succ fuel ih =>
    intro w well
    unfold evictWhile
    split
    · exact (frame_evictEndpoint well).trans (ih (frame_evictEndpoint well).wellFormed)
    · exact .refl well

theorem frame_emplaceEndpoint (well : w.WellFormed) {ep : EndPoint} (ok : ep.Ok w.slices w.nextEndpoint)
    (none : ep.outstanding = []) : Frame w (w.emplaceEndpoint path ep) := by
  have new := well.unused w.nextEndpoint (Nat.le_refl _)
  refine ⟨rfl, rfl, rfl, rfl, rfl, ?_, ⟨fun id' ep' found => ?_, fun id' large => ?_⟩⟩
  · have total := total_insert_new (fun _ ep => Multiset.ofList (EndPoint.outstanding ep)) (v := ep) new
    rw [none] at total
    exact total.trans (zero_add _)
  · rcases lookup_insert_eq_some.mp found with ⟨rfl, rfl⟩ | ⟨-, before⟩
    · exact ok
    · exact well.ok id' ep' before
  · have later : w.nextEndpoint + 1 ≤ id' := large
    have other : id' ≠ w.nextEndpoint := by omega
    exact (lookup_insert_ne other).trans (well.unused id' (by omega))

theorem construct_ok (c : Config) (w : World) (path : String) (slices : Nat → Slice) (id : Nat) :
    (w.construct c path).Ok slices id ∧ (w.construct c path).outstanding = [] := by
  have empty : ∀ qp ∈ (w.construct c path).qps, qp = ⟨[], 0⟩ := fun qp member => eq_of_mem_replicate member
  have none : (w.construct c path).outstanding = [] := EndPoint.outstanding_eq_nil.mpr fun qp member => by
    rw [empty qp member]
  refine ⟨⟨fun qp member => ?_, fun q qp found x member => ?_, fun _ => none⟩, none⟩
  · rw [empty qp member]
    rfl
  · rw [empty qp (mem_of_getElem? found)] at member
    cases member

theorem frame_insertEndpoint (c : Config) (well : w.WellFormed) (path : String) (constructs : Bool) :
    Frame w (w.insertEndpoint c path constructs).1 := by
  unfold insertEndpoint
  split
  · have evicted := frame_evictWhile c.maxEpPerCtx w.store.endpointMap.keys.length well
    obtain ⟨ok, none⟩ := construct_ok c w path
      (evictWhile c.maxEpPerCtx w.store.endpointMap.keys.length w).slices
      (evictWhile c.maxEpPerCtx w.store.endpointMap.keys.length w).nextEndpoint
    exact evicted.trans (frame_emplaceEndpoint evicted.wellFormed ok none)
  · exact .refl well

theorem frame_endpoint (c : Config) (well : w.WellFormed) (path : String) (constructs : Bool) :
    Frame w (w.endpoint c path constructs).1 := by
  unfold endpoint
  split
  · exact .refl well
  · unfold getEndpoint
    cases w.store.endpointMap.lookup path with
    | some e => exact frame_withStore well _
    | none =>
      have inserted := frame_insertEndpoint c well path constructs
      exact inserted.trans (frame_reclaimEndpoint inserted.wellFormed)

/-! ## Connections that are replaced -/

def quiet (w : World) (id : Nat) : Bool := (w.endpoints.lookup id).all (·.outstanding.isEmpty)

theorem quiet_iff : w.quiet id = true ↔ ∀ ep, w.endpoints.lookup id = some ep → ep.outstanding = [] := by
  unfold quiet
  cases w.endpoints.lookup id with
  | none => simp
  | some ep => simp

theorem quiet_disconnectUnlocked (quiet : w.quiet id = true) (i : Nat) :
    (w.disconnectUnlocked i).quiet id = true := by
  unfold disconnectUnlocked
  split
  next ep found =>
    refine quiet_iff.mpr fun ep' here => ?_
    rcases lookup_insert_eq_some.mp here with ⟨rfl, rfl⟩ | ⟨-, before⟩
    · refine EndPoint.outstanding_eq_nil.mpr fun qp member => ?_
      obtain ⟨qp', -, rfl⟩ := List.mem_map.mp member
      rfl
    · exact quiet_iff.mp quiet ep' before
  · exact quiet

theorem frame_disconnectAll (ids : List Nat) : ∀ {w : World}, w.WellFormed → (∀ id ∈ ids, w.quiet id = true) →
    Frame w (ids.foldl disconnectUnlocked w) := by
  induction ids with
  | nil => exact fun well _ => .refl well
  | cons i rest ih =>
    intro w well all
    have first := frame_disconnectUnlocked well (quiet_iff.mp (all i mem_cons_self))
    exact first.trans (ih first.wellFormed fun id member => quiet_disconnectUnlocked (all id (mem_cons_of_mem _ member)) i)

theorem frame_setupConnectionsByPassive (well : w.WellFormed) (quiet : w.quiet id = true) (consistent : Bool)
    (setup : Setup) : Frame w (w.setupConnectionsByPassive id consistent setup) := by
  have fresh : Frame w (if w.connected id then w.disconnectUnlocked id else w) := by
    split
    · exact frame_disconnectUnlocked well (quiet_iff.mp quiet)
    · exact .refl well
  have unconnected : (if w.connected id then w.disconnectUnlocked id else w).connected id = false := by
    split
    next before =>
      unfold disconnectUnlocked connected
      cases present : w.endpoints.lookup id with
      | none => simp [present]
      | some ep => simp
    next before => exact Bool.eq_false_iff.mpr before
  unfold setupConnectionsByPassive
  dsimp only
  split
  · exact fresh.trans (frame_doSetupConnection fresh.wellFormed unconnected setup)
  · exact fresh

end World

end Mooncake.Engine.WorkerPool
