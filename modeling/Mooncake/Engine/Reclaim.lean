import Mathlib.Data.List.Basic
import Mooncake.Lib.Run

/-! When endpoints that have left the store are destroyed. Both stores keep them on a waiting list until nothing
is outstanding, and an active endpoint always counts as busy. The evictions that make room for an insertion are
steps of their own. -/
namespace Mooncake.Engine.Reclaim
open List

inductive Kind where
  | fifo
  | sieve
deriving DecidableEq

structure EndPoint where
  active : Bool
  wrDepthList : List Nat
deriving DecidableEq

def EndPoint.outstanding (ep : EndPoint) : Bool := ep.wrDepthList.any (· != 0)

def EndPoint.hasOutstandingSlice (ep : EndPoint) : Bool := ep.active || ep.outstanding

structure Store where
  endpoints : Nat → EndPoint
  next : Nat
  endpointMap : List (String × Nat)
  waitingList : List Nat

inductive Event where
  | insertEndpoint (path : String) (constructs : Bool)
  /-- `place` is where the hand of the SIEVE store stops. -/
  | evictEndpoint (place : Nat)
  | deleteEndpoint (path : String)
  | reclaimEndpoint
  | setInactive (id : Nat)
  /-- A post, a poll or a reset: what is then outstanding on the queue pairs. -/
  | setDepths (id : Nat) (wrDepthList : List Nat)

namespace Store

variable (s : Store)

def modify (id : Nat) (f : EndPoint → EndPoint) : Store :=
  { s with endpoints := Function.update s.endpoints id (f (s.endpoints id)) }

def retire (e : String × Nat) : Store :=
  { s with endpointMap := s.endpointMap.erase e, waitingList := e.2 :: s.waitingList }

def deleteEndpoint (path : String) : Store :=
  match s.endpointMap.find? (·.1 == path) with
  | some e => s.retire e
  | none => s

/-- Only the SIEVE store makes its victim inactive. -/
def evictEndpoint : Kind → Nat → Option Store
  | .fifo, _ => s.endpointMap.head?.map s.retire
  | .sieve, place => (s.endpointMap[place]?).map (fun e => (s.modify e.2 (fun ep => { ep with active := false })).retire e)

def emplace (path : String) (numQp : Nat) : Store where
  endpoints := Function.update s.endpoints s.next ⟨true, List.replicate numQp 0⟩
  next := s.next + 1
  endpointMap := s.endpointMap ++ [(path, s.next)]
  waitingList := s.waitingList

def step (kind : Kind) (maxSize numQp : Nat) (s : Store) : Event → Option Store
  | .insertEndpoint path constructs =>
    if s.endpointMap.any (·.1 == path) || !constructs then some s
    else if s.endpointMap.length < maxSize then some (s.emplace path numQp) else none
  | .evictEndpoint place => s.evictEndpoint kind place
  | .deleteEndpoint path => some (s.deleteEndpoint path)
  | .reclaimEndpoint => some { s with waitingList := s.waitingList.filter (fun id => (s.endpoints id).hasOutstandingSlice) }
  | .setInactive id => some (s.modify id (fun ep => { ep with active := false }))
  | .setDepths id wrDepthList => some (s.modify id (fun ep => { ep with wrDepthList := wrDepthList }))

def start : Store := ⟨fun _ => ⟨false, []⟩, 0, [], []⟩

/-- A reclaiming call drops what has nothing outstanding, and then no more endpoints are kept than the store may
hold and removed ones with work. -/
def Reclaims (maxSize : Nat) (s : Store) (e : Event) (s' : Store) : Prop :=
  e = .reclaimEndpoint →
    (∀ id ∈ s.waitingList, (s.endpoints id).outstanding = false → id ∉ s'.waitingList) ∧
      s'.endpointMap.length + s'.waitingList.length ≤
        maxSize + (s.waitingList.filter (fun id => (s.endpoints id).outstanding)).length

/-- An endpoint is inactive when it is deleted, and in the FIFO store when it is evicted. -/
def Retires (kind : Kind) (s : Store) : Event → Prop
  | .deleteEndpoint path => ∀ e ∈ s.endpointMap, e.1 = path → (s.endpoints e.2).active = false
  | .evictEndpoint _ => kind = .fifo → ∀ e ∈ s.endpointMap.head?, (s.endpoints e.2).active = false
  | _ => True

instance (kind : Kind) (s : Store) : (e : Event) → Decidable (s.Retires kind e)
  | .deleteEndpoint _ => inferInstanceAs (Decidable (∀ e ∈ s.endpointMap, _))
  | .evictEndpoint _ => inferInstanceAs (Decidable (kind = .fifo → ∀ e ∈ s.endpointMap.head?, _))
  | .insertEndpoint _ _ | .reclaimEndpoint | .setInactive _ | .setDepths _ _ => .isTrue trivial

structure Waiting (s : Store) : Prop where
  inactive : ∀ id ∈ s.waitingList, (s.endpoints id).active = false ∧ id < s.next
  old : ∀ e ∈ s.endpointMap, e.2 < s.next

variable {kind : Kind} {maxSize numQp : Nat} {s s' : Store} {e : String × Nat}

section
variable (waiting : s.Waiting)
include waiting

theorem Waiting.modify (id : Nat) {f : EndPoint → EndPoint}
    (kept : ∀ ep, ep.active = false → (f ep).active = false) : (s.modify id f).Waiting where
  inactive other listed := by
    obtain ⟨inactive, old⟩ := waiting.inactive other listed
    refine ⟨?_, old⟩
    by_cases same : other = id
    · subst same
      simpa [Store.modify] using kept _ inactive
    · simpa [Store.modify, same] using inactive
  old := waiting.old

theorem Waiting.retire (member : e ∈ s.endpointMap) (inactive : (s.endpoints e.2).active = false) :
    (s.retire e).Waiting where
  inactive := forall_mem_cons.mpr ⟨⟨inactive, waiting.old e member⟩, waiting.inactive⟩
  old other left := waiting.old other (mem_of_mem_erase left)

theorem Waiting.deleteEndpoint {path : String} (retires : s.Retires kind (.deleteEndpoint path)) :
    (s.deleteEndpoint path).Waiting ∧ (s.deleteEndpoint path).endpointMap.length ≤ s.endpointMap.length := by
  unfold Store.deleteEndpoint
  split
  next e found =>
    have member := mem_of_find?_eq_some found
    have here : e.1 = path := by simpa using find?_some found
    exact ⟨waiting.retire member (retires e member here), length_erase_le⟩
  next => exact ⟨waiting, Nat.le_refl _⟩

theorem Waiting.evictEndpoint {place : Nat} (retires : s.Retires kind (.evictEndpoint place))
    (evicted : s.evictEndpoint kind place = some s') : s'.Waiting ∧ s'.endpointMap.length ≤ s.endpointMap.length := by
  cases kind with
  | fifo =>
    obtain ⟨e, head, rfl⟩ := Option.map_eq_some_iff.mp evicted
    exact ⟨waiting.retire (mem_of_mem_head? head) (retires rfl e head), length_erase_le⟩
  | sieve =>
    obtain ⟨e, there, rfl⟩ := Option.map_eq_some_iff.mp evicted
    refine ⟨(waiting.modify e.2 fun _ _ => rfl).retire (mem_of_getElem? there) ?_, length_erase_le⟩
    simp [Store.modify]

theorem Waiting.emplace (path : String) : (s.emplace path numQp).Waiting where
  inactive id listed := by
    obtain ⟨inactive, old⟩ := waiting.inactive id listed
    refine ⟨?_, Nat.lt_succ_of_lt old⟩
    simpa [Store.emplace, Nat.ne_of_lt old] using inactive
  old e member := by
    obtain before | new := mem_append.mp member
    · exact Nat.lt_succ_of_lt (waiting.old e before)
    · rw [mem_singleton.mp new]
      exact Nat.lt_succ_self _

end

theorem step_waiting {event : Event} (waiting : s.Waiting ∧ s.endpointMap.length ≤ maxSize)
    (retires : s.Retires kind event) (next : s.step kind maxSize numQp event = some s') :
    (s'.Waiting ∧ s'.endpointMap.length ≤ maxSize) ∧ s.Reclaims maxSize event s' := by
  obtain ⟨waiting, size⟩ := waiting
  cases event with
  | insertEndpoint path constructs =>
    refine ⟨?_, fun same => nomatch same⟩
    simp only [step] at next
    split at next
    · cases next
      exact ⟨waiting, size⟩
    · split at next
      · cases next
        refine ⟨waiting.emplace path, ?_⟩
        rw [Store.emplace, length_append]
        assumption
      · contradiction
  | evictEndpoint place =>
    obtain ⟨kept, fewer⟩ := waiting.evictEndpoint retires next
    exact ⟨⟨kept, Nat.le_trans fewer size⟩, fun same => nomatch same⟩
  | deleteEndpoint path =>
    cases next
    obtain ⟨kept, fewer⟩ := waiting.deleteEndpoint retires
    exact ⟨⟨kept, Nat.le_trans fewer size⟩, fun same => nomatch same⟩
  | setInactive id =>
    cases next
    exact ⟨⟨waiting.modify id fun _ _ => rfl, size⟩, fun same => nomatch same⟩
  | setDepths id wrDepthList =>
    cases next
    exact ⟨⟨waiting.modify id fun _ inactive => inactive, size⟩, fun same => nomatch same⟩
  | reclaimEndpoint =>
    cases next
    have same : s.waitingList.filter (fun id => (s.endpoints id).hasOutstandingSlice) =
        s.waitingList.filter (fun id => (s.endpoints id).outstanding) :=
      filter_congr fun id listed => by
        rw [EndPoint.hasOutstandingSlice, (waiting.inactive id listed).1, Bool.false_or]
    refine ⟨⟨⟨fun id left => waiting.inactive id (mem_filter.mp left).1, waiting.old⟩, size⟩, fun _ => ⟨?_, ?_⟩⟩
    · intro id _ none left
      rw [same] at left
      cases none.symm.trans (mem_filter.mp left).2
    · rw [same]
      exact Nat.add_le_add_right size _

/-- In every run whose endpoints are inactive when they are deleted, and when the FIFO store evicts them, each
reclaiming call does its work. -/
theorem reclaims_of_retires (kind : Kind) (maxSize numQp : Nat) (events : List Event)
    (retires : Run.Guarded (step kind maxSize numQp) (Retires kind) start events) :
    Run.Every (step kind maxSize numQp) (Reclaims maxSize) start events := by
  have empty : start.Waiting ∧ start.endpointMap.length ≤ maxSize :=
    ⟨⟨fun _ none => (nomatch none), fun _ none => (nomatch none)⟩, Nat.zero_le _⟩
  exact Run.guarded_every (fun _ _ _ waiting meets next => step_waiting waiting meets next) empty retires

theorem reclaims_evicted_and_failed :
    Run.Every (step .sieve 1 2) (Reclaims 1) start
      [.insertEndpoint "a" true, .setDepths 0 [3, 0], .evictEndpoint 0, .insertEndpoint "b" true, .reclaimEndpoint,
        .setDepths 0 [0, 0], .setInactive 1, .deleteEndpoint "b", .reclaimEndpoint] :=
  reclaims_of_retires .sieve 1 2 _ (by decide)

/-- The endpoint of a path is deleted after a failed completion, while it is active, and the path gets another
one. Nothing is outstanding, but the first endpoint stays, in either store; in the FIFO store so does every
endpoint that is evicted. -/
theorem active_endpoint_never_reclaimed :
    (∀ kind, (Run.run (step kind 1 1) start
        [.insertEndpoint "a" true, .deleteEndpoint "a", .insertEndpoint "a" true, .reclaimEndpoint]).map
          (fun s => (s.endpointMap, s.waitingList, (s.endpoints 0).outstanding)) = some ([("a", 1)], [0], false)) ∧
      (Run.run (step .fifo 1 1) start [.insertEndpoint "a" true, .evictEndpoint 0, .reclaimEndpoint]).map
        (fun s => (s.endpointMap, s.waitingList, (s.endpoints 0).outstanding)) = some ([], [0], false) :=
  ⟨fun kind => by cases kind <;> rfl, rfl⟩

end Store

end Mooncake.Engine.Reclaim
