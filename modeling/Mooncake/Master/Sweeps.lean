import Mathlib.Algebra.Order.Ring.Int
import Mathlib.Data.Rat.Defs
import Mooncake.Master.Metadata

/-! The loops over the entries of one shard, each run under the mutex of the shard:
`ClearInvalidHandles`, the bulk requests and the passes of `BatchEvict`. A visit gets
the state of its loop and one entry. Of `BatchEvict` the freed sizes and the success
counters are left out: they go to the log and to metrics that nothing reads back. -/
namespace Mooncake.Master
variable {H : Type}

abbrev Shard (H : Type) : Type := Table String (ObjectMetadata H)

def clearVisit (valid : Nat → Bool) (_ : Unit) (_ : String) (m : ObjectMetadata H) :
    Unit × Option (ObjectMetadata H) × List (Garbage H) :=
  let cleaned := cleanupStaleHandles valid m
  if cleaned.1.replicas.isEmpty then ((), none, cleaned.2 ++ [.object cleaned.1])
  else ((), some cleaned.1, cleaned.2)

def removeByRegexVisit (found : String → Bool) (now : Int) (removed : Nat) (key : String) (m : ObjectMetadata H) :
    Nat × Option (ObjectMetadata H) × List (Garbage H) :=
  if found key && m.isLeaseExpired now && m.isAllReplicasComplete then (removed + 1, none, [.object m])
  else (removed, some m, [])

def removeAllVisit (now : Int) (removed : Nat) (_ : String) (m : ObjectMetadata H) :
    Nat × Option (ObjectMetadata H) × List (Garbage H) :=
  if m.isLeaseExpired now then (removed + 1, none, [.object m]) else (removed, some m, [])

def replicaListVisit (found : String → Bool) (now : Int) (ttl softTtl : Nat)
    (describe : Replica H → ReplicaDescriptor) (results : List (String × List ReplicaDescriptor)) (key : String)
    (m : ObjectMetadata H) :
    List (String × List ReplicaDescriptor) × Option (ObjectMetadata H) × List (Garbage H) :=
  if found key && !m.completeReplicas.isEmpty then
    (results ++ [(key, m.completeReplicas.map describe)], some (m.grantLease now ttl softTtl), [])
  else (results, some m, [])

/-! `BatchEvict`. -/

inductive EvictPhase where
  | firstPass (i : Nat)
  | secondPassA (i : Nat) (targetTimeout targetEvictNum : Int)
  | secondPassB (i : Nat) (softTargetTimeout targetEvictNum : Int)
  | finished
deriving DecidableEq

structure Eviction where
  now : Int
  evictRatioTarget : ℚ
  evictRatioLowerbound : ℚ
  startIdx : Nat
  evictedCount : Int := 0
  objectCount : Int := 0
  noPinObjects : List Int := []
  softPinObjects : List Int := []
  phase : EvictPhase := .firstPass 0

/-- The element that `std::nth_element` puts at position `n`. -/
def nthElement (xs : List Int) (n : Nat) : Int := (xs.insertionSort (· ≤ ·)).getD n 0

def ObjectMetadata.memComplete (m : ObjectMetadata H) : Bool := (m.hasDiffRepStatus .complete .memory).isNone

namespace Eviction

/-- A lower bound above the target is replaced by it. -/
def make (now : Int) (evictRatioTarget evictRatioLowerbound : ℚ) (startIdx : Nat) : Eviction :=
  { now, evictRatioTarget, startIdx
    evictRatioLowerbound :=
      if evictRatioTarget < evictRatioLowerbound then evictRatioTarget else evictRatioLowerbound }

def firstVisit (now targetTimeout : Int) (s : Int × List Int) (_ : String) (m : ObjectMetadata H) :
    (Int × List Int) × Option (ObjectMetadata H) × List (Garbage H) :=
  if !m.isLeaseExpired now || m.isSoftPinned now || !m.memComplete || !m.hasMemReplica then (s, some m, [])
  else if m.leaseTimeout ≤ targetTimeout then ((s.1 + 1, s.2), m.dropReplicas .memory)
  else ((s.1, s.2 ++ [m.leaseTimeout]), some m, [])

def timeouts (now : Int) (pinned : Bool) (t : Shard H) : List Int :=
  (t.entries.filter (fun e => e.2.isLeaseExpired now && e.2.memComplete && (e.2.isSoftPinned now == pinned))).map
    (fun e => e.2.leaseTimeout)

def firstPassShard (ceilTimes : Int → ℚ → Int) (allowSoftPinned : Bool) (e : Eviction) (t : Shard H) :
    Eviction × Shard H × List (Garbage H) :=
  let objectCount := e.objectCount + t.entries.length
  let idealEvictNum := ceilTimes objectCount e.evictRatioTarget - e.evictedCount
  let candidates := timeouts e.now false t
  let counted := { e with
    objectCount := objectCount
    softPinObjects := e.softPinObjects ++ if allowSoftPinned then timeouts e.now true t else [] }
  if 0 < idealEvictNum then
    if candidates.isEmpty then (counted, t, [])
    else
      let evictNum := min idealEvictNum candidates.length
      let targetTimeout := nthElement candidates (evictNum - 1).toNat
      let swept := Table.sweep (firstVisit e.now targetTimeout) (e.evictedCount, e.noPinObjects) t
      ({ counted with evictedCount := swept.1.1, noPinObjects := swept.1.2 }, swept.2.1, swept.2.2)
  else ({ counted with noPinObjects := e.noPinObjects ++ candidates }, t, [])

/-- Between the passes: how much is left to evict, and how. -/
def planSecondPass (ceilTimes : Int → ℚ → Int) (e : Eviction) : EvictPhase :=
  let targetEvictNum := min (ceilTimes e.objectCount e.evictRatioLowerbound - e.evictedCount)
    (e.noPinObjects.length + e.softPinObjects.length)
  if 0 < targetEvictNum then
    if targetEvictNum ≤ e.noPinObjects.length then
      .secondPassA 0 (nthElement e.noPinObjects (targetEvictNum - 1).toNat) targetEvictNum
    else if e.softPinObjects.isEmpty then .finished
    else
      .secondPassB 0 (nthElement e.softPinObjects (targetEvictNum - e.noPinObjects.length - 1).toNat) targetEvictNum
  else .finished

/-- Pass A compares the lease with a timeout collected earlier, and not with the clock. -/
def secondVisitA (now targetTimeout : Int) (s : Int × Int) (_ : String) (m : ObjectMetadata H) :
    (Int × Int) × Option (ObjectMetadata H) × List (Garbage H) :=
  if 0 < s.1 ∧ m.leaseTimeout ≤ targetTimeout ∧ !m.isSoftPinned now ∧ m.memComplete ∧ m.hasMemReplica then
    ((s.1 - 1, s.2 + 1), m.dropReplicas .memory)
  else (s, some m, [])

def secondVisitB (now softTargetTimeout : Int) (s : Int × Int) (_ : String) (m : ObjectMetadata H) :
    (Int × Int) × Option (ObjectMetadata H) × List (Garbage H) :=
  if 0 < s.1 ∧ m.isLeaseExpired now ∧ m.memComplete ∧ m.hasMemReplica ∧
      (!m.isSoftPinned now ∨ m.leaseTimeout ≤ softTargetTimeout) then
    ((s.1 - 1, s.2 + 1), m.dropReplicas .memory)
  else (s, some m, [])

end Eviction
end Mooncake.Master
