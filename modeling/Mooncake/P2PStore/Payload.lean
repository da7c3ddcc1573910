import Mathlib.Algebra.GroupWithZero.Nat
import Mooncake.Lib.Strides

/-! The payload that the P2P store keeps in etcd: the shards of a file, each with the places it can be read
from. -/
namespace Mooncake.P2PStore

open Option List Strides

structure Location where
  segmentName : String
  offset : Nat
deriving DecidableEq

structure Shard where
  length : Nat
  gold : List Location
  replicaList : List Location
deriving DecidableEq

structure Payload where
  name : String
  size : Nat
  sizeList : List Nat
  maxShardSize : Nat
  shards : List Shard
deriving DecidableEq

namespace Shard

variable (shard : Shard)

def locations : List Location := shard.replicaList ++ shard.gold

def count : Nat := shard.replicaList.length + shard.gold.length

def getRandomLocation (random : Nat) : Option Location :=
  if 0 < shard.replicaList.length then shard.replicaList[random % shard.replicaList.length]?
  else if 0 < shard.gold.length then shard.gold[random % shard.gold.length]?
  else none

def getRetryLocation (retryTimes : Nat) : Option Location :=
  if retryTimes < shard.replicaList.length then shard.replicaList[retryTimes]?
  else shard.gold[retryTimes - shard.replicaList.length]?

def getLocation (random retryTimes : Nat) : Option Location :=
  if retryTimes = 0 then shard.getRandomLocation random else shard.getRetryLocation (retryTimes - 1)

theorem mem_locations_of_getLocation {shard : Shard} {random retryTimes : Nat} {location : Location}
    (found : shard.getLocation random retryTimes = some location) : location ∈ shard.locations := by
  unfold getLocation getRandomLocation getRetryLocation at found
  refine mem_append.mpr ?_
  split at found
  · split at found
    · exact .inl (mem_of_getElem? found)
    · split at found
      · exact .inr (mem_of_getElem? found)
      · cases found
  · split at found
    · exact .inl (mem_of_getElem? found)
    · exact .inr (mem_of_getElem? found)

end Shard

namespace Payload

def isEmpty (payload : Payload) : Bool :=
  payload.shards.all (fun shard => shard.gold.isEmpty && shard.replicaList.isEmpty)

variable (localServerName : String)

def bufferShards (maxShardSize : Nat) (buffer : Nat × Nat) : List Shard :=
  (Strides.strides buffer.2 maxShardSize 0).map fun offset =>
    ⟨min maxShardSize (buffer.2 - offset), [⟨localServerName, buffer.1 + offset⟩], []⟩

def register (localServerName name : String) (maxShardSize : Nat) (buffers : List (Nat × Nat)) : Payload where
  name := name
  size := (buffers.map Prod.snd).sum
  sizeList := buffers.map Prod.snd
  maxShardSize := maxShardSize
  shards := buffers.flatMap (bufferShards localServerName maxShardSize)

def clearGold (payload : Payload) : Payload :=
  { payload with shards := payload.shards.map (fun shard => { shard with gold := [] }) }

def dropReplicas (payload : Payload) : Payload :=
  { payload with shards := payload.shards.map (fun shard =>
      { shard with replicaList := shard.replicaList.filter (fun replica => replica.segmentName ≠ localServerName) }) }

/-- The places in which `updatePayloadMetadata` lists the shards of the buffers, in its order. -/
def replicaLocations (maxShardSize : Nat) (buffers : List (Nat × Nat)) : List Location :=
  buffers.flatMap fun buffer =>
    (Strides.strides buffer.2 maxShardSize 0).map fun offset => ⟨localServerName, buffer.1 + offset⟩

/-- One place more for every shard, from the first on. There is no payload if the shards end before the places
do: the index is then out of range. -/
def appendLocations : List Shard → List Location → Option (List Shard)
  | shards, [] => some shards
  | [], _ :: _ => none
  | shard :: shards, location :: locations =>
    (appendLocations shards locations).map ({ shard with replicaList := shard.replicaList ++ [location] } :: ·)

def appendReplicas (buffers : List (Nat × Nat)) (payload : Payload) : Option Payload :=
  (appendLocations payload.shards (replicaLocations localServerName payload.maxShardSize buffers)).map
    fun shards => { payload with shards := shards }

end Payload

def isSubsetOf (old new : Payload) : Bool :=
  decide (old.shards.length = new.shards.length) &&
    (old.shards.zip new.shards).all fun (shard, shard') =>
      shard.gold.all (shard'.gold.contains ·) && shard.replicaList.all (shard'.replicaList.contains ·)

/-! ## Payloads of one registration -/

/-- How buffers of these sizes are cut into shards. -/
def shardLengths (maxShardSize : Nat) (sizes : List Nat) : List Nat :=
  sizes.flatMap fun size => (Strides.tiles size maxShardSize 0).map Prod.snd

def shardContents {α : Type} (memory : Nat → α) (maxShardSize : Nat) (buffers : List (Nat × Nat)) : List (List α) :=
  buffers.flatMap fun buffer =>
    (Strides.tiles buffer.2 maxShardSize 0).map fun t => Extent.read memory (buffer.1 + t.1) t.2

/-- The payload is cut as `Register` cuts buffers of these sizes. Its places may have changed since. -/
structure Describes (payload : Payload) (maxShardSize : Nat) (sizes : List Nat) : Prop where
  width : payload.maxShardSize = maxShardSize
  sizeList : payload.sizeList = sizes
  lengths : payload.shards.map Shard.length = shardLengths maxShardSize sizes

theorem describes_register (localServerName name : String) (maxShardSize : Nat) (buffers : List (Nat × Nat)) :
    Describes (Payload.register localServerName name maxShardSize buffers) maxShardSize (buffers.map Prod.snd) where
  width := rfl
  sizeList := rfl
  lengths := by
    simp only [Payload.register, shardLengths, map_flatMap, flatMap_map]
    refine flatMap_congr fun buffer _ => ?_
    simp [Payload.bufferShards, tiles, tile]

theorem length_shardContents {α : Type} (memory : Nat → α) (maxShardSize : Nat) (buffers : List (Nat × Nat)) :
    (shardContents memory maxShardSize buffers).map List.length = shardLengths maxShardSize (buffers.map Prod.snd) := by
  simp only [shardContents, shardLengths, map_flatMap, flatMap_map]
  refine flatMap_congr fun buffer _ => ?_
  simp [Function.comp_def]

variable {locations : List Location} {shards : List Shard}

theorem appendLocations_isSome (enough : locations.length ≤ shards.length) :
    ∃ shards', Payload.appendLocations shards locations = some shards' := by
  induction locations generalizing shards with
  | nil => exact ⟨shards, by cases shards <;> rfl⟩
  | cons location locations ih =>
    cases shards with
    | nil => simp at enough
    | cons shard shards =>
      obtain ⟨shards', rest⟩ := ih (Nat.le_of_succ_le_succ enough)
      exact ⟨_, by rw [Payload.appendLocations, rest]; rfl⟩

theorem appendLocations_eq_none (short : shards.length < locations.length) :
    Payload.appendLocations shards locations = none := by
  induction locations generalizing shards with
  | nil => simp at short
  | cons location locations ih =>
    cases shards with
    | nil => rfl
    | cons shard shards => rw [Payload.appendLocations, ih (Nat.lt_of_succ_lt_succ short)]; rfl

/-! ## What an update of the payload changes -/

structure Shaped (payload : Payload) (contents : List (List UInt8)) : Prop where
  positive : 0 < payload.maxShardSize
  describes : Describes payload payload.maxShardSize payload.sizeList
  lengths : contents.map List.length = shardLengths payload.maxShardSize payload.sizeList

section Updates
variable {payload payload' : Payload} {contents : List (List UInt8)} {localServerName : String} {k : Nat}
  {shard shard' : Shard}

theorem Shaped.content (shaped : Shaped payload contents) (at_ : payload.shards[k]? = some shard) :
    ∃ content, contents[k]? = some content ∧ content.length = shard.length := by
  have same := shaped.describes.lengths.trans shaped.lengths.symm
  have there : (contents.map length)[k]? = some shard.length := by rw [← same, getElem?_map, at_]; rfl
  rw [getElem?_map] at there
  obtain ⟨content, found, length⟩ := map_eq_some_iff.mp there
  exact ⟨content, found, length⟩

theorem Shaped.of_lengths (shaped : Shaped payload contents) (width : payload'.maxShardSize = payload.maxShardSize)
    (sizeList : payload'.sizeList = payload.sizeList)
    (lengths : payload'.shards.map Shard.length = payload.shards.map Shard.length) : Shaped payload' contents := by
  refine ⟨width ▸ shaped.positive, ⟨rfl, rfl, ?_⟩, ?_⟩
  · rw [lengths, width, sizeList]
    exact shaped.describes.lengths
  · rw [width, sizeList]
    exact shaped.lengths

theorem shard_clearGold (at_ : payload.clearGold.shards[k]? = some shard') :
    ∃ shard, payload.shards[k]? = some shard ∧ shard' = { shard with gold := [] } := by
  simp only [Payload.clearGold, getElem?_map] at at_
  obtain ⟨shard, found, rfl⟩ := map_eq_some_iff.mp at_
  exact ⟨shard, found, rfl⟩

theorem shard_dropReplicas (at_ : (payload.dropReplicas localServerName).shards[k]? = some shard') :
    ∃ shard, payload.shards[k]? = some shard ∧ shard'.gold = shard.gold ∧
      ∀ location ∈ shard'.replicaList, location ∈ shard.replicaList ∧ location.segmentName ≠ localServerName := by
  simp only [Payload.dropReplicas, getElem?_map] at at_
  obtain ⟨shard, found, rfl⟩ := map_eq_some_iff.mp at_
  exact ⟨shard, found, rfl, fun location member => by simpa using member⟩

theorem appendLocations_spec {shards shards' : List Shard} {locations : List Location}
    (appended : Payload.appendLocations shards locations = some shards') :
    shards'.map Shard.length = shards.map Shard.length ∧ ∀ (k : Nat) (shard' : Shard), shards'[k]? = some shard' →
      ∃ shard, shards[k]? = some shard ∧ shard'.gold = shard.gold ∧
        ∀ location ∈ shard'.replicaList, location ∈ shard.replicaList ∨ locations[k]? = some location := by
  induction locations generalizing shards shards' with
  | nil =>
    have same : shards = shards' := by cases shards <;> exact some.inj appended
    exact ⟨by rw [same], fun k shard' at_ => ⟨shard', by rw [same]; exact at_, rfl, fun _ member => .inl member⟩⟩
  | cons location locations ih =>
    cases shards with
    | nil => cases appended
    | cons shard shards =>
      obtain ⟨rest, later, rfl⟩ := map_eq_some_iff.mp appended
      obtain ⟨lengths, places⟩ := ih later
      refine ⟨by rw [map_cons, map_cons, lengths], fun k shard' at_ => ?_⟩
      cases k with
      | zero =>
        cases at_
        refine ⟨shard, rfl, rfl, fun location' member => ?_⟩
        rcases mem_append.mp member with old | new
        · exact .inl old
        · exact .inr (by rw [mem_singleton.mp new]; rfl)
      | succ k => exact places k shard' at_

theorem appendReplicas_spec {buffers : List (Nat × Nat)}
    (appended : payload.appendReplicas localServerName buffers = some payload') :
    payload'.maxShardSize = payload.maxShardSize ∧ payload'.sizeList = payload.sizeList ∧
      payload'.shards.map Shard.length = payload.shards.map Shard.length ∧
      ∀ (k : Nat) (shard' : Shard), payload'.shards[k]? = some shard' → ∃ shard, payload.shards[k]? = some shard ∧
        shard'.gold = shard.gold ∧ ∀ location ∈ shard'.replicaList, location ∈ shard.replicaList ∨
          (Payload.replicaLocations localServerName payload.maxShardSize buffers)[k]? = some location := by
  obtain ⟨shards, found, rfl⟩ := map_eq_some_iff.mp appended
  obtain ⟨lengths, places⟩ := appendLocations_spec found
  exact ⟨rfl, rfl, lengths, places⟩

theorem replicaLocations_single {a n m : Nat} {location : Location}
    (at_ : (Payload.replicaLocations localServerName m [(a, n)])[k]? = some location) :
    ∃ t, (tiles n m 0)[k]? = some t ∧ location = ⟨localServerName, a + t.1⟩ := by
  simp only [Payload.replicaLocations, flatMap_cons, flatMap_nil, append_nil, getElem?_map] at at_
  obtain ⟨offset, found, rfl⟩ := map_eq_some_iff.mp at_
  exact ⟨tile n m offset, by rw [tiles, getElem?_map, found]; rfl, rfl⟩

end Updates

end Mooncake.P2PStore
