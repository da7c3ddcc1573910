import Mooncake.Lib.Table

/-! The topology of a segment. A matrix says which RDMA devices are near each location; `resolve` numbers the
devices in the order in which the iteration over the matrix meets them. A segment descriptor has its devices and
the keys of its buffers by position; another node gets it as a JSON value and resolves the matrix again, in the
order of its own hash map. -/
namespace Mooncake.Engine

namespace Topology

def kWildcardLocation : String := "*"

structure TopologyEntry where
  preferredHca : List String
  availHca : List String
deriving DecidableEq

abbrev Matrix : Type := Table String TopologyEntry

structure ResolvedEntry where
  preferredHca : List Nat
  availHca : List Nat
  preferredNames : Table String Nat
  availNames : Table String Nat

def ResolvedEntry.new : ResolvedEntry := ⟨[], [], ∅, ∅⟩

def ResolvedEntry.getHcaIndex (e : ResolvedEntry) (name : String) : Option Nat :=
  (e.preferredNames.lookup name).or (e.availNames.lookup name)

structure Resolved where
  hcaList : List String
  hcaIdMap : Table String Nat
  matrix : Table String ResolvedEntry

namespace Resolved

def addPreferred (r : Resolved) (location hca : String) (id : Nat) : Resolved :=
  let e := (r.matrix.lookup location).getD .new
  let e' := { e with preferredHca := e.preferredHca ++ [id], preferredNames := e.preferredNames.insert hca id }
  { r with matrix := r.matrix.insert location e' }

def addAvail (r : Resolved) (location hca : String) (id : Nat) : Resolved :=
  let e := (r.matrix.lookup location).getD .new
  let e' := { e with availHca := e.availHca ++ [id], availNames := e.availNames.insert hca id }
  { r with matrix := r.matrix.insert location e' }

def number (r : Resolved) (hca : String) : Resolved × Nat :=
  match r.hcaIdMap.lookup hca with
  | some id => (r, id)
  | none =>
    let id := r.hcaList.length
    (({ r with hcaList := r.hcaList ++ [hca], hcaIdMap := r.hcaIdMap.insert hca id }).addPreferred
      kWildcardLocation hca id, id)

def seePreferred (location : String) (r : Resolved) (hca : String) : Resolved :=
  (r.number hca).1.addPreferred location hca (r.number hca).2

def seeAvail (location : String) (r : Resolved) (hca : String) : Resolved :=
  (r.number hca).1.addAvail location hca (r.number hca).2

end Resolved

variable (m : Matrix)

def resolve : Resolved :=
  m.entries.foldl (fun r e => e.2.availHca.foldl (Resolved.seeAvail e.1)
    (e.2.preferredHca.foldl (Resolved.seePreferred e.1) r))
    ⟨[], ∅, ∅⟩

def disableDevice (device : String) : Matrix :=
  m.mapValues (fun e => ⟨e.preferredHca.erase device, e.availHca.erase device⟩)

def empty : Bool := (resolve m).matrix.entries.all (fun e => e.2.preferredHca.isEmpty && e.2.availHca.isEmpty)

/-- `selectDevice` without a hint. `random` is the random number or the round robin counter. -/
def selectAny (storageType : String) (retryCount random : Nat) : Option Nat :=
  ((resolve m).matrix.lookup storageType).bind (fun entry =>
    if retryCount = 0 then
      if entry.preferredHca.isEmpty then entry.availHca[random % entry.availHca.length]?
      else entry.preferredHca[random % entry.preferredHca.length]?
    else
      let index := (retryCount - 1) % (entry.preferredHca.length + entry.availHca.length)
      if index < entry.preferredHca.length then entry.preferredHca[index]?
      else entry.availHca[index - entry.preferredHca.length]?)

def selectDevice (storageType hint : String) (retryCount random : Nat) : Option Nat :=
  if hint = "" then selectAny m storageType retryCount random
  else
    ((resolve m).matrix.lookup storageType).bind (fun entry =>
      (entry.getHcaIndex hint).or (selectAny m storageType retryCount random))

end Topology

open Engine.Topology (Matrix TopologyEntry kWildcardLocation)

structure DeviceDesc where
  name : String
  lid : Nat
  gid : String
deriving DecidableEq

structure BufferDesc where
  name : String
  addr : Nat
  length : Nat
  lkey : List Nat
  rkey : List Nat
deriving DecidableEq

structure SegmentDesc where
  name : String
  devices : List DeviceDesc
  buffers : List BufferDesc
  topology : Matrix

/-! ## The publishing node -/

/-- The devices of a node: which of them can be opened, their addresses, and the keys that they issue. -/
structure Hardware where
  constructs : String → Bool
  lid : String → Nat
  gid : String → String
  lkey : String → Nat → Nat
  rkey : String → Nat → Nat

structure Region where
  location : String
  addr : Nat
  length : Nat

variable (h : Hardware)

def Hardware.construct (s : Matrix × List String) (device : String) : Matrix × List String :=
  if h.constructs device then (s.1, s.2 ++ [device]) else (Topology.disableDevice s.1 device, s.2)

def initializeRdmaResources (m : Matrix) : Option (Matrix × List String) :=
  let result := (Topology.resolve m).hcaList.foldl h.construct (m, [])
  if Topology.empty result.1 then none else some result

def registerLocalMemory (contexts : List String) (region : Region) : BufferDesc where
  name := region.location
  addr := region.addr
  length := region.length
  lkey := contexts.map (h.lkey · region.addr)
  rkey := contexts.map (h.rkey · region.addr)

def localSegment (name : String) (m : Matrix) (regions : List Region) : Option SegmentDesc :=
  (initializeRdmaResources h m).map (fun s =>
    { name := name
      devices := s.2.map (fun device => ⟨device, h.lid device, h.gid device⟩)
      buffers := regions.map (registerLocalMemory h s.2)
      topology := s.1 })

/-! ## The descriptor as a JSON value -/

inductive Json where
  | null
  | string (s : String)
  | uint (n : Nat)
  | array (items : List Json)
  | object (members : List (String × Json))

namespace Json

def member : Json → String → Json
  | .object members, key => (members.lookup key).getD .null
  | _, _ => .null

def items : Json → List Json
  | .array items => items
  | _ => []

def asString : Json → String
  | .string s => s
  | _ => ""

def asUInt : Json → Nat
  | .uint n => n
  | _ => 0

end Json

namespace Topology

def TopologyEntry.toJson (e : TopologyEntry) : Json :=
  .array [.array (e.preferredHca.map .string), .array (e.availHca.map .string)]

def toJson (m : Matrix) : Json := .object (m.entries.map (fun e => (e.1, e.2.toJson)))

def parseEntry : Json → Option TopologyEntry
  | .array [preferred, avail] => some ⟨preferred.items.map Json.asString, avail.items.map Json.asString⟩
  | _ => none

/-- The members go into a hash map, until one is malformed. -/
def parseMembers : List (String × Json) → Matrix → Matrix
  | [], m => m
  | (key, value) :: rest, m =>
    match parseEntry value with
    | some entry => parseMembers rest (m.insert key entry)
    | none => m

def parse : Json → Matrix
  | .object members => parseMembers members ∅
  | _ => ∅

end Topology

def DeviceDesc.toJson (d : DeviceDesc) : Json :=
  .object [("name", .string d.name), ("lid", .uint d.lid), ("gid", .string d.gid)]

def BufferDesc.toJson (b : BufferDesc) : Json :=
  .object [("name", .string b.name), ("addr", .uint b.addr), ("length", .uint b.length),
    ("rkey", .array (b.rkey.map .uint)),
    ("lkey", .array (b.lkey.map .uint))]

def encodeSegmentDesc (desc : SegmentDesc) : Json :=
  .object [("name", .string desc.name), ("protocol", .string "rdma"),
    ("devices", .array (desc.devices.map DeviceDesc.toJson)),
    ("buffers", .array (desc.buffers.map BufferDesc.toJson)), ("priority_matrix", Topology.toJson desc.topology)]

def decodeDevice (value : Json) : Option DeviceDesc :=
  let device : DeviceDesc := ⟨(value.member "name").asString, (value.member "lid").asUInt, (value.member "gid").asString⟩
  if device.name = "" ∨ device.gid = "" then none else some device

def decodeBuffer (value : Json) : Option BufferDesc :=
  let buffer : BufferDesc := ⟨(value.member "name").asString, (value.member "addr").asUInt, (value.member "length").asUInt,
    (value.member "lkey").items.map Json.asUInt, (value.member "rkey").items.map Json.asUInt⟩
  if buffer.name = "" ∨ buffer.addr = 0 ∨ buffer.length = 0 ∨ buffer.rkey = [] ∨
    buffer.rkey.length ≠ buffer.lkey.length then none
  else some buffer

/-- The matrix is iterated in the order of the reader's hash map. -/
def decodeSegmentDesc (value : Json) (order : List String) (distinct : order.Nodup) : Option SegmentDesc :=
  if (value.member "protocol").asString = "rdma" then
    ((value.member "devices").items.mapM decodeDevice).bind (fun devices =>
      ((value.member "buffers").items.mapM decodeBuffer).map (fun buffers =>
        ⟨(value.member "name").asString, devices, buffers,
          (Topology.parse (value.member "priority_matrix")).reorder order distinct⟩))
  else none

/-! ## The reading node -/

namespace SegmentDesc

/-- The search over the buffers from one on; `random` gives the random numbers of the two selections at each
buffer. -/
def selectFrom (matrix : Matrix) (offset length : Nat) (hint : String) (retryCount : Nat) (random : Nat → Nat × Nat) :
    Nat → List BufferDesc → Option (Nat × Nat)
  | _, [] => none
  | bufferId, buffer :: rest =>
    if offset < buffer.addr ∨ buffer.length < length ∨ buffer.length - length < offset - buffer.addr then
      selectFrom matrix offset length hint retryCount random (bufferId + 1) rest
    else
      match (Topology.selectDevice matrix buffer.name hint retryCount (random bufferId).1).or
          (Topology.selectDevice matrix kWildcardLocation hint retryCount (random bufferId).2) with
      | some deviceId => some (bufferId, deviceId)
      | none => selectFrom matrix offset length hint retryCount random (bufferId + 1) rest

def selectDevice (desc : SegmentDesc) (offset length : Nat) (hint : String) (retryCount : Nat)
    (random : Nat → Nat × Nat) : Option (Nat × Nat) :=
  selectFrom desc.topology offset length hint retryCount random 0 desc.buffers

end SegmentDesc

end Mooncake.Engine
