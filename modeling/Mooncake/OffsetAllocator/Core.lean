import Mooncake.Lib.BitScan
import Mooncake.OffsetAllocator.SmallFloat

/-! The core of the offset allocator, as one state record and its operations.
The node table, the freelist and the bin heads are arrays indexed from zero and
are kept as functions; a 32-bit word is a natural number with explicit wrapping
where sizes are added or subtracted. -/
namespace Mooncake.Offset
open Function SmallFloat

def topBinsIndexShift : Nat := 3
def leafBinsIndexMask : Nat := 0x7
def noSpace : Nat := 0xffffffff

def add32 (a b : Nat) : Nat := (a + b) % 2 ^ 32
def sub32 (a b : Nat) : Nat := (a + (2 ^ 32 - b)) % 2 ^ 32

structure OffsetAllocation where
  offset : Nat
  metadata : Nat
deriving DecidableEq

def OffsetAllocation.none : OffsetAllocation := ⟨noSpace, noSpace⟩
def OffsetAllocation.isNoSpace (x : OffsetAllocation) : Bool := x.offset == noSpace

def unused : Nat := 0xffffffff

structure Node where
  dataOffset : Nat := 0
  dataSize : Nat := 0
  binListPrev : Nat := unused
  binListNext : Nat := unused
  neighborPrev : Nat := unused
  neighborNext : Nat := unused
  used : Bool := false
deriving DecidableEq

structure Allocator where
  size : Nat
  currentCapacity : Nat
  maxCapacity : Nat
  freeStorage : Nat
  usedBinsTop : BitVec 32
  usedBins : Nat → BitVec 8
  binIndices : Nat → Nat
  nodes : Nat → Node
  freeNodes : Nat → Nat
  freeOffset : Nat

structure StorageReport where
  totalFreeSpace : Nat
  largestFreeRegion : Nat
deriving DecidableEq

def tzcntNonzero (v : BitVec w) : Nat := BitScan.lowest v

/-- The leaf masks are bytes and the top mask is a word; the scan is the same. -/
def findLowestSetBitAfter (bitMask : BitVec w) (startBitIndex : Nat) : Option Nat :=
  let bitsAfter := BitScan.after bitMask startBitIndex
  if bitsAfter = 0#w then none else some (tzcntNonzero bitsAfter)

namespace Allocator

variable (a : Allocator)

def modifyNode (i : Nat) (f : Node → Node) : Allocator :=
  { a with nodes := update a.nodes i (f (a.nodes i)) }

def markBin (topBinIndex leafBinIndex : Nat) : Allocator :=
  { a with
    usedBins := update a.usedBins topBinIndex
      (BitScan.set (a.usedBins topBinIndex) leafBinIndex)
    usedBinsTop := BitScan.set a.usedBinsTop topBinIndex }

def unmarkBin (topBinIndex leafBinIndex : Nat) : Allocator :=
  let leaves := BitScan.clear (a.usedBins topBinIndex) leafBinIndex
  let a := { a with usedBins := update a.usedBins topBinIndex leaves }
  if leaves = 0#8 then { a with usedBinsTop := BitScan.clear a.usedBinsTop topBinIndex } else a

/-- The first node leaves its bin, whose list now starts at `next`. This is the
common part of taking a node in `allocate` and of the hard case of removal. -/
def popBin (binIndex next : Nat) : Allocator :=
  let topBinIndex := binIndex >>> topBinsIndexShift
  let leafBinIndex := binIndex &&& leafBinsIndexMask
  let a := { a with binIndices := update a.binIndices binIndex next }
  let a := if next ≠ unused then a.modifyNode next (fun n => { n with binListPrev := unused }) else a
  if next = unused then a.unmarkBin topBinIndex leafBinIndex else a

def insertNodeIntoBin (size dataOffset : Nat) : Allocator × Nat :=
  let binIndex := uintToFloatRoundDown size
  let topBinIndex := binIndex >>> topBinsIndexShift
  let leafBinIndex := binIndex &&& leafBinsIndexMask
  let a := if a.binIndices binIndex = unused then a.markBin topBinIndex leafBinIndex else a
  let topNodeIndex := a.binIndices binIndex
  let nodeIndex := a.freeNodes a.freeOffset
  let a := { a with freeOffset := a.freeOffset + 1 }
  let a := a.modifyNode nodeIndex (fun _ =>
    { dataOffset := dataOffset, dataSize := size, binListNext := topNodeIndex })
  let a := if topNodeIndex ≠ unused then
      a.modifyNode topNodeIndex (fun n => { n with binListPrev := nodeIndex })
    else a
  let a := { a with binIndices := update a.binIndices binIndex nodeIndex }
  ({ a with freeStorage := add32 a.freeStorage size }, nodeIndex)

variable (nodeIndex : Nat)

def pushFreeNode : Allocator :=
  { a with
    freeNodes := update a.freeNodes (a.freeOffset - 1) nodeIndex
    freeOffset := a.freeOffset - 1 }

def removeNodeFromBin : Allocator :=
  let node := a.nodes nodeIndex
  let a :=
    if node.binListPrev ≠ unused then
      let a := a.modifyNode node.binListPrev (fun n => { n with binListNext := node.binListNext })
      if node.binListNext ≠ unused then
        a.modifyNode node.binListNext (fun n => { n with binListPrev := node.binListPrev })
      else a
    else a.popBin (uintToFloatRoundDown node.dataSize) node.binListNext
  let a := a.pushFreeNode nodeIndex
  { a with freeStorage := sub32 a.freeStorage node.dataSize }

/-- The fields as `reset` sets them before the storage is inserted. Entries of the
freelist past the initial capacity are not initialised by the code. -/
def blank (size initCapacity maxCapacity : Nat) : Allocator :=
  { size := size
    currentCapacity := initCapacity
    maxCapacity := max initCapacity maxCapacity
    freeStorage := 0
    usedBinsTop := 0
    usedBins := fun _ => 0
    binIndices := fun _ => unused
    nodes := fun _ => {}
    freeNodes := fun i => if i < initCapacity then i else 0
    freeOffset := 0 }

def create (size initCapacity maxCapacity : Nat) : Allocator :=
  ((blank size initCapacity maxCapacity).insertNodeIntoBin size 0).1

def growFreeNodes : Allocator :=
  if a.freeOffset = a.currentCapacity then
    { a with
      freeNodes := update a.freeNodes a.currentCapacity a.currentCapacity
      currentCapacity := a.currentCapacity + 1 }
  else a

/-- The two-level search for a non-empty bin that is at least the minimal one. -/
def findBin (minBinIndex : Nat) : Option Nat :=
  let minTopBinIndex := minBinIndex >>> topBinsIndexShift
  let minLeafBinIndex := minBinIndex &&& leafBinsIndexMask
  let leafBinIndex :=
    if a.usedBinsTop.getLsbD minTopBinIndex then
      findLowestSetBitAfter (a.usedBins minTopBinIndex) minLeafBinIndex
    else none
  match leafBinIndex with
  | some leafBinIndex => some ((minTopBinIndex <<< topBinsIndexShift) ||| leafBinIndex)
  | none =>
    match findLowestSetBitAfter a.usedBinsTop (minTopBinIndex + 1) with
    | none => none
    | some topBinIndex =>
      some ((topBinIndex <<< topBinsIndexShift) ||| tzcntNonzero (a.usedBins topBinIndex))

/-- Push the reminder back and link it behind the allocated node. -/
def splitReminder (nodeIndex reminderSize : Nat) : Allocator :=
  let node := a.nodes nodeIndex
  let inserted := a.insertNodeIntoBin reminderSize (add32 node.dataOffset node.dataSize)
  let newNodeIndex := inserted.2
  let a := inserted.1
  let next := (a.nodes nodeIndex).neighborNext
  let a := if next ≠ unused then
      a.modifyNode next (fun n => { n with neighborPrev := newNodeIndex })
    else a
  let a := a.modifyNode newNodeIndex (fun n =>
    { n with neighborPrev := nodeIndex, neighborNext := next })
  a.modifyNode nodeIndex (fun n => { n with neighborNext := newNodeIndex })

def takeNode (binIndex roundupSize : Nat) : Allocator :=
  let nodeIndex := a.binIndices binIndex
  let nodeTotalSize := (a.nodes nodeIndex).dataSize
  let a := a.modifyNode nodeIndex (fun n => { n with dataSize := roundupSize, used := true })
  let a := a.popBin binIndex (a.nodes nodeIndex).binListNext
  { a with freeStorage := sub32 a.freeStorage nodeTotalSize }

def allocateFrom (binIndex roundupSize : Nat) : Allocator × OffsetAllocation :=
  let nodeIndex := a.binIndices binIndex
  let nodeTotalSize := (a.nodes nodeIndex).dataSize
  let a := a.takeNode binIndex roundupSize
  let reminderSize := sub32 nodeTotalSize roundupSize
  let a := if 0 < reminderSize then a.splitReminder nodeIndex reminderSize else a
  (a, ⟨(a.nodes nodeIndex).dataOffset, nodeIndex⟩)

def allocate (size : Nat) : Allocator × OffsetAllocation :=
  if a.freeOffset = a.maxCapacity then (a, .none)
  else
    let a := a.growFreeNodes
    let minBinIndex := uintToFloatRoundUp size
    match a.findBin minBinIndex with
    | none => (a, .none)
    | some binIndex => a.allocateFrom binIndex (floatToUint minBinIndex)

def mergePrev : Allocator × Nat × Nat :=
  let node := a.nodes nodeIndex
  if node.neighborPrev ≠ unused ∧ (a.nodes node.neighborPrev).used = false then
    let prevNode := a.nodes node.neighborPrev
    let a := a.removeNodeFromBin node.neighborPrev
    let a := a.modifyNode nodeIndex (fun n => { n with neighborPrev := prevNode.neighborPrev })
    (a, prevNode.dataOffset, add32 node.dataSize prevNode.dataSize)
  else (a, node.dataOffset, node.dataSize)

def mergeNext (nodeIndex size : Nat) : Allocator × Nat :=
  let node := a.nodes nodeIndex
  if node.neighborNext ≠ unused ∧ (a.nodes node.neighborNext).used = false then
    let nextNode := a.nodes node.neighborNext
    let a := a.removeNodeFromBin node.neighborNext
    let a := a.modifyNode nodeIndex (fun n => { n with neighborNext := nextNode.neighborNext })
    (a, add32 size nextNode.dataSize)
  else (a, size)

def connect (combined neighborPrev neighborNext : Nat) : Allocator :=
  let a := if neighborNext ≠ unused then
      (a.modifyNode combined (fun n => { n with neighborNext := neighborNext })).modifyNode
        neighborNext (fun n => { n with neighborPrev := combined })
    else a
  if neighborPrev ≠ unused then
    (a.modifyNode combined (fun n => { n with neighborPrev := neighborPrev })).modifyNode
      neighborPrev (fun n => { n with neighborNext := combined })
  else a

def free (allocation : OffsetAllocation) : Allocator :=
  let nodeIndex := allocation.metadata
  let merged := a.mergePrev nodeIndex
  let offset := merged.2.1
  let extended := merged.1.mergeNext nodeIndex merged.2.2
  let size := extended.2
  let a := extended.1
  let neighborNext := (a.nodes nodeIndex).neighborNext
  let neighborPrev := (a.nodes nodeIndex).neighborPrev
  let a := a.pushFreeNode nodeIndex
  let inserted := a.insertNodeIntoBin size offset
  inserted.1.connect inserted.2 neighborPrev neighborNext

/-- The size of the highest bin that is not empty; a full node table reports no space. -/
def storageReport : StorageReport :=
  if a.freeOffset < a.maxCapacity then
    { totalFreeSpace := a.freeStorage
      largestFreeRegion :=
        if a.usedBinsTop = 0#32 then 0
        else
          let topBinIndex := 31 - lzcntNonzero a.usedBinsTop.toNat
          let leafBinIndex := 31 - lzcntNonzero (a.usedBins topBinIndex).toNat
          floatToUint ((topBinIndex <<< topBinsIndexShift) ||| leafBinIndex) }
  else { totalFreeSpace := 0, largestFreeRegion := 0 }

end Allocator

end Mooncake.Offset
