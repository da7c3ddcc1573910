import Mathlib.Data.UInt

/-! The types the master's functions share. Sizes, addresses and identifiers are
64-bit in the code; sizes and addresses are numbers here and wrap where the code
adds them up. A gauge is a signed 64-bit counter, so it wraps too. -/
namespace Mooncake.Master

abbrev UUID : Type := UInt64 × UInt64

inductive ErrorCode where
  | ok
  | internalError
  | segmentNotFound
  | segmentAlreadyExists
  | noAvailableHandle
  | invalidParams
  | invalidWrite
  | invalidKey
  | replicaIsNotReady
  | objectNotFound
  | objectAlreadyExists
  | objectHasLease
  | unavailableInCurrentStatus
  | invalidReplica
  | leaseExpired
  | transferFail
  | rpcFail
  | fileOpenFail
  | fileReadFail
  | fileWriteFail
  | fileInvalidBuffer
  | bucketNotFound
  | bucketAlreadyExists
  | keysUltraBucketLimit
deriving DecidableEq

inductive BufferAllocatorType where
  | cachelib
  | offset
deriving DecidableEq

inductive ReplicaType where
  | memory
  | disk
deriving DecidableEq

inductive ReplicaStatus where
  | undefined
  | initialized
  | processing
  | complete
  | removed
  | failed
deriving DecidableEq

inductive SegmentStatus where
  | undefined
  | ok
  | unmounting
deriving DecidableEq

inductive ClientStatus where
  | undefined
  | ok
  | needRemount
deriving DecidableEq

structure Segment where
  id : UUID
  name : String
  base : Nat
  size : Nat
  teEndpoint : String
deriving DecidableEq

structure ReplicateConfig where
  replicaNum : Nat := 1
  withSoftPin : Bool := false
  preferredSegment : String := ""
  preferAllocInSameNode : Bool := false
deriving DecidableEq

/-- `facebook::cachelib::Slab::kSize`, and the slice limit that `types.h` derives from it. -/
def slabSize : Nat := 2 ^ 24
def kMaxSliceSize : Nat := slabSize - 16

structure Metrics where
  totalMemCapacity : BitVec 64 := 0
  allocatedMemSize : BitVec 64 := 0
  allocatedFileSize : BitVec 64 := 0
  keyCount : BitVec 64 := 0
  softPinKeyCount : BitVec 64 := 0
  activeClients : BitVec 64 := 0
deriving DecidableEq

end Mooncake.Master
