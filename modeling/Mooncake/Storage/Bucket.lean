import Mooncake.Lib.Table
import Mooncake.Master.Types

/-! The bucket storage backend. Each batch of objects goes to one data file, in which every key is
followed by the bytes of its object, and one metadata file that says where the objects lie. The
index in memory is built again from the metadata files when the backend starts.

A slice is the bytes that it points to. The files are a directory that is passed along, and what the
operating system answers to opens, reads and writes is an argument of the call. -/
namespace Mooncake.Storage
open Master (ErrorCode)

abbrev Bytes : Type := List UInt8

structure StorageObjectMetadata where
  bucketId : Int
  offset : Nat
  keySize : Nat
  dataSize : Nat
deriving DecidableEq

structure BucketObjectMetadata where
  offset : Nat
  keySize : Nat
  dataSize : Nat
deriving DecidableEq

structure BucketContents where
  dataSize : Nat
  objectMetadata : Table Bytes BucketObjectMetadata
  keys : List Bytes

structure BucketMetadata extends BucketContents where
  metaSize : Nat

structure StructPb where
  toPb : BucketContents → Bytes
  fromPb : Bytes → Option BucketContents

structure Directory where
  data : Table Int Bytes
  metadata : Table Int Bytes

def Directory.remove (d : Directory) (id : Int) : Directory := ⟨d.data.erase id, d.metadata.erase id⟩

structure Backend where
  initialized : Bool
  currentId : Int
  totalSize : Nat
  objectBucketMap : Table Bytes StorageObjectMetadata
  buckets : Table Int BucketMetadata

def Backend.new : Backend := ⟨false, 0, 0, ∅, ∅⟩

def generatorStart (start : Int) (time : Nat) : Int := if start ≤ 0 then time * 2 ^ 12 else start

variable (b : Backend)

def Backend.nextId : Backend := { b with currentId := b.currentId + 1 }

/-- The answers to the writes of one call: `pwritev` fails or takes at most so many bytes. -/
structure WriteAnswers where
  opensData : Bool
  pwritev : Option Nat
  opensMetadata : Bool
  writesMetadata : Bool
deriving DecidableEq

structure Offload where
  batchObject : Table Bytes (List Bytes)
  completeHandler : Option (Table Bytes BucketObjectMetadata → ErrorCode)
  answers : WriteAnswers

/-! ## Writing -/

def storageObject (id : Int) (o : BucketObjectMetadata) : StorageObjectMetadata :=
  ⟨id, o.offset, o.keySize, o.dataSize⟩

/-- The bucket so far, the vectors to write and the offset behind them. -/
def buildBucketLoop : List (Sigma fun _ : Bytes => List Bytes) → BucketContents → List Bytes → Nat →
    Except ErrorCode (BucketContents × List Bytes)
  | [], bucket, iovs, _ => .ok (bucket, iovs)
  | ⟨key, slices⟩ :: rest, bucket, iovs, storageOffset =>
    if slices.isEmpty then .error .invalidKey
    else
      let objectTotalSize := (slices.map List.length).sum
      buildBucketLoop rest
        { dataSize := bucket.dataSize + (objectTotalSize + key.length)
          objectMetadata := bucket.objectMetadata.emplace key ⟨storageOffset, key.length, objectTotalSize⟩
          keys := bucket.keys ++ [key] }
        (iovs ++ key :: slices) (storageOffset + (objectTotalSize + key.length))

def buildBucket (batchObject : Table Bytes (List Bytes)) : Except ErrorCode (BucketContents × List Bytes) :=
  buildBucketLoop batchObject.entries ⟨0, ∅, []⟩ [] 0

variable (pb : StructPb)

def storeBucketMetadata (d : Directory) (id : Int) (bucket : BucketContents) (answers : WriteAnswers) :
    Except ErrorCode BucketMetadata × Directory :=
  if answers.opensMetadata then
    let str := pb.toPb bucket
    if str.length = 0 then (.error .fileInvalidBuffer, { d with metadata := d.metadata.insert id [] })
    else if answers.writesMetadata then
      (.ok { bucket with metaSize := str.length }, { d with metadata := d.metadata.insert id str })
    else (.error .fileWriteFail, { d with metadata := d.metadata.erase id })
  else (.error .fileOpenFail, d)

/-- The number of bytes that `pwritev` reports is not looked at. -/
def writeBucket (d : Directory) (id : Int) (bucket : BucketContents) (iovs : List Bytes)
    (answers : WriteAnswers) : Except ErrorCode BucketMetadata × Directory :=
  if answers.opensData then
    match answers.pwritev with
    | none => (.error .fileWriteFail, { d with data := d.data.erase id })
    | some n =>
      match storeBucketMetadata pb { d with data := d.data.insert id (iovs.flatten.take n) } id bucket answers with
      | (.error _, d) => (.error .fileWriteFail, d)
      | (.ok metadata, d) => (.ok metadata, d)
  else (.error .fileOpenFail, d)

def Backend.register (id : Int) (bucket : BucketMetadata) : Backend :=
  { b with
    totalSize := b.totalSize + (bucket.dataSize + bucket.metaSize)
    objectBucketMap := (bucket.objectMetadata.entries.map (fun e => (e.1, storageObject id e.2))).foldl
      (fun t e => t.emplace e.1 e.2) b.objectBucketMap
    buckets := b.buckets.emplace id bucket }

def completes (handler : Option (Table Bytes BucketObjectMetadata → ErrorCode))
    (objects : Table Bytes BucketObjectMetadata) : ErrorCode :=
  match handler with
  | none => .ok
  | some handle => handle objects

def batchOffload (b : Backend) (d : Directory) (call : Offload) : Except ErrorCode Int × Backend × Directory :=
  if !b.initialized then (.error .internalError, b, d)
  else if call.batchObject.entries.isEmpty then (.error .invalidKey, b, d)
  else
    let b := b.nextId
    match buildBucket call.batchObject with
    | .error e => (.error e, b, d)
    | .ok (bucket, iovs) =>
      match writeBucket pb d b.currentId bucket iovs call.answers with
      | (.error e, d) => (.error e, b, d)
      | (.ok metadata, d) =>
        match completes call.completeHandler metadata.objectMetadata with
        | .ok => (.ok b.currentId, b.register b.currentId metadata, d)
        | e => (.error e, b, d)

/-! ## Starting -/

def loadBucketMetadata (d : Directory) (id : Int) : Except ErrorCode BucketMetadata :=
  match d.metadata.lookup id with
  | none => .error .fileOpenFail
  | some str =>
    if str.length = 0 then .error .fileInvalidBuffer
    else
      match pb.fromPb str with
      | none => .error .fileReadFail
      | some bucket => .ok { bucket with metaSize := str.length }

def BucketMetadata.valid (bucket : BucketMetadata) : Bool :=
  !(bucket.dataSize == 0 || bucket.metaSize == 0 || bucket.objectMetadata.entries.isEmpty || bucket.keys.isEmpty)

structure Loading where
  backend : Backend
  directory : Directory
  maxBucketId : Int

/-- The body of the loop of `Init`. The bucket that it puts in first, and erases again if it cannot
keep it, is put in when it is kept. -/
def initBucket (s : Loading) (id : Int) : Except ErrorCode Loading :=
  if (s.backend.buckets.lookup id).isSome then .error .bucketAlreadyExists
  else
    match loadBucketMetadata pb s.directory id with
    | .error _ => .ok { s with directory := s.directory.remove id }
    | .ok bucket =>
      if bucket.valid then
        .ok { s with backend := s.backend.register id bucket, maxBucketId := max s.maxBucketId id }
      else .ok { s with directory := s.directory.remove id }

/-- `Init`, where the directory iterator comes to the metadata files in this order. A backend whose
start failed is not used, so what the error leaves behind is not given. -/
def init (time : Nat) (order : List Int) (b : Backend) (d : Directory) :
    Except ErrorCode (Backend × Directory) :=
  if b.initialized then .error .internalError
  else
    match order.foldlM (initBucket pb) ⟨{ b with totalSize := 0, objectBucketMap := ∅, buckets := ∅ }, d, -1⟩ with
    | .error e => .error e
    | .ok s =>
      .ok ({ s.backend with currentId := generatorStart s.maxBucketId time, initialized := true }, s.directory)

/-! ## Reading -/

/-- The answers to the reads of one call: the order in which it comes to the buckets, whether their
files can be opened, and for each key whether `preadv` fails or the bytes that it gives at most. -/
structure ReadAnswers where
  order : List Int
  opens : Int → Bool
  preadv : Bytes → Option Nat

def bucketKeyMapLoop (b : Backend) : List Bytes → Table Int (List Bytes) → Except ErrorCode (Table Int (List Bytes))
  | [], bucketKeyMap => .ok bucketKeyMap
  | key :: rest, bucketKeyMap =>
    match b.objectBucketMap.lookup key with
    | none => .error .invalidKey
    | some object => bucketKeyMapLoop b rest (bucketKeyMap.pushBack object.bucketId key)

/-- A read of a file into a slice that holds other bytes, and the count that it reports. -/
def readAt (file : Bytes) (offset limit : Nat) (slice : Bytes) : Bytes × Nat :=
  let got := ((file.drop offset).take slice.length).take limit
  (got ++ slice.drop got.length, got.length)

def batchLoadBucketLoop (b : Backend) (file : Bytes) (id : Int) (answers : ReadAnswers) : List Bytes →
    Table Bytes Bytes → Except ErrorCode Unit × Table Bytes Bytes
  | [], slices => (.ok (), slices)
  | key :: rest, slices =>
    let slice := (slices.lookup key).getD []
    match b.buckets.lookup id with
    | none => (.error .bucketNotFound, slices)
    | some bucket =>
      match bucket.objectMetadata.lookup key with
      | none => (.error .objectNotFound, slices)
      | some object =>
        if object.dataSize ≠ slice.length then (.error .fileReadFail, slices)
        else
          match answers.preadv key with
          | none => (.error .fileReadFail, slices)
          | some limit =>
            let (filled, count) := readAt file (object.offset + key.length) limit slice
            if count ≠ slice.length then (.error .fileReadFail, slices.insert key filled)
            else batchLoadBucketLoop b file id answers rest (slices.insert key filled)

def batchLoadBucket (d : Directory) (answers : ReadAnswers) (id : Int) (keys : List Bytes)
    (slices : Table Bytes Bytes) : Except ErrorCode Unit × Table Bytes Bytes :=
  if answers.opens id then
    match d.data.lookup id with
    | none => (.error .fileOpenFail, slices)
    | some file => batchLoadBucketLoop b file id answers keys slices
  else (.error .fileOpenFail, slices)

def batchLoadLoop (b : Backend) (d : Directory) (answers : ReadAnswers) (bucketKeyMap : Table Int (List Bytes)) :
    List Int → Table Bytes Bytes → Except ErrorCode Unit × Table Bytes Bytes
  | [], slices => (.ok (), slices)
  | id :: rest, slices =>
    match batchLoadBucket b d answers id (bucketKeyMap.listAt id) slices with
    | (.error e, slices) => (.error e, slices)
    | (.ok (), slices) => batchLoadLoop b d answers bucketKeyMap rest slices

/-- `BatchLoad` into slices that hold some bytes before. -/
def batchLoad (d : Directory) (answers : ReadAnswers) (batchObject : Table Bytes Bytes) :
    Except ErrorCode Unit × Table Bytes Bytes :=
  match bucketKeyMapLoop b (batchObject.entries.map (·.1)) ∅ with
  | .error e => (.error e, batchObject)
  | .ok bucketKeyMap => batchLoadLoop b d answers bucketKeyMap answers.order batchObject

end Mooncake.Storage
