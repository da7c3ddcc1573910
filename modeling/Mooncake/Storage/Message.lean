import Mooncake.Storage.Index

/-! A format for the metadata of a bucket that meets what is asked of `struct_pb`: numbers are written
in unary, everything else with its length in front. -/
namespace Mooncake.Storage.Message

def putNat (n : Nat) : Bytes := List.replicate n 1 ++ [0]

def takeNat : Bytes → Nat × Bytes
  | [] => (0, [])
  | b :: rest => if b = 0 then (0, rest) else ((takeNat rest).1 + 1, (takeNat rest).2)

def putBytes (s : Bytes) : Bytes := putNat s.length ++ s

def takeBytes (bs : Bytes) : Bytes × Bytes := ((takeNat bs).2.take (takeNat bs).1, (takeNat bs).2.drop (takeNat bs).1)

def putObject (e : Sigma fun _ : Bytes => BucketObjectMetadata) : Bytes :=
  putBytes e.1 ++ (putNat e.2.offset ++ (putNat e.2.keySize ++ putNat e.2.dataSize))

def takeObject (bs : Bytes) : (Bytes × BucketObjectMetadata) × Bytes :=
  let (key, bs) := takeBytes bs
  let (offset, bs) := takeNat bs
  let (keySize, bs) := takeNat bs
  let (dataSize, bs) := takeNat bs
  ((key, ⟨offset, keySize, dataSize⟩), bs)

def putAll {α : Type} (put : α → Bytes) (xs : List α) : Bytes := putNat xs.length ++ xs.flatMap put

def takeMany {α : Type} (take : Bytes → α × Bytes) : Nat → Bytes → List α × Bytes
  | 0, bs => ([], bs)
  | n + 1, bs => ((take bs).1 :: (takeMany take n (take bs).2).1, (takeMany take n (take bs).2).2)

def takeAll {α : Type} (take : Bytes → α × Bytes) (bs : Bytes) : List α × Bytes :=
  takeMany take (takeNat bs).1 (takeNat bs).2

def format : StructPb where
  toPb c := putNat c.dataSize ++ (putAll putObject c.objectMetadata.entries ++ putAll putBytes c.keys)
  fromPb bs :=
    let (dataSize, bs) := takeNat bs
    let (objects, bs) := takeAll takeObject bs
    let (keys, _) := takeAll takeBytes bs
    some ⟨dataSize, objects.foldl (fun t e => t.emplace e.1 e.2) ∅, keys⟩

@[simp] theorem takeNat_put (n : Nat) (rest : Bytes) : takeNat (putNat n ++ rest) = (n, rest) := by
  induction n with
  | zero => rfl
  | succ n ih =>
    have shape : putNat (n + 1) ++ rest = 1 :: (putNat n ++ rest) := rfl
    rw [shape, takeNat, ih]
    rfl

@[simp] theorem takeBytes_put (s rest : Bytes) : takeBytes (putBytes s ++ rest) = (s, rest) := by
  simp [takeBytes, putBytes]

@[simp] theorem takeObject_put (e : Sigma fun _ : Bytes => BucketObjectMetadata) (rest : Bytes) :
    takeObject (putObject e ++ rest) = ((e.1, e.2), rest) := by
  simp [takeObject, putObject]

theorem takeAll_put {α β : Type} {put : α → Bytes} {take : Bytes → β × Bytes} {value : α → β}
    (inverse : ∀ x rest, take (put x ++ rest) = (value x, rest)) (xs : List α) (rest : Bytes) :
    takeAll take (putAll put xs ++ rest) = (xs.map value, rest) := by
  have many : takeMany take xs.length (xs.flatMap put ++ rest) = (xs.map value, rest) := by
    induction xs with
    | nil => rfl
    | cons x xs ih => simp [takeMany, inverse, ih]
  simp [takeAll, putAll, many]

theorem fromPb_toPb (c : BucketContents) : format.fromPb (format.toPb c) =
    some ⟨c.dataSize, (c.objectMetadata.entries.map (fun e => (e.1, e.2))).foldl (fun t e => t.emplace e.1 e.2)
      ∅, c.keys⟩ := by
  have keys : takeAll takeBytes (putAll putBytes c.keys ++ []) = (c.keys.map id, []) := takeAll_put takeBytes_put _ _
  rw [List.append_nil, List.map_id] at keys
  have objects := takeAll_put takeObject_put c.objectMetadata.entries (putAll putBytes c.keys)
  simp only [format, takeNat_put, objects, keys]

theorem faithful_format : format.Faithful where
  fromPb_toPb c := by
    refine ⟨_, fromPb_toPb c, rfl, rfl, fun key => ?_⟩
    have entries := Table.lookup_foldl_emplace_entries (fun o => o) c.objectMetadata ∅ key
    rwa [Option.map_id'] at entries
  toPb_ne_nil c _ := by simp [format, putNat]

end Mooncake.Storage.Message
