import Mooncake.P2PStore.Copies
import Mooncake.P2PStore.World

/-! What the stored payload lists, as far as the calls of a store do not overlap: every place belongs to the
buffers that the store has registered for the name, or that a call of it has just listed. -/
namespace Mooncake.P2PStore

/-! ## Calls in order -/

def Attempt.isCompleted : Attempt → Bool
  | .completed => true
  | _ => false

variable (etcd : Etcd)

def Etcd.lists (version : Option Version) (k : Nat) (location : Location) : Bool :=
  etcd.stored.any fun s => version.map Version.number = some s.version.number &&
    (s.payload.shards[k]?).any (fun shard => shard.locations.contains location)

/-- A `GetReplica` has the one buffer of the payload. A goroutine stores its result when no other one has a
result that it has not looked at, and reads from places that are listed at that time; the update meets the
version that was read, and its answer is not lost. -/
def GetPhase.orderly (session : Session) (buffers : List (Nat × Nat)) (version : Option Version) :
    GetPhase → Choice → Bool
  | .reading, .etcd _ => etcd.stored.all fun s => s.payload.sizeList = buffers.map Prod.snd
  | .updating _ revision, .etcd answer =>
    answer ≠ .lost && etcd.stored.all fun s =>
      s.revision ≠ revision || version.map Version.number = some s.version.number
  | .downloading payload _ d, .memory conduct =>
    match d.rest with
    | [] => true
    | (addr, size) :: _ => decide (session.Regular maxChunkSize (.add addr size payload.maxShardSize conduct))
  | .downloading _ _ d, .transfer k random attempts =>
    (List.range d.tasks.length).all (fun k => d.phase k ≠ .stored) &&
      (d.tasks[k]?).all fun task => (List.range (max 3 task.shard.count)).all fun r =>
        !(attempts r).isCompleted || (task.shard.getLocation random r).all (etcd.lists version k)
  | _, _ => true

/-- Calls of one store do not overlap, `Unregister` is for what was registered and `DeleteReplica` for a
replica, a `GetReplica` has one buffer, the answer to a registration is not lost, and the calls to the
registered memory are regular. -/
def World.orderly (w : World) : Event → Bool
  | .register i _ _ _ _ _ => (w.stores i).calls.isEmpty
  | .getReplica i _ addrList _ => (w.stores i).calls.isEmpty && decide (addrList.length ≤ 1)
  | .remove i _ removal =>
    (w.stores i).calls.isEmpty && (w.stores i).catalog.all fun params =>
      params.isGold == (removal == .unregister)
  | .write _ _ _ => true
  | .advance i c choice =>
    let st := w.stores i
    match st.calls.lookup c, choice with
    | some (.registering _ (b :: _) maxShardSize _), .memory conduct =>
      decide (st.session.Regular maxChunkSize (.add b.1 b.2 maxShardSize conduct))
    | some (.registering _ [] _ _), .etcd answer => answer ≠ .lost
    | some (.removing (b :: _) maxShardSize), .memory conduct =>
      decide (st.session.Regular maxChunkSize (.remove b.1 b.2 maxShardSize conduct))
    | some (.getting buffers phase version), choice => phase.orderly w.etcd st.session buffers version choice
    | _, _ => true

/-! ## What holds of a store -/

def Etcd.Fine : Prop :=
  ∀ s, etcd.stored = some s → s.revision ≤ etcd.revision ∧ s.version.number < etcd.versions ∧
    Shaped s.payload s.version.contents

def Store.advertised (st : Store) : Option (Bool × List (Nat × Nat)) :=
  match st.calls with
  | (_, .recording isGold buffers _) :: _ => some (isGold, buffers)
  | (_, .forgetting _) :: _ => none
  | _ => st.catalog.map fun params => (params.isGold, params.buffers)

def Store.Placed (st : Store) (isGold : Bool) (location : Location) (content : List UInt8) : Prop :=
  ∃ buffers, st.advertised = some (isGold, buffers) ∧ ∃ buffer ∈ buffers, buffer.1 ≤ location.offset ∧
    location.offset + content.length ≤ buffer.1 + buffer.2 ∧
      Extent.read st.memory location.offset content.length = content

def Store.Listed (i : String) (st : Store) : Prop :=
  ∀ s, etcd.stored = some s → ∀ (k : Nat) (shard : Shard) (content : List UInt8),
    s.payload.shards[k]? = some shard →
    s.version.contents[k]? = some content →
    (∀ location ∈ shard.gold, location.segmentName = i → st.Placed true location content) ∧
      ∀ location ∈ shard.replicaList, location.segmentName = i → st.Placed false location content

def Current (revision : Nat) (P : Payload → Prop) : Prop :=
  revision ≤ etcd.revision ∧ ∀ s, etcd.stored = some s → s.revision = revision → P s.payload

structure Knows (etcd : Etcd) (version : Version) (m n : Nat) : Prop where
  number : version.number < etcd.versions
  positive : 0 < m
  lengths : version.contents.map List.length = shardLengths m [n]
  same : ∀ s, etcd.stored = some s → s.version.number = version.number →
    s.version = version ∧ s.payload.maxShardSize = m ∧ s.payload.sizeList = [n]

def HasCopy (memory : Memory) (version : Version) (a n m : Nat) : Prop :=
  ∀ (k : Nat) (t : Nat × Nat) (content : List UInt8), (Strides.tiles n m 0)[k]? = some t →
    version.contents[k]? = some content →
    Extent.read memory (a + t.1) t.2 = content

structure Copying (memory : Memory) (version : Version) (payload : Payload) (a n : Nat) (d : Download) :
    Prop where
  planned : d.Planned payload [(a, n)]
  idle : ∀ k, d.tasks.length ≤ k → d.phase k = .running
  stored : ∀ (k : Nat) (task : Task) (content : List UInt8), d.tasks[k]? = some task →
    version.contents[k]? = some content →
    d.phase k = .stored → d.err task.buffer = none → Extent.read memory task.source content.length = content
  done : ∀ (k : Nat) (task : Task) (content : List UInt8), d.tasks[k]? = some task →
    version.contents[k]? = some content →
    d.phase k = .done → d.errChan = none → Extent.read memory task.source content.length = content

def GetOk (i : String) (st : Store) (a n : Nat) (version : Option Version) : GetPhase → Prop
  | .reading => True
  | .downloading payload revision d => ∃ v m, version = some v ∧ Knows etcd v m n ∧ Describes payload m [n] ∧
      Current etcd revision (· = payload) ∧ Copying st.memory v payload a n d ∧
        (d.rest = [] → (a, n) ∈ st.session.memory.regions)
  | .rechecking payload revision => ∃ v m, version = some v ∧ Knows etcd v m n ∧ Describes payload m [n] ∧
      Current etcd revision (· = payload) ∧ HasCopy st.memory v a n m ∧ (a, n) ∈ st.session.memory.regions
  | .updating payload revision => ∃ v m, version = some v ∧ Knows etcd v m n ∧
      Current etcd revision (fun p => p.appendReplicas i [(a, n)] = some payload) ∧ HasCopy st.memory v a n m ∧
      (a, n) ∈ st.session.memory.regions
  | .rereading => ∃ v m, version = some v ∧ Knows etcd v m n ∧ HasCopy st.memory v a n m ∧
      (a, n) ∈ st.session.memory.regions
  | .abandoned _ d => d.tasks = []
  | .finished _ => False

def Removal.isGold : Removal → Bool
  | .unregister => true
  | .deleteReplica => false

def CallOk (i : String) (st : Store) : CallState → Prop
  | .registering buffers todo maxShardSize _ => st.catalog = none ∧ buffers ≠ [] ∧
      ∃ added, buffers = added ++ todo ∧ (∀ b ∈ added, b ∈ st.session.memory.regions) ∧
        (added ≠ [] → 0 < maxShardSize)
  | .recording _ _ _ => st.catalog = none
  | .reading removal params => st.catalog = some params ∧ params.isGold = removal.isGold
  | .writing removal params payload revision => st.catalog = some params ∧ params.isGold = removal.isGold ∧
      Current etcd revision (fun p => payload = removal.apply i p)
  | .forgetting params => st.catalog = some params
  | .removing _ _ => st.catalog = none
  | .getting buffers phase version =>
    st.catalog = none ∧ ∃ a n, buffers = [(a, n)] ∧ GetOk etcd i st a n version phase

structure StoreOk (etcd : Etcd) (i : String) (st : Store) : Prop where
  session : st.session.Sound maxChunkSize
  calls : st.calls = [] ∨ ∃ c call, st.calls = [(c, call)] ∧ CallOk etcd i st call
  kept : ∀ isGold buffers, st.advertised = some (isGold, buffers) → ∀ b ∈ buffers, b ∈ st.session.memory.regions
  listed : st.Listed etcd i

def World.Sound (w : World) : Prop := w.etcd.Fine ∧ ∀ i, StoreOk w.etcd i (w.stores i)

/-! ## What follows -/

theorem Session.Sound.covers {maxChunkSize : Nat} {session : Session} (sound : session.Sound maxChunkSize)
    {buffer : Nat × Nat} (registered : buffer ∈ session.memory.regions) {x : Nat} (low : buffer.1 ≤ x)
    (high : x < buffer.1 + buffer.2) :
    ∃ base size, session.memory.engine base = some size ∧ base ≤ x ∧ x < base + size := by
  have fits := sound.tiled.fits buffer registered
  obtain ⟨t, tile, below, above⟩ := Strides.exists_tile fits.1 (show x - buffer.1 < buffer.2 by omega)
  refine ⟨buffer.1 + t.1, t.2, (sound.tiled.registered _ _).mpr
    ⟨buffer, registered, fits.mem_chunks.mpr ⟨t, tile, rfl, rfl⟩⟩, ?_, ?_⟩
  · omega
  · omega

theorem Store.Listed.placed {etcd : Etcd} {i : String} {st : Store} {s : Stored} {k : Nat} {shard : Shard}
    {content : List UInt8} {location : Location} (listed : st.Listed etcd i) (stored : etcd.stored = some s)
    (there : s.payload.shards[k]? = some shard) (here : s.version.contents[k]? = some content)
    (member : location ∈ shard.locations) (segment : location.segmentName = i) :
    ∃ isGold, st.Placed isGold location content := by
  obtain ⟨gold, replicas⟩ := listed s stored k shard content there here
  rcases List.mem_append.mp member with replica | golden
  · exact ⟨false, replicas location replica segment⟩
  · exact ⟨true, gold location golden segment⟩

theorem World.Sound.truthful {w : World} (sound : w.Sound) : w.Truthful := by
  intro s stored k shard at_
  obtain ⟨content, found, length⟩ := (sound.1 s stored).2.2.content at_
  refine ⟨content, found, fun location member => ?_⟩
  have ok := sound.2 location.segmentName
  obtain ⟨isGold, buffers, advertised, buffer, inside, low, high, bytes⟩ :=
    ok.listed.placed stored at_ found member rfl
  refine ⟨fun b below => ?_, length ▸ bytes⟩
  exact ok.session.covers (ok.kept isGold buffers advertised buffer inside) (by omega) (by omega)

end Mooncake.P2PStore
