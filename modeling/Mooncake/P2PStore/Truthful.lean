import Mooncake.P2PStore.Fetching

/-! Calls in order keep what is listed true, in any interleaving of the stores. -/
namespace Mooncake.P2PStore

open Function List World Option

variable {etcd etcd' : Etcd} {i name : String} {st st' : Store} {c : Nat} {call : CallState}
  {buffers todo : List (Nat × Nat)}
  {m a n : Nat} {answer : Answer} {conduct : Conduct} {params : Params} {removal : Removal} {payload : Payload}
    {revision : Nat}

/-! ## Stores that stand for nothing -/

def Unlisted (etcd : Etcd) (i : String) : Prop :=
  ∀ s, etcd.stored = some s → ∀ (k : Nat) (shard : Shard), s.payload.shards[k]? = some shard →
    ∀ location ∈ shard.locations, location.segmentName ≠ i

theorem Unlisted.listed (unlisted : Unlisted etcd i) (st : Store) : st.Listed etcd i :=
  fun s stored k shard _ there _ =>
    ⟨fun location member segment => absurd segment (unlisted s stored k shard there location (mem_append_right _ member)),
      fun location member segment => absurd segment (unlisted s stored k shard there location (mem_append_left _ member))⟩

theorem StoreOk.unlisted (ok : StoreOk etcd i st) (fine : etcd.Fine) (silent : st.advertised = none) :
    Unlisted etcd i := by
  intro s stored k shard there location member segment
  obtain ⟨content, here, _⟩ := (fine s stored).2.2.content there
  obtain ⟨_, _, stands, _⟩ := ok.listed.placed stored there here member segment
  cases silent.symm.trans stands

theorem StoreOk.single (ok : StoreOk etcd i st) (found : st.calls.lookup c = some call) :
    st.calls = [(c, call)] ∧ CallOk etcd i st call := by
  rcases ok.calls with none | ⟨c', call', single, fine⟩
  · rw [none] at found
    cases found
  · rw [single, lookup_cons] at found
    split at found
    next same =>
      cases found
      rw [beq_iff_eq.mp same]
      exact ⟨single, fine⟩
    · cases found

theorem Store.enter_single (single : st.calls = [(c, call)]) (call' : CallState) :
    st.enter c call' = { st with calls := [(c, call')] } := by
  simp [enter, single]

theorem Store.finish_single (single : st.calls = [(c, call)]) : st.finish c = { st with calls := [] } := by
  simp [finish, single]

theorem Store.begin_idle (idle : st.calls = []) (c : Nat) (call : CallState) :
    st.begin c call = { st with calls := [(c, call)] } := by rw [begin, idle]

def CallState.Silent : CallState → Prop
  | .recording _ _ _ => False
  | _ => True

theorem Store.advertised_eq_none (free : st.catalog = none) (single : st.calls = [(c, call)]) (silent : call.Silent) :
    st.advertised = none := by
  unfold advertised
  rw [single]
  cases call with
  | recording => exact silent.elim
  | _ => simp only [free, map_none]

/-- A store that has nothing to show, as long as its calls are silent. -/
structure Hidden (etcd : Etcd) (i : String) (session : Session) (catalog : Option Params) : Prop where
  session : session.Sound maxChunkSize
  free : catalog = none
  unlisted : Unlisted etcd i

theorem StoreOk.hidden (ok : StoreOk etcd i st) (fine : etcd.Fine) (free : st.catalog = none)
    (single : st.calls = [(c, call)]) (silent : call.Silent) : Hidden etcd i st.session st.catalog :=
  ⟨ok.session, free, ok.unlisted fine (Store.advertised_eq_none free single silent)⟩

theorem StoreOk.hidden_idle (ok : StoreOk etcd i st) (fine : etcd.Fine) (free : st.catalog = none)
    (idle : st.calls = []) : Hidden etcd i st.session st.catalog :=
  ⟨ok.session, free, ok.unlisted fine (by simp only [Store.advertised, idle, free, map_none])⟩

section
variable (hidden : Hidden etcd i st.session st.catalog)
include hidden

theorem StoreOk.busy (single : st.calls = [(c, call)]) (silent : call.Silent) (ok : CallOk etcd i st call) :
    StoreOk etcd i st where
  session := hidden.session
  calls := .inr ⟨c, call, single, ok⟩
  kept := fun _ _ stands => by cases (Store.advertised_eq_none hidden.free single silent).symm.trans stands
  listed := hidden.unlisted.listed st

theorem StoreOk.idle (none : st.calls = []) : StoreOk etcd i st where
  session := hidden.session
  calls := .inl none
  kept := fun _ _ stands => by
    simp only [Store.advertised, none, hidden.free, map_none] at stands
    cases stands
  listed := hidden.unlisted.listed st

end

theorem StoreOk.crash (unlisted : Unlisted etcd i) : StoreOk etcd i st.crash := .idle ⟨.start _, rfl, unlisted⟩ rfl

theorem StoreOk.leave (st : Store) (hidden : Hidden etcd i st.session st.catalog) (single : st.calls = [(c, call)])
    (todo : List (Nat × Nat)) (m : Nat) : StoreOk etcd i (st.leave c todo m) := by
  unfold Store.leave
  split
  · rw [Store.finish_single single]
    exact .idle hidden rfl
  · rw [Store.enter_single single]
    exact .busy hidden rfl trivial hidden.free

theorem StoreOk.proceed {read : Option Version} {phase : GetPhase} (hidden : Hidden etcd i st.session st.catalog)
    (single : st.calls = [(c, call)]) (arrives : Arrives etcd i st a n read phase) :
    StoreOk etcd i (st.proceed c [(a, n)] read phase) := by
  have going : GetOk etcd i st a n read phase → StoreOk etcd i (st.enter c (.getting [(a, n)] phase read)) := by
    intro ok
    rw [Store.enter_single single]
    refine .busy hidden rfl trivial ⟨hidden.free, a, n, rfl, ?_⟩
    cases phase <;> exact ok
  rcases arrives with ⟨outcome, rfl⟩ | ok
  · cases outcome with
    | returned err =>
      show StoreOk etcd i (st.finish c)
      rw [Store.finish_single single]
      exact .idle hidden rfl
    | indexOutOfRange | nilDereference => exact .crash hidden.unlisted
  · cases phase with
    | finished => exact ok.elim
    | _ => exact going ok

/-! ## The registered memory -/

variable {reply : Reply}

theorem Store.perform_add {addr size : Nat} (sound : st.session.Sound maxChunkSize)
    (regular : st.session.Regular maxChunkSize (.add addr size m conduct))
    (performed : st.perform (.add addr size m conduct) = some (reply, st')) :
    ∃ session : Session, st' = { st with session := session } ∧ session.Sound maxChunkSize ∧ reply ≠ .panicked ∧
      (∀ r ∈ st.session.memory.regions, r ∈ session.memory.regions) ∧
      (reply = .ok → (addr, size) ∈ session.memory.regions) := by
  obtain ⟨⟨reply', memory⟩, called, same⟩ := map_eq_some_iff.mp performed
  cases same
  have after := (sound.add regular called).1
  have grown : ∀ r, st.session.adds r ≤ (st.session.note memory reply (.add addr size m conduct)).adds r ∧
      (reply = .ok → r = (addr, size) →
        st.session.adds r < (st.session.note memory reply (.add addr size m conduct)).adds r) := by
    intro r
    simp only [Session.note]
    split
    · by_cases here : r = (addr, size)
      · rw [here, update_self]
        exact ⟨Nat.le_succ _, fun _ _ => Nat.lt_succ_self _⟩
      · rw [update_of_ne here]
        exact ⟨Nat.le_refl _, fun _ same => absurd same here⟩
    next failed => exact ⟨Nat.le_refl _, fun ok => absurd ok failed⟩
  have fewer : ∀ r, st.session.removes r ≤ st.session.adds r := by
    intro r
    by_cases listed : r ∈ st.session.memory.regions
    · exact Nat.le_of_lt (sound.mem_regions_iff.mp listed)
    · exact Nat.le_of_eq (sound.unlisted r listed).symm
  refine ⟨_, rfl, after, fun panicked => ?_, fun r listed => ?_, fun ok => ?_⟩
  · have alive := after.alive
    simp [Session.note, panicked] at alive
  · exact after.mem_regions_iff.mpr (Nat.lt_of_lt_of_le (sound.mem_regions_iff.mp listed) (grown r).1)
  · exact after.mem_regions_iff.mpr (Nat.lt_of_le_of_lt (fewer _) ((grown _).2 ok rfl))

theorem Store.perform_remove {addr size : Nat} (sound : st.session.Sound maxChunkSize)
    (regular : st.session.Regular maxChunkSize (.remove addr size m conduct))
    (performed : st.perform (.remove addr size m conduct) = some (reply, st')) :
    ∃ session : Session, st' = { st with session := session } ∧ session.Sound maxChunkSize ∧ reply ≠ .panicked := by
  obtain ⟨⟨reply', memory⟩, called, same⟩ := map_eq_some_iff.mp performed
  cases same
  have after := sound.remove regular
  rw [show st.session.memory.remove maxChunkSize addr size m conduct = (reply, memory) from some.inj called] at after
  refine ⟨_, rfl, after, fun panicked => ?_⟩
  have alive := after.alive
  simp [Session.note, panicked] at alive

/-! ## One lemma for each kind of step -/

/-- The store is as it should be afterwards, and the other stores notice nothing. -/
def Keeps (etcd : Etcd) (i : String) (result : Store × Etcd) : Prop :=
  StoreOk result.2 i result.1 ∧ result.2.Fine ∧ (result.2 = etcd ∨ etcd.Moves i result.2)

theorem Keeps.still (fine : etcd.Fine) (ok : StoreOk etcd i st') : Keeps etcd i (st', etcd) := ⟨ok, fine, .inl rfl⟩

section
variable (ok : StoreOk etcd i st)
include ok

theorem StoreOk.changed (catalog : Option Params) {calls : List (Nat × CallState)}
    (same : Store.advertised { st with catalog := catalog, calls := calls } = st.advertised)
    (fine : calls = [] ∨ ∃ c call, calls = [(c, call)] ∧
      CallOk etcd i { st with catalog := catalog, calls := calls } call) :
    StoreOk etcd i { st with catalog := catalog, calls := calls } := by
  refine ⟨ok.session, fine, fun isGold buffers stands => ok.kept isGold buffers (same ▸ stands),
    fun s stored k shard content there here => ?_⟩
  unfold Store.Placed
  rw [same]
  exact ok.listed s stored k shard content there here

theorem Keeps.register_add {b : Nat × Nat} {force : Bool} (fine : etcd.Fine)
    (found : st.calls.lookup c = some (.registering buffers (b :: todo) m force))
    (regular : st.session.Regular maxChunkSize (.add b.1 b.2 m conduct)) :
    st.perform (.add b.1 b.2 m conduct) = some (reply, st') → Keeps etcd i (match reply with
      | .ok => st'.enter c (.registering buffers todo m force)
      | .error _ => st'.leave c (buffers.take (buffers.length - (todo.length + 1))) m
      | .panicked => st'.crash, etcd) := by
  intro performed
  obtain ⟨single, free, some, added, split, registered, _⟩ := ok.single found
  obtain ⟨session, rfl, sound, alive, kept, new⟩ := Store.perform_add ok.session regular performed
  have hidden : Hidden etcd i session st.catalog := ⟨sound, free, (ok.hidden fine free single trivial).unlisted⟩
  have single' : Store.calls { st with session := session } = [(c, .registering buffers (b :: todo) m force)] := single
  refine .still fine ?_
  cases reply with
  | ok =>
    show StoreOk etcd i (Store.enter _ c _)
    rw [Store.enter_single single']
    refine .busy hidden rfl trivial ⟨free, some, added ++ [b], by rw [split, append_assoc]; rfl,
      fun b' member => ?_, fun _ => regular.1⟩
    rcases mem_append.mp member with old | last
    · exact kept b' (registered b' old)
    · rw [mem_singleton.mp last]
      exact new rfl
  | error e => exact .leave { st with session := session } hidden single _ _
  | panicked => exact absurd rfl alive

theorem Keeps.publish {force : Bool} (found : st.calls.lookup c = some (.registering buffers [] m force)) :
    Keeps etcd i (st.enter c (.recording true buffers m),
      etcd.put (Payload.register i name m buffers) (shardContents st.memory m buffers)) := by
  obtain ⟨single, free, some, added, split, registered, width⟩ := ok.single found
  rw [append_nil] at split
  subst split
  have positive := width some
  have describes := describes_register i name m buffers
  refine ⟨?_, ?_, .inr ⟨Nat.le_succ _, Nat.le_succ _, fun s' at_ => ?_, fun s' at_ => ?_,
    fun s' at_ k shard content there here location other member => ?_⟩⟩
  · rw [Store.enter_single single]
    refine ⟨ok.session, .inr ⟨c, _, rfl, free⟩, fun isGold buffers' stands b member => ?_,
      fun s' at_ k shard content there here => ?_⟩
    · cases stands
      exact registered b member
    · cases at_
      obtain ⟨buffer, inside, offset, below, rfl⟩ := shard_registered positive there
      refine ⟨fun location member _ => ?_, fun location member _ => (nomatch member)⟩
      have bytes := serves_register st.memory i name m buffers k _ content there here location (mem_append_right _ member)
      cases mem_singleton.mp member
      have length : content.length = min m (buffer.2 - offset) := by rw [← bytes, Extent.length_read]
      refine ⟨buffers, rfl, buffer, inside, Nat.le_add_right _ _, ?_, length ▸ bytes⟩
      show buffer.1 + offset + content.length ≤ _
      omega
  · intro s' at_
    cases at_
    exact ⟨Nat.le_refl _, Nat.lt_succ_self _, positive, describes, length_shardContents _ _ _⟩
  · cases at_
    exact Nat.lt_succ_self _
  · cases at_
    exact .inl (Nat.le_refl _)
  · cases at_
    obtain ⟨buffer, _, offset, _, rfl⟩ := shard_registered positive there
    cases mem_singleton.mp member
    exact absurd rfl other

variable (fine : etcd.Fine)
include fine

theorem Keeps.record {isGold : Bool} (found : st.calls.lookup c = some (.recording isGold buffers m)) :
    Keeps etcd i (Store.finish { st with catalog := some ⟨isGold, buffers, m⟩ } c, etcd) := by
  have single := (ok.single found).1
  have single' : Store.calls { st with catalog := some ⟨isGold, buffers, m⟩ } = [(c, .recording isGold buffers m)] := single
  refine .still fine ?_
  rw [Store.finish_single single']
  exact ok.changed _ (by simp only [Store.advertised, single, map_some]) (.inl rfl)

theorem Keeps.read (found : st.calls.lookup c = some (.reading removal params)) :
    Keeps etcd i (match answer, etcd.get with
      | .given, some (payload, revision) => (st.enter c (.writing removal params (removal.apply i payload) revision), etcd)
      | _, _ => (st.finish c, etcd)) := by
  obtain ⟨single, listed, kind⟩ := ok.single found
  have stands : st.advertised = st.catalog.map fun params => (params.isGold, params.buffers) := by
    unfold Store.advertised
    rw [single]
  split
  next payload revision got =>
    obtain ⟨s, stored, same⟩ := map_eq_some_iff.mp got
    cases same
    refine .still fine ?_
    rw [Store.enter_single single]
    exact ok.changed _ stands.symm (.inr ⟨c, _, rfl, listed, kind, (fine s stored).1, fun s' stored' _ => by
      cases stored.symm.trans stored'; rfl⟩)
  · refine .still fine ?_
    rw [Store.finish_single single]
    exact ok.changed _ stands.symm (.inl rfl)

theorem unlisted_of_removal
    (stands : st.advertised = some (removal.isGold, buffers)) {s : Stored} (stored : etcd.stored = some s)
    (s' : Stored) (same : s'.payload = removal.apply i s.payload) (k : Nat) (shard : Shard)
    (there : s'.payload.shards[k]? = some shard) : ∀ location ∈ shard.locations, location.segmentName ≠ i := by
  intro location member segment
  rw [same] at there
  have kind : ∀ isGold content, st.Placed isGold location content → isGold = removal.isGold := by
    rintro isGold content ⟨_, here, _⟩
    cases stands.symm.trans here
    rfl
  cases removal with
  | unregister =>
    obtain ⟨old, found, rfl⟩ := shard_clearGold there
    obtain ⟨content, here, _⟩ := (fine s stored).2.2.content found
    rcases mem_append.mp member with replica | golden
    · cases kind false content ((ok.listed s stored k old content found here).2 location replica segment)
    · cases golden
  | deleteReplica =>
    obtain ⟨old, found, gold, replicas⟩ := shard_dropReplicas there
    obtain ⟨content, here, _⟩ := (fine s stored).2.2.content found
    rcases mem_append.mp member with replica | golden
    · exact (replicas location replica).2 segment
    · cases kind true content ((ok.listed s stored k old content found here).1 location (gold ▸ golden) segment)

theorem Keeps.write (found : st.calls.lookup c = some (.writing removal params payload revision)) :
    Keeps etcd i (match answer, etcd.update payload revision with
      | .failed, _ => (st.finish c, etcd)
      | .lost, (_, etcd') => (st.finish c, etcd')
      | .given, (true, etcd') => (st.enter c (.forgetting params), etcd')
      | .given, (false, _) => (st.enter c (.reading removal params), etcd)) := by
  obtain ⟨single, listed, kind, current⟩ := ok.single found
  have stands : st.advertised = st.catalog.map fun params => (params.isGold, params.buffers) := by
    unfold Store.advertised
    rw [single]
  have finished : Keeps etcd i (st.finish c, etcd) := by
    refine .still fine ?_
    rw [Store.finish_single single]
    exact ok.changed _ stands.symm (.inl rfl)
  -- an update that is carried out takes this store out of the payload, whether or not the store learns of it
  have carried : ∀ etcd', etcd.update payload revision = (true, etcd') →
      Unlisted etcd' i ∧ etcd'.Fine ∧ etcd.Moves i etcd' := by
    intro etcd' updated
    have revises : ∀ s, etcd.stored = some s → s.revision = revision → Revises i s.payload payload := fun s stored same =>
      current.2 s stored same ▸ revises_removal i removal s.payload
    obtain ⟨s, before, same, _, _, stored⟩ := Etcd.update_true updated
    rw [listed, map_some, kind] at stands
    refine ⟨fun s' at_ k shard there => ?_, Etcd.fine_update fine revises updated, Etcd.moves_update revises updated⟩
    have value := Etcd.stored_update_true stored at_
    exact unlisted_of_removal ok fine stands before s' (by rw [value, current.2 s before same]) k shard there
  split
  · exact finished
  next done etcd' updated =>
    cases done with
    | true =>
      obtain ⟨unlisted, fine', moves⟩ := carried etcd' updated
      refine ⟨?_, fine', .inr moves⟩
      show StoreOk etcd' i (st.finish c)
      rw [Store.finish_single single]
      exact ⟨ok.session, .inl rfl, fun isGold buffers here => ok.kept isGold buffers (stands.trans here), unlisted.listed _⟩
    | false => exact Etcd.update_false updated ▸ finished
  next etcd' updated =>
    obtain ⟨unlisted, fine', moves⟩ := carried etcd' updated
    refine ⟨?_, fine', .inr moves⟩
    show StoreOk etcd' i (st.enter c _)
    rw [Store.enter_single single]
    exact ⟨ok.session, .inr ⟨c, _, rfl, listed⟩, fun _ _ none => (nomatch none), unlisted.listed _⟩
  · refine .still fine ?_
    rw [Store.enter_single single]
    exact ok.changed _ stands.symm (.inr ⟨c, _, rfl, listed, kind⟩)

theorem Keeps.forget (found : st.calls.lookup c = some (.forgetting params)) :
    Keeps etcd i (Store.leave { st with catalog := none } c params.buffers params.maxShardSize, etcd) := by
  have single := (ok.single found).1
  have silent : st.advertised = none := by
    unfold Store.advertised
    rw [single]
  refine .still fine ?_
  exact .leave { st with catalog := none } ⟨ok.session, rfl, ok.unlisted fine silent⟩ single _ _

theorem Keeps.remove {b : Nat × Nat} (found : st.calls.lookup c = some (.removing (b :: todo) m))
    (regular : st.session.Regular maxChunkSize (.remove b.1 b.2 m conduct))
    (performed : st.perform (.remove b.1 b.2 m conduct) = some (reply, st')) :
    Keeps etcd i (if reply = .panicked then st'.crash else st'.leave c todo m, etcd) := by
  obtain ⟨single, free⟩ := ok.single found
  obtain ⟨session, rfl, sound, alive⟩ := Store.perform_remove ok.session regular performed
  have unlisted := (ok.hidden fine free single trivial).unlisted
  rw [if_neg alive]
  refine .still fine ?_
  exact .leave { st with session := session } ⟨sound, free, unlisted⟩ single _ _

end

variable {result : Store × Etcd}

theorem Keeps.get {session : Session} {segments : Segments} {read read' : Option Version} {phase : GetPhase}
    {input : GetInput} (ok : StoreOk etcd i st) (fine : etcd.Fine)
    (found : st.calls.lookup c = some (.getting buffers phase read)) (sound : session.Sound maxChunkSize)
    (arrives : ∀ a n g, buffers = [(a, n)] → GetOk etcd i st a n read phase →
      Getting.step segments i [(a, n)] ⟨phase, st.memory⟩ input = some g →
      Arrives etcd i { st with session := session, memory := g.memory } a n read' g.phase)
    (stepped : (Store.getStep segments i { st with session := session } c buffers phase read' input).map (·,
      etcd) = some result) : Keeps etcd i result := by
  obtain ⟨single, free, a, n, rfl, get⟩ := ok.single found
  have unlisted := (ok.hidden fine free single trivial).unlisted
  obtain ⟨_, next, rfl⟩ := map_eq_some_iff.mp stepped
  obtain ⟨g, moved, rfl⟩ := map_eq_some_iff.mp next
  refine .still fine ?_
  have single' : Store.calls { st with session := session, memory := g.memory } =
    [(c, .getting [(a, n)] phase read)] := single
  exact .proceed ⟨sound, free, unlisted⟩ single' (arrives a n g rfl get moved)

theorem Keeps.list {read : Option Version} (ok : StoreOk etcd i st) (fine : etcd.Fine)
    (found : st.calls.lookup c = some (.getting buffers (.updating payload revision) read))
    (orderly : GetPhase.orderly etcd st.session buffers read (.updating payload revision) (.etcd .given) = true)
    (updated : etcd.update payload revision = (true, etcd')) :
    Keeps etcd i (st.enter c (.recording false buffers payload.maxShardSize), etcd') := by
  obtain ⟨single, free, a, n, rfl, v, m, rfl, knows, current, copy, registered⟩ := ok.single found
  have unlisted := (ok.hidden fine free single trivial).unlisted
  have revises : ∀ s, etcd.stored = some s → s.revision = revision → Revises i s.payload payload := fun s stored same =>
    revises_appendReplicas (current.2 s stored same)
  refine ⟨?_, Etcd.fine_update fine revises updated, .inr (Etcd.moves_update revises updated)⟩
  obtain ⟨s, before, same, _, _, stored⟩ := Etcd.update_true updated
  have number : s.version.number = v.number := by
    have meets : v.number = s.version.number := by simpa [GetPhase.orderly, before, same] using orderly
    exact meets.symm
  obtain ⟨version, width, _⟩ := knows.same s before number
  obtain ⟨_, _, _, places⟩ := appendReplicas_spec (current.2 s before same)
  show StoreOk etcd' i (st.enter c _)
  rw [Store.enter_single single]
  refine ⟨ok.session, .inr ⟨c, _, rfl, free⟩, fun isGold buffers stands b member => ?_,
    fun s' at_ k shard' content there here => ?_⟩
  · cases stands
    rw [mem_singleton.mp member]
    exact registered
  · cases Etcd.stored_update_true stored at_
    obtain ⟨shard, old, gold, replicas⟩ := places k shard' there
    refine ⟨fun location member segment => ?_, fun location member segment => ?_⟩
    · exact absurd segment (unlisted s before k shard old location (mem_append_right _ (gold ▸ member)))
    rcases replicas location member with kept | new
    · exact absurd segment (unlisted s before k shard old location (mem_append_left _ kept))
    · obtain ⟨t, tile, rfl⟩ := replicaLocations_single new
      rw [width] at tile
      have content_v : v.contents[k]? = some content := version ▸ here
      have bytes := copy k t content tile content_v
      have length : content.length = t.2 := by rw [← bytes, Extent.length_read]
      have within := (Strides.tile_within knows.positive (mem_of_getElem? tile)).1
      refine ⟨[(a, n)], rfl, (a, n), mem_singleton_self _, Nat.le_add_right _ _, ?_, length ▸ bytes⟩
      show a + t.1 + content.length ≤ a + n
      omega

/-! ## The application -/

theorem StoreOk.write {x : Nat} (ok : StoreOk etcd i st) (free : st.keeps x = false) (byte : UInt8) :
    StoreOk etcd i { st with memory := Function.update st.memory x byte } := by
  have outside : ∀ buffer ∈ (st.catalog.map Params.buffers).getD [] ++ st.calls.flatMap (fun entry => entry.2.buffers),
      ∀ y, buffer.1 ≤ y → y < buffer.1 + buffer.2 → update st.memory x byte y = st.memory y := by
    intro buffer member y low high
    refine update_of_ne (fun same => ?_) _ _
    have none := any_eq_false.mp free buffer member
    simp only [decide_eq_true_eq] at none
    omega
  have stood : ∀ isGold buffers, st.advertised = some (isGold, buffers) → ∀ buffer ∈ buffers,
      buffer ∈ (st.catalog.map Params.buffers).getD [] ++ st.calls.flatMap (fun entry => entry.2.buffers) := by
    intro isGold buffers stands buffer member
    unfold Store.advertised at stands
    split at stands
    next c' _ buffers' m' rest calls =>
      cases stands
      rw [calls, flatMap_cons]
      exact mem_append_right _ (mem_append_left _ member)
    · cases stands
    · obtain ⟨params, entry, same⟩ := map_eq_some_iff.mp stands
      cases same
      rw [entry]
      exact mem_append_left _ member
  refine ⟨ok.session, ok.calls.imp_right ?_, ok.kept, fun s stored k shard content there here => ?_⟩
  · rintro ⟨c, call, single, fine⟩
    refine ⟨c, call, single, ?_⟩
    cases call with
    | getting buffers phase read =>
      obtain ⟨none, a, n, rfl, get⟩ := fine
      refine ⟨none, a, n, rfl, get.write ?_⟩
      have inside : ∀ buffer ∈ CallState.buffers (.getting [(a, n)] phase read), ∀ y, buffer.1 ≤ y →
        y < buffer.1 + buffer.2 →
          update st.memory x byte y = st.memory y := fun buffer member => outside buffer (by
        rw [single, flatMap_cons]
        exact mem_append_right _ (mem_append_left _ member))
      cases phase with
      | abandoned e d => exact .inl ⟨e, d, rfl⟩
      | _ => exact .inr (inside (a, n) mem_cons_self)
    | _ => exact fine
  · have kept : ∀ isGold location, st.Placed isGold location content →
        Store.Placed { st with memory := update st.memory x byte } isGold location content := by
      rintro isGold location ⟨buffers, stands, buffer, member, low, high, bytes⟩
      refine ⟨buffers, stands, buffer, member, low, high, ?_⟩
      refine (Extent.read_congr fun y first last => ?_).trans bytes
      exact outside buffer (stood isGold buffers stands buffer member) y (by omega) (by omega)
    obtain ⟨gold, replicas⟩ := ok.listed s stored k shard content there here
    exact ⟨fun location member segment => kept true location (gold location member segment),
      fun location member segment => kept false location (replicas location member segment)⟩

/-! ## Whole runs -/

namespace World
variable {w w' : World} {event : Event}

theorem Sound.serves (sound : w.Sound) {v : Version} {k : Nat} {location : Location} {content : List UInt8}
    (knows : Knows w.etcd v m n) (listed : w.etcd.lists (some v) k location = true)
    (here : v.contents[k]? = some content) :
    Extent.read (w.segments location.segmentName) location.offset content.length = content := by
  obtain ⟨s, stored, both⟩ := (any_eq_true _ _).mp listed
  obtain ⟨number, place⟩ := (Bool.and_eq_true _ _).mp both
  obtain ⟨shard, there, contains⟩ := (any_eq_true _ _).mp place
  have number' : s.version.number = v.number := by simpa using (of_decide_eq_true number).symm
  obtain ⟨version, _, _⟩ := knows.same s stored number'
  obtain ⟨_, _, _, _, _, _, _, bytes⟩ := (sound.2 location.segmentName).listed.placed stored there (version ▸ here)
    (contains_iff_mem.mp contains) rfl
  exact bytes

theorem Sound.advance {choice : Choice} (sound : w.Sound) (orderly : w.orderly (.advance i c choice) = true)
    (advanced : (w.stores i).advance name w.segments w.etcd i c choice = some result) : Keeps w.etcd i result := by
  have ok := sound.2 i
  have fine := sound.1
  unfold Store.advance at advanced
  split at advanced
  next buffers b todo m force conduct found =>
    simp only [World.orderly, found, decide_eq_true_eq] at orderly
    obtain ⟨⟨reply, st'⟩, performed, rfl⟩ := map_eq_some_iff.mp advanced
    exact .register_add ok fine found orderly performed
  next buffers m force answer found =>
    simp only [World.orderly, found, ne_eq, decide_not, Bool.not_eq_true', decide_eq_false_iff_not] at orderly
    cases advanced
    have failed : Keeps w.etcd i ((w.stores i).leave c buffers m, w.etcd) := by
      obtain ⟨single, free, _⟩ := ok.single found
      exact .still fine (.leave _ (ok.hidden fine free single trivial) single _ _)
    cases answer with
    | lost => exact absurd rfl orderly
    | failed => split <;> first | contradiction | exact failed
    | given =>
      cases force with
      | true => exact .publish ok found
      | false =>
        simp only [Etcd.create, Bool.false_eq_true, if_false]
        by_cases there : w.etcd.stored.isSome = true
        · rw [if_pos there]
          exact failed
        · rw [if_neg there]
          exact .publish ok found
  next isGold buffers m found =>
    cases advanced
    exact .record ok fine found
  next removal params answer found =>
    cases advanced
    exact .read ok fine found
  next removal params payload revision answer found =>
    cases advanced
    exact .write ok fine found
  next params found =>
    cases advanced
    exact .forget ok fine found
  next b todo m conduct found =>
    simp only [World.orderly, found, decide_eq_true_eq] at orderly
    obtain ⟨⟨reply, st'⟩, performed, rfl⟩ := map_eq_some_iff.mp advanced
    exact .remove ok fine found orderly performed
  next buffers payload revision read answer found =>
    simp only [World.orderly, found] at orderly
    split at advanced
    · exact .get ok fine found ok.session (fun a n g _ get moved => get.not_updated moved) advanced
    · simp [GetPhase.orderly] at orderly
    next etcd' updated =>
      cases advanced
      exact .list ok fine found orderly updated
    · exact .get ok fine found ok.session (fun a n g _ get moved => get.not_updated moved) advanced
  next buffers phase read answer _ found =>
    simp only [World.orderly, found] at orderly
    exact .get ok fine found ok.session (fun a n g same get moved => get.got fine (same ▸ orderly) moved) advanced
  next buffers payload revision d read conduct found =>
    simp only [World.orderly, found, GetPhase.orderly] at orderly
    split at advanced
    · cases advanced
    next addr size rest next_ =>
      simp only [next_, decide_eq_true_eq] at orderly
      obtain ⟨⟨reply, st'⟩, performed, continued⟩ := bind_eq_some_iff.mp advanced
      obtain ⟨session, rfl, after, alive, _, new⟩ := Store.perform_add ok.session orderly performed
      have added : ∀ (err : Option Err), (err = none → reply = .ok) → ∀ a n g, buffers = [(a, n)] →
          GetOk w.etcd i (w.stores i) a n read (.downloading payload revision d) →
          Getting.step w.segments i [(a, n)] ⟨.downloading payload revision d, (w.stores i).memory⟩ (.added err) = some g →
          Arrives w.etcd i { w.stores i with session := session, memory := g.memory } a n read g.phase := by
        intro err clean a n g _ get moved
        have first : (addr, size) = (a, n) := by
          obtain ⟨_, _, _, _, _, _, copying, _⟩ := get
          exact (copying.first next_).1
        exact get.added (fun ok => first ▸ new (clean ok)) moved
      cases reply with
      | ok => exact .get ok fine found after (added none fun _ => rfl) continued
      | error e => exact .get ok fine found after (added (some e) (fun none => by cases none)) continued
      | panicked => exact absurd rfl alive
  next buffers phase read k random attempts found =>
    simp only [World.orderly, found] at orderly
    refine .get ok fine found ok.session (fun a n g same get moved => ?_) advanced
    refine get.transferred (same ▸ orderly) (fun v m location content version knows listed here => ?_) moved
    rw [version] at listed
    exact sound.serves knows listed here
  next buffers phase read k found =>
    exact .get ok fine found ok.session (fun a n g _ get moved => get.checked moved) advanced
  next buffers phase read found =>
    exact .get ok fine found ok.session (fun a n g _ get moved => get.waited moved) advanced
  · cases advanced

theorem Sound.act (sound : w.Sound) (orderly : w.orderly event = true)
    (acted : w.act name event = some result) : Keeps w.etcd event.owner result := by
  have fine := sound.1
  cases event with
  | register i c addrList sizeList m force =>
    have ok := sound.2 i
    have idle : (w.stores i).calls = [] := List.isEmpty_iff.mp orderly
    simp only [act] at acted
    split at acted
    · cases acted
      exact .still fine ok
    next valid =>
      cases acted
      simp only [not_or, ne_eq, Decidable.not_not, not_isSome_iff_eq_none] at valid
      obtain ⟨same, some, free⟩ := valid
      refine .still fine ?_
      rw [Store.begin_idle idle]
      refine .busy (ok.hidden_idle fine free idle) rfl trivial ⟨free, ?_, [], rfl, ?_, ?_⟩
      · intro none
        have length := congrArg length none
        rw [length_zip, ← same, Nat.min_self] at length
        exact some length
      · exact fun _ member => by cases member
      · exact fun none => absurd rfl none
  | getReplica i c addrList sizeList =>
    have ok := sound.2 i
    obtain ⟨empty, one⟩ := (Bool.and_eq_true _ _).mp orderly
    have idle : (w.stores i).calls = [] := List.isEmpty_iff.mp empty
    simp only [act] at acted
    split at acted
    next begun =>
      cases acted
      unfold GetPhase.start at begun
      split at begun
      · cases begun
      next valid =>
        split at begun
        · cases begun
        next uncontained =>
          simp only [not_or, ne_eq, Decidable.not_not] at valid
          have free : (w.stores i).catalog = none := by simpa using uncontained
          have length : addrList.length = 1 := by
            have most := of_decide_eq_true one
            omega
          obtain ⟨a, rfl⟩ := length_eq_one_iff.mp length
          obtain ⟨n, rfl⟩ := length_eq_one_iff.mp (valid.1 ▸ length)
          refine .still fine ?_
          rw [Store.begin_idle idle]
          exact .busy (ok.hidden_idle fine free idle) rfl trivial ⟨free, a, n, rfl, trivial⟩
    · cases acted
      exact .still fine ok
  | remove i c removal =>
    have ok := sound.2 i
    obtain ⟨empty, kind⟩ := (Bool.and_eq_true _ _).mp orderly
    have idle : (w.stores i).calls = [] := List.isEmpty_iff.mp empty
    simp only [act] at acted
    split at acted
    · cases acted
      exact .still fine ok
    next params entry =>
      cases acted
      have gold : params.isGold = removal.isGold := by
        rw [entry, all_some] at kind
        rw [beq_iff_eq.mp kind]
        cases removal <;> rfl
      refine .still fine ?_
      rw [Store.begin_idle idle]
      exact ok.changed _ (by simp only [Store.advertised, idle]) (.inr ⟨c, _, rfl, entry, gold⟩)
  | advance i c choice => exact sound.advance orderly acted
  | write i x byte =>
    simp only [act] at acted
    split at acted
    · cases acted
    next free =>
      cases acted
      exact .still fine ((sound.2 i).write (Bool.not_eq_true _ ▸ free) byte)

theorem Sound.step (sound : w.Sound) (orderly : w.orderly event = true)
    (stepped : step name w event = some w') : w'.Sound := by
  unfold World.step at stepped
  split at stepped
  · obtain ⟨⟨st', etcd'⟩, acted, rfl⟩ := map_eq_some_iff.mp stepped
    obtain ⟨ok, fine, moves⟩ := sound.act orderly acted
    refine ⟨fine, fun j => ?_⟩
    show StoreOk etcd' j (update w.stores event.owner st' j)
    rw [update_apply]
    split
    next same => exact same ▸ ok
    next other =>
      rcases moves with unchanged | moves
      · cases unchanged
        exact sound.2 j
      · exact (sound.2 j).moves other moves
  · cases stepped

theorem Sound.start (memories : String → Memory) : (start memories).Sound := by
  have empty : ∀ i, Unlisted (World.start memories).etcd i := fun _ _ none => (nomatch none)
  exact ⟨fun _ none => (nomatch none), fun i => .idle ⟨.start _, rfl, empty i⟩ rfl⟩

def registers (c : Nat) : List Event :=
  [.register "a" c [0] [4] 4 false, .advance "a" c (.memory (Session.obedient [0])), .advance "a" c (.etcd .given),
    .advance "a" c .catalog]

def unregisters (c : Nat) : List Event :=
  [.remove "a" c .unregister, .advance "a" c (.etcd .given), .advance "a" c (.etcd .given), .advance "a" c .catalog,
    .advance "a" c (.memory (Session.obedient []))]

def downloads : List Event :=
  [.getReplica "r" 0 [100] [4], .advance "r" 0 (.etcd .given), .advance "r" 0 (.memory (Session.obedient [0])),
    .advance "r" 0 (.transfer 0 0 fun _ => .completed), .advance "r" 0 (.check 0), .advance "r" 0 .wait]

def etcdRounds (k : Nat) : List Event := List.replicate k (.advance "r" 0 (.etcd .given))

def inOrder : List Event := registers 0 ++ downloads ++ etcdRounds 2 ++ [.advance "r" 0 .catalog] ++ unregisters 1

/-- The bytes are given up, changed and registered anew while the other store is between its download and its
update. The check finds all the old places again, and the update goes to the new registration at the second
attempt. -/
def overtaken : List Event :=
  registers 0 ++ downloads ++ unregisters 1 ++ [.write "a" 0 2] ++ registers 2 ++ etcdRounds 4

end World

end Mooncake.P2PStore
