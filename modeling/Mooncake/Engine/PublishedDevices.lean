import Mooncake.Engine.DeviceIndex

/-! What a node that reads the descriptor of a segment selects from it, in terms of the devices of the node that
published it. -/
namespace Mooncake.Engine
open Engine.Topology Option List

/-! ## The publishing node -/

namespace Topology

variable (m : Matrix)

def hcas : List String := m.entries.flatMap (fun e => e.2.hcas)

theorem mentions_hca : (mentions m).map Mention.hca = hcas m := by
  rw [mentions, map_flatMap]
  congr 1
  funext e
  rw [map_append, List.map_map, List.map_map]
  exact congrArg₂ (· ++ ·) (map_id _) (map_id _)

theorem hcaList_eq : (resolve m).hcaList = (hcas m).eraseDups := by
  rw [(resolve_spec m).list, mentions_hca]

theorem eraseDups_filter (p : String → Bool) (l : List String) : (l.filter p).eraseDups = l.eraseDups.filter p := by
  induction l using reverseRecOn with
  | nil => rfl
  | append_singleton l a ih =>
    rw [filter_append, eraseDups_concat]
    cases kept : p a with
    | false => by_cases member : a ∈ l <;> simp [member, kept, ih]
    | true => by_cases member : a ∈ l <;> simp [member, kept, ih, eraseDups_concat]

theorem nodup_eraseDups (l : List String) : l.eraseDups.Nodup := by
  induction l using reverseRecOn with
  | nil => exact nodup_nil
  | append_singleton l a ih =>
    rw [eraseDups_concat]
    split
    · exact ih
    next new =>
      exact nodup_append.mpr
        ⟨ih, nodup_singleton a, by simpa [mem_eraseDups] using fun b member => ne_of_mem_of_not_mem member new⟩

theorem nodup_hcaList : (resolve m).hcaList.Nodup := hcaList_eq m ▸ nodup_eraseDups _

theorem mem_hcaList {m : Matrix} {hca : String} : hca ∈ (resolve m).hcaList ↔ hca ∈ hcas m := by
  rw [hcaList_eq, mem_eraseDups]

def Distinct : Prop := ∀ e ∈ m.entries, e.2.preferredHca.Nodup ∧ e.2.availHca.Nodup

theorem Distinct.disableDevice {m : Matrix} (distinct : Distinct m) (device : String) :
    Distinct (disableDevice m device) := by
  intro e member
  obtain ⟨e', inside, rfl⟩ := mem_map.mp member
  exact ⟨(distinct e' inside).1.erase device, (distinct e' inside).2.erase device⟩

theorem Distinct.hcas_disableDevice {m : Matrix} (distinct : Distinct m) (device : String) :
    hcas (Topology.disableDevice m device) = (hcas m).filter (· != device) := by
  unfold hcas Topology.disableDevice Table.mapValues
  rw [filter_flatMap, flatMap_map]
  refine flatMap_congr fun e member => ?_
  change e.2.preferredHca.erase device ++ e.2.availHca.erase device =
    (e.2.preferredHca ++ e.2.availHca).filter (· != device)
  rw [(distinct e member).1.erase_eq_filter, (distinct e member).2.erase_eq_filter, filter_append]

end Topology

section
variable {h : Hardware}

theorem construct_all (devices : List String) : ∀ {m : Matrix} (contexts : List String), Distinct m →
    (devices.foldl h.construct (m, contexts)).2 = contexts ++ devices.filter h.constructs ∧
      hcas (devices.foldl h.construct (m, contexts)).1 =
        (hcas m).filter (fun hca => h.constructs hca || decide (hca ∉ devices)) := by
  induction devices with
  | nil => simp
  | cons device rest ih =>
    intro m contexts distinct
    rw [foldl_cons, Hardware.construct]
    cases opened : h.constructs device with
    | true =>
      obtain ⟨contexts', left⟩ := ih (contexts ++ [device]) distinct
      refine ⟨by simpa [opened] using contexts', left.trans (filter_congr fun hca _ => ?_)⟩
      by_cases same : hca = device
      · simp [same, opened]
      · simp [same]
    | false =>
      obtain ⟨contexts', left⟩ := ih contexts (distinct.disableDevice device)
      refine ⟨by simpa [opened] using contexts', left.trans ?_⟩
      rw [distinct.hcas_disableDevice, List.filter_filter]
      refine filter_congr fun hca _ => ?_
      by_cases same : hca = device
      · simp [same, opened]
      · simp [same]

/-- The contexts stand in the order of the numbers of the matrix that is published. -/
theorem initializeRdmaResources_contexts {m m' : Matrix} {contexts : List String} (distinct : Distinct m)
    (ready : initializeRdmaResources h m = some (m', contexts)) : contexts = (resolve m').hcaList := by
  obtain ⟨opened, left⟩ := construct_all (h := h) (resolve m).hcaList [] distinct
  unfold initializeRdmaResources at ready
  simp only at ready
  split at ready
  · cases ready
  · simp only [some.inj ready, nil_append] at opened left
    have same : hcas m' = (hcas m).filter h.constructs := by
      refine left.trans (filter_congr fun hca member => ?_)
      simp [hcaList_eq, member]
    calc contexts
      _ = (resolve m).hcaList.filter h.constructs := opened
      _ = ((hcas m).filter h.constructs).eraseDups := by rw [hcaList_eq, eraseDups_filter]
      _ = (resolve m').hcaList := by rw [hcaList_eq, same]

section
variable {name : String} {m : Matrix} {regions : List Region} {seg : SegmentDesc}
  (published : localSegment h name m regions = some seg)
include published

theorem localSegment_devices (distinct : Distinct m) :
    seg.devices.map DeviceDesc.name = (resolve seg.topology).hcaList := by
  obtain ⟨⟨m', contexts⟩, ready, rfl⟩ := map_eq_some_iff.mp published
  rw [← initializeRdmaResources_contexts distinct ready, List.map_map]
  exact map_id _

theorem localSegment_keys (b : BufferDesc) (member : b ∈ seg.buffers) :
    b.rkey = seg.devices.map (fun d => h.rkey d.name b.addr) := by
  obtain ⟨⟨m', contexts⟩, ready, rfl⟩ := map_eq_some_iff.mp published
  obtain ⟨region, -, rfl⟩ := mem_map.mp member
  rw [List.map_map]
  rfl

end

end

/-! ## The descriptor as it is read -/

section
variable {α β : Type}

theorem mapM_map {f : α → β} {g : β → Option α} (back : ∀ x y, g (f x) = some y → y = x) {l l' : List α}
    (read : (l.map f).mapM g = some l') : l' = l := by
  induction l generalizing l' with
  | nil => exact (some.inj read).symm
  | cons x rest ih =>
    rw [map_cons, mapM_cons] at read
    obtain ⟨y, first, later⟩ := bind_eq_some_iff.mp read
    obtain ⟨ys, others, built⟩ := bind_eq_some_iff.mp later
    rw [← some.inj built, back x y first, ih others]

end

theorem decodeDevice_toJson (d d' : DeviceDesc) (read : decodeDevice d.toJson = some d') : d' = d := by
  unfold decodeDevice at read
  simp only at read
  split at read
  · cases read
  · exact (some.inj read).symm

theorem map_asUInt (l : List Nat) : (l.map Json.uint).map Json.asUInt = l := by
  rw [List.map_map]
  exact List.map_id _

theorem map_asString (l : List String) : (l.map Json.string).map Json.asString = l := by
  rw [List.map_map]
  exact map_id _

theorem decodeBuffer_toJson (b b' : BufferDesc) (read : decodeBuffer b.toJson = some b') : b' = b := by
  unfold decodeBuffer at read
  simp only at read
  split at read
  · cases read
  · rw [← some.inj read]
    exact congrArg₂ (BufferDesc.mk b.name b.addr b.length) (map_asUInt b.lkey) (map_asUInt b.rkey)

namespace Topology

theorem parseEntry_toJson (e : TopologyEntry) : parseEntry e.toJson = some e :=
  congrArg some (congrArg₂ TopologyEntry.mk (map_asString e.preferredHca) (map_asString e.availHca))

theorem parseMembers_entries (es : List (Sigma fun _ : String => TopologyEntry)) :
    ∀ m : Matrix, es.keys.Nodup → (∀ e ∈ es, e.1 ∉ m) →
      (parseMembers (es.map (fun e => (e.1, e.2.toJson))) m).entries = es.reverse ++ m.entries := by
  induction es with
  | nil => exact fun _ _ _ => rfl
  | cons e rest ih =>
    intro m distinct new
    rw [keys_cons, nodup_cons] at distinct
    have absent := new e mem_cons_self
    rw [map_cons, parseMembers, parseEntry_toJson]
    simp only
    rw [ih (m.insert e.1 e.2) distinct.2 fun e' member inside => ?_]
    · rw [AList.entries_insert_of_notMem absent, reverse_cons, append_assoc]
      rfl
    · rcases (AList.mem_insert m).mp inside with same | old
      · exact distinct.1 (same ▸ mem_map.mpr ⟨e', member, rfl⟩)
      · exact new e' (mem_cons_of_mem _ member) old

theorem parse_toJson (m : Matrix) : (parse (toJson m)).entries.Perm m.entries := by
  have entries := parseMembers_entries m.entries ∅ m.nodupKeys (fun e _ => AList.notMem_empty e.1)
  refine (Perm.of_eq (entries.trans ?_)).trans (reverse_perm m.entries)
  exact append_nil _

end Topology

/-- The reader gets the arrays as they are, and the matrix in another order. -/
theorem decodeSegmentDesc_encodeSegmentDesc {seg desc : SegmentDesc} {order : List String}
    {distinct : order.Nodup} (all : order.Perm seg.topology.keys)
    (read : decodeSegmentDesc (encodeSegmentDesc seg) order distinct = some desc) :
    desc.devices = seg.devices ∧ desc.buffers = seg.buffers ∧
      ∀ location, desc.topology.lookup location = seg.topology.lookup location := by
  unfold decodeSegmentDesc at read
  split at read
  · obtain ⟨devices, readDevices, later⟩ := bind_eq_some_iff.mp read
    obtain ⟨buffers, readBuffers, rfl⟩ := map_eq_some_iff.mp later
    refine ⟨mapM_map decodeDevice_toJson readDevices, mapM_map decodeBuffer_toJson readBuffers, fun location => ?_⟩
    have same := parse_toJson seg.topology
    exact (Table.lookup_reorder (parse (toJson seg.topology)) distinct (all.trans (same.map Sigma.fst).symm) location).trans
      (AList.perm_lookup same)
  · cases read

/-! ## The reading node -/

variable {offset length retryCount : Nat}

theorem SegmentDesc.selectFrom_cases {matrix : Matrix} {hint : String}
    {random : Nat → Nat × Nat} {buffers : List BufferDesc} {first bufferId deviceId : Nat}
    (selected : selectFrom matrix offset length hint retryCount random first buffers =
      some (bufferId, deviceId)) :
    ∃ i buffer, bufferId = first + i ∧ buffers[i]? = some buffer ∧
      (buffer.addr ≤ offset ∧ offset + length ≤ buffer.addr + buffer.length) ∧
      (Topology.selectDevice matrix buffer.name hint retryCount (random bufferId).1 = some deviceId ∨
        Topology.selectDevice matrix buffer.name hint retryCount (random bufferId).1 = none ∧
          Topology.selectDevice matrix kWildcardLocation hint retryCount (random bufferId).2 = some deviceId) := by
  induction buffers generalizing first with
  | nil => cases selected
  | cons buffer rest ih =>
    unfold selectFrom at selected
    split at selected
    · obtain ⟨i, buffer', place, found, picked⟩ := ih selected
      exact ⟨i + 1, buffer', by omega, found, picked⟩
    next inside =>
      split at selected
      next picked =>
        cases selected
        exact ⟨0, buffer, rfl, rfl, by omega, or_eq_some_iff.mp picked⟩
      · obtain ⟨i, buffer', place, found, picked⟩ := ih selected
        exact ⟨i + 1, buffer', by omega, found, picked⟩

theorem SegmentDesc.selectFrom_alone {matrix : Matrix} {hint : String}
    {random : Nat → Nat × Nat} {buffers : List BufferDesc} {buffer : BufferDesc} {first i : Nat}
    (found : buffers[i]? = some buffer)
    (inside : buffer.addr ≤ offset ∧ offset + length ≤ buffer.addr + buffer.length)
    (alone : ∀ j b, buffers[j]? = some b → b.addr ≤ offset → offset + length ≤ b.addr + b.length → j = i) :
    selectFrom matrix offset length hint retryCount random first buffers =
      ((Topology.selectDevice matrix buffer.name hint retryCount (random (first + i)).1).or
        (Topology.selectDevice matrix kWildcardLocation hint retryCount (random (first + i)).2)).map (first + i, ·) := by
  induction buffers generalizing first i with
  | nil => cases found
  | cons b rest ih =>
    have elsewhere : ∀ {j : Nat} {b' : BufferDesc}, rest[j]? = some b' → b'.addr ≤ offset →
        offset + length ≤ b'.addr + b'.length → j + 1 = i := fun there => alone _ _ there
    unfold selectFrom
    cases i with
    | zero =>
      cases found
      rw [if_neg (by omega)]
      split
      next picked => rw [Nat.add_zero, picked, Option.map_some]
      next nowhere =>
        simp only [Nat.add_zero, nowhere, Option.map_none]
        refine eq_none_iff_forall_ne_some.mpr fun r other => ?_
        obtain ⟨j, b', -, there, range, -⟩ := selectFrom_cases other
        cases elsewhere there range.1 range.2
    | succ i =>
      have outside : ¬ (b.addr ≤ offset ∧ offset + length ≤ b.addr + b.length) :=
        fun range => nomatch alone 0 b rfl range.1 range.2
      rw [if_pos (by omega), ih found fun j b' there low high => Nat.succ.inj (elsewhere there low high)]
      simp only [Nat.add_assoc, Nat.add_comm 1]

namespace Topology

/-- The numbers among which a selection for a location is made; where it lists no device, those of all. -/
def candidates (m : Matrix) (location : String) : List Nat :=
  if ((resolve m).entry location).ids = [] then ((resolve m).entry kWildcardLocation).ids
  else ((resolve m).entry location).ids

variable {m m' : Matrix} {location hint : String} {retryCount random id : Nat}

theorem selectDevice_mem (selected : selectDevice m location hint retryCount random = some id) :
    id ∈ ((resolve m).entry location).ids := by
  obtain ⟨hca, named, listed⟩ := selectDevice_means selected
  obtain ⟨id', member, named'⟩ := exists_id listed
  have same := (List.getElem?_inj (List.getElem?_eq_some_iff.mp named).1 (nodup_hcaList m)).mp (named.trans named'.symm)
  exact same ▸ member

section
variable {wildRandom : Nat}

theorem select_candidate (picked : (selectDevice m location hint retryCount random).or
    (selectDevice m kWildcardLocation hint retryCount wildRandom) = some id) : id ∈ candidates m location := by
  unfold candidates
  rcases or_eq_some_iff.mp picked with here | ⟨nowhere, anywhere⟩
  · have member := selectDevice_mem here
    rwa [if_neg (ne_nil_of_mem member)]
  · rw [if_pos (selectDevice_eq_none nowhere)]
    exact selectDevice_mem anywhere

theorem candidates_eq_nil (none : (selectDevice m location hint retryCount random).or
    (selectDevice m kWildcardLocation hint retryCount wildRandom) = none) : candidates m location = [] := by
  obtain ⟨here, anywhere⟩ := or_eq_none_iff.mp none
  rw [candidates, if_pos (selectDevice_eq_none here), selectDevice_eq_none anywhere]

end

theorem candidates_length (same : ∀ location, m.lookup location = m'.lookup location)
    (member : id ∈ candidates m location) : id < (resolve m').hcaList.length := by
  have means : ∃ location, Means (resolve m).hcaList (mentions m) location id := by
    unfold candidates at member
    split at member <;> exact ⟨_, means_of_mem member⟩
  obtain ⟨-, hca, named, -⟩ := means
  have part : (resolve m).hcaList ⊆ (resolve m').hcaList := by
    intro hca listed
    obtain ⟨e, entry, listed⟩ := mem_flatMap.mp (mem_hcaList.mp listed)
    have entry' := (same e.1).symm.trans (AList.mem_lookup_iff.mpr entry)
    exact mem_hcaList.mpr (mem_flatMap.mpr ⟨e, AList.mem_lookup_iff.mp entry', listed⟩)
  exact Nat.lt_of_lt_of_le (List.getElem?_eq_some_iff.mp named).1 ((nodup_hcaList m).subperm part).length_le

end Topology

def SegmentDesc.Selects (desc : SegmentDesc) (bufferId deviceId : Nat) : Prop :=
  ∃ offset length hint retryCount random, desc.selectDevice offset length hint retryCount random = some (bufferId, deviceId)

def SegmentDesc.Lists (seg : SegmentDesc) (location hca : String) : Prop :=
  ∀ entry, seg.topology.lookup location = some entry → hca ∈ entry.hcas

theorem SegmentDesc.selects_iff {desc : SegmentDesc} {bufferId deviceId : Nat} {buffer : BufferDesc}
    (found : desc.buffers[bufferId]? = some buffer)
    (alone : ∀ i b, desc.buffers[i]? = some b → b.addr ≤ buffer.addr → buffer.addr + buffer.length ≤ b.addr + b.length →
      i = bufferId) : desc.Selects bufferId deviceId ↔ deviceId ∈ candidates desc.topology buffer.name := by
  constructor
  · rintro ⟨offset, length, hint, retryCount, random, selected⟩
    obtain ⟨i, b, place, there, -, picked⟩ := selectFrom_cases selected
    rw [Nat.zero_add] at place
    cases found.symm.trans (place ▸ there)
    exact select_candidate (or_eq_some_iff.mpr picked)
  · intro member
    have picks : ∃ retryCount, (Topology.selectDevice desc.topology buffer.name "" retryCount 0).or
        (Topology.selectDevice desc.topology kWildcardLocation "" retryCount 0) = some deviceId := by
      unfold candidates at member
      split at member
      next none =>
        obtain ⟨i, inside, same⟩ := getElem_of_mem member
        refine ⟨i + 1, or_eq_some_iff.mpr (.inr ⟨eq_none_iff_forall_ne_some.mpr fun id here => ?_, ?_⟩)⟩
        · exact absurd (selectDevice_mem here) (none ▸ not_mem_nil)
        · exact (selectAny_retry inside).trans (List.getElem?_eq_some_iff.mpr ⟨inside, same⟩)
      · obtain ⟨i, inside, same⟩ := getElem_of_mem member
        exact ⟨i + 1, or_eq_some_iff.mpr
          (.inl ((selectAny_retry inside).trans (List.getElem?_eq_some_iff.mpr ⟨inside, same⟩)))⟩
    obtain ⟨retryCount, picked⟩ := picks
    refine ⟨buffer.addr, buffer.length, "", retryCount, fun _ => (0, 0), ?_⟩
    rw [selectDevice, selectFrom_alone found ⟨Nat.le_refl _, Nat.le_refl _⟩ alone, picked, Nat.zero_add]
    rfl

namespace PublishedSample

def matrix : Matrix := ((∅ : Matrix).insert "cpu:1" ⟨["b"], []⟩).insert "cpu:0" ⟨["a"], []⟩

def hardware (constructs : String → Bool) : Hardware :=
  ⟨constructs, fun _ => 1, id, fun _ addr => addr, fun device addr => if device = "a" then addr + 1 else addr + 2⟩

def regions : List Region := [⟨"cpu:0", 4096, 64⟩]

def chosen (h : Hardware) (order : List String) (distinct : order.Nodup) : Option (String × TopologyEntry) := do
  let seg ← localSegment h "node" matrix regions
  let desc ← decodeSegmentDesc (encodeSegmentDesc seg) order distinct
  let (bufferId, deviceId) ← desc.selectDevice 4096 64 "" 0 (fun _ => (0, 0))
  let buffer ← desc.buffers[bufferId]?
  let device ← desc.devices[deviceId]?
  let entry ← seg.topology.lookup buffer.name
  return (device.name, entry)

end PublishedSample

end Mooncake.Engine
