import Mooncake.Engine.Topology

/-! Whether the numbers of the devices mean the same to the node that publishes a segment and to the one that
reads its descriptor. -/
namespace Mooncake.Engine

open Option List AList Function
namespace Topology

/-! ## The numbers that `resolve` gives -/

structure Mention where
  location : String
  preferred : Bool
  hca : String
deriving DecidableEq

def TopologyEntry.hcas (e : TopologyEntry) : List String := e.preferredHca ++ e.availHca

def mentions (m : Matrix) : List Mention :=
  m.entries.flatMap (fun e => e.2.preferredHca.map (⟨e.1, true, ·⟩) ++ e.2.availHca.map (⟨e.1, false, ·⟩))

variable (r : Resolved)

def see (x : Mention) : Resolved :=
  if x.preferred then r.seePreferred x.location x.hca else r.seeAvail x.location x.hca

theorem resolve_eq (m : Matrix) : resolve m = (mentions m).foldl see ⟨[], ∅, ∅⟩ := by
  unfold resolve mentions
  rw [foldl_flatMap]
  congr 1
  funext r e
  rw [foldl_append, foldl_map, foldl_map]
  rfl

def ListedFor (seen : List Mention) (location hca : String) : Prop :=
  (∃ x ∈ seen, x.location = location ∧ x.hca = hca) ∨ location = kWildcardLocation ∧ ∃ x ∈ seen, x.hca = hca

def Means (names : List String) (seen : List Mention) (location : String) (id : Nat) : Prop :=
  ∃ hca, names[id]? = some hca ∧ ListedFor seen location hca

def ResolvedEntry.ids (e : ResolvedEntry) : List Nat := e.preferredHca ++ e.availHca

def Resolved.entry (location : String) : ResolvedEntry := (r.matrix.lookup location).getD .new

structure Adds (r : Resolved) (location hca : String) (id : Nat) (r' : Resolved) : Prop where
  list : r'.hcaList = r.hcaList
  idMap : r'.hcaIdMap = r.hcaIdMap
  other : ∀ location', location' ≠ location → r'.matrix.lookup location' = r.matrix.lookup location'
  ids : (r'.entry location).ids.Perm (id :: (r.entry location).ids)
  hint : ∀ h n, (r'.entry location).getHcaIndex h = some n → h = hca ∧ n = id ∨ (r.entry location).getHcaIndex h = some n
  hinted : ∀ h, h = hca ∨ (r.entry location).getHcaIndex h ≠ none → (r'.entry location).getHcaIndex h ≠ none

theorem adds_addPreferred (location hca : String) (id : Nat) :
    Adds r location hca id (r.addPreferred location hca id) := by
  have here : (r.addPreferred location hca id).entry location = ⟨(r.entry location).preferredHca ++ [id],
      (r.entry location).availHca, (r.entry location).preferredNames.insert hca id, (r.entry location).availNames⟩ := by
    simp only [Resolved.entry, Resolved.addPreferred, lookup_insert, getD_some]
  refine ⟨rfl, rfl, fun _ other => lookup_insert_ne other, ?_, fun h n => ?_, fun h => ?_⟩
  · rw [here]
    simp [ResolvedEntry.ids]
  all_goals grind [ResolvedEntry.getHcaIndex, lookup_insert, lookup_insert_ne, or_eq_some_iff, or_eq_none_iff]

theorem adds_addAvail (location hca : String) (id : Nat) :
    Adds r location hca id (r.addAvail location hca id) := by
  have here : (r.addAvail location hca id).entry location = ⟨(r.entry location).preferredHca,
      (r.entry location).availHca ++ [id], (r.entry location).preferredNames,
      (r.entry location).availNames.insert hca id⟩ := by
    simp only [Resolved.entry, Resolved.addAvail, lookup_insert, getD_some]
  refine ⟨rfl, rfl, fun _ other => lookup_insert_ne other, ?_, fun h n => ?_, fun h => ?_⟩
  · rw [here]
    simp [ResolvedEntry.ids, ← append_assoc]
  all_goals grind [ResolvedEntry.getHcaIndex, lookup_insert, lookup_insert_ne, or_eq_some_iff, or_eq_none_iff]

/-- What has been entered for each location: the numbers stand for these devices, and a hint that is among them
is found. -/
structure Entered (r : Resolved) (devices : String → List String) : Prop where
  ids : ∀ location, ((r.entry location).ids.map (r.hcaList[·]?)).Perm ((devices location).map some)
  hint : ∀ location h n, (r.entry location).getHcaIndex h = some n → r.hcaList[n]? = some h ∧ h ∈ devices location
  hinted : ∀ location, ∀ h ∈ devices location, (r.entry location).getHcaIndex h ≠ none
  present : ∀ location, (r.entry location).ids = [] → r.matrix.lookup location = none

section
variable {r r' : Resolved} {devices : String → List String} {location hca : String} {id : Nat}
variable (entered : Entered r devices)
include entered

theorem Entered.add (named : r.hcaList[id]? = some hca) (adds : Adds r location hca id r') :
    Entered r' (update devices location (hca :: devices location)) := by
  have apart : ∀ location', location' ≠ location → r'.entry location' = r.entry location' := by
    intro location' other
    rw [Resolved.entry, adds.other location' other, Resolved.entry]
  refine ⟨fun location' => ?_, fun location' h n index => ?_, fun location' h member => ?_, fun location' none => ?_⟩
  all_goals by_cases here : location' = location
  · subst here
    rw [update_self, adds.list, map_cons, ← named]
    exact (adds.ids.map _).trans ((entered.ids location').cons _)
  · rw [update_of_ne here, apart location' here, adds.list]
    exact entered.ids location'
  · subst here
    rw [adds.list, update_self]
    rcases adds.hint h n index with ⟨rfl, rfl⟩ | old
    · exact ⟨named, mem_cons_self⟩
    · exact (entered.hint location' h n old).imp_right (mem_cons_of_mem _)
  · rw [apart location' here] at index
    rw [adds.list, update_of_ne here]
    exact entered.hint location' h n index
  · subst here
    rw [update_self] at member
    exact adds.hinted h ((mem_cons.mp member).imp_right (entered.hinted location' h))
  · rw [update_of_ne here] at member
    rw [apart location' here]
    exact entered.hinted location' h member
  · subst here
    cases (none ▸ adds.ids).symm.eq_nil
  · rw [apart location' here] at none
    rw [adds.other location' here]
    exact entered.present location' none

/-- A device that is met for the first time does not change what the numbers so far stand for. -/
theorem Entered.extend (hca : String) (ids : Table String Nat) :
    Entered { r with hcaList := r.hcaList ++ [hca], hcaIdMap := ids } devices := by
  have still : ∀ {n : Nat} {h : String}, r.hcaList[n]? = some h → (r.hcaList ++ [hca])[n]? = some h :=
    fun named => (List.getElem?_append_left (List.getElem?_eq_some_iff.mp named).1).trans named
  refine ⟨fun location => ?_, fun location h n index => (entered.hint location h n index).imp_left still,
    entered.hinted, entered.present⟩
  have same : (r.entry location).ids.map ((r.hcaList ++ [hca])[·]?) = (r.entry location).ids.map (r.hcaList[·]?) := by
    refine map_congr_left fun n member => ?_
    obtain ⟨h, -, named⟩ := mem_map.mp ((entered.ids location).subset (mem_map_of_mem member))
    exact (still named.symm).trans named
  exact same ▸ entered.ids location

theorem Entered.congr {devices' : String → List String}
    (same : ∀ location, (devices location).Perm (devices' location)) : Entered r devices' :=
  ⟨fun location => (entered.ids location).trans ((same location).map _),
    fun location h n index => (entered.hint location h n index).imp_right (same location).mem_iff.mp,
    fun location h member => entered.hinted location h ((same location).mem_iff.mpr member), entered.present⟩

end

def entries (seen : List Mention) (names : List String) (location : String) : List String :=
  (seen.filter (·.location = location)).map Mention.hca ++ if location = kWildcardLocation then names else []

structure Numbered (seen : List Mention) (r : Resolved) : Prop where
  list : r.hcaList = (seen.map Mention.hca).eraseDups
  ids : ∀ (hca : String) (id : Nat), r.hcaIdMap.lookup hca = some id →
    r.hcaList[id]? = some hca ∧ hca ∈ seen.map Mention.hca
  unknown : ∀ hca, r.hcaIdMap.lookup hca = none → hca ∉ seen.map Mention.hca
  entered : Entered r (entries seen r.hcaList)

theorem eraseDups_concat (l : List String) (a : String) :
    (l ++ [a]).eraseDups = if a ∈ l then l.eraseDups else l.eraseDups ++ [a] := by
  rw [eraseDups_append]
  by_cases member : a ∈ l
  · simp [removeAll, member]
  · simp [removeAll, member, eraseDups_cons]

section
variable {seen : List Mention} {r : Resolved}

/-- The next device has its number before it is entered for its location. -/
theorem Numbered.number (numbered : Numbered seen r) (hca : String) :
    ∃ r' id, r.number hca = (r', id) ∧ r'.hcaList = (seen.map Mention.hca ++ [hca]).eraseDups ∧
      (∀ h n, r'.hcaIdMap.lookup h = some n → r'.hcaList[n]? = some h ∧ h ∈ seen.map Mention.hca ++ [hca]) ∧
      (∀ h, r'.hcaIdMap.lookup h = none → h ∉ seen.map Mention.hca ++ [hca]) ∧
      Entered r' (entries seen r'.hcaList) ∧ r'.hcaList[id]? = some hca := by
  have list := eraseDups_concat (seen.map Mention.hca) hca
  rw [← numbered.list] at list
  unfold Resolved.number
  cases found : r.hcaIdMap.lookup hca with
  | some id =>
    obtain ⟨named, met⟩ := numbered.ids hca id found
    rw [if_pos met] at list
    refine ⟨r, id, rfl, list.symm, fun h n known => ?_, fun h unknown => ?_, numbered.entered, named⟩
    · exact (numbered.ids h n known).imp_right (mem_append_left _)
    · have old := numbered.unknown h unknown
      grind
  | none =>
    rw [if_neg (numbered.unknown hca found)] at list
    have last : (r.hcaList ++ [hca])[r.hcaList.length]? = some hca := List.getElem?_concat_length
    have entered := (numbered.entered.extend hca (r.hcaIdMap.insert hca r.hcaList.length)).add last
      (adds_addPreferred _ kWildcardLocation hca r.hcaList.length)
    refine ⟨_, _, rfl, list.symm, fun h n known => ?_, fun h unknown => ?_, entered.congr fun location => ?_, last⟩
    · rcases Table.lookup_insert_eq_some.mp known with ⟨rfl, rfl⟩ | ⟨-, before⟩
      · exact ⟨last, by simp⟩
      · obtain ⟨named, met⟩ := numbered.ids h n before
        exact ⟨(List.getElem?_append_left (List.getElem?_eq_some_iff.mp named).1).trans named, mem_append_left _ met⟩
    · have different : h ≠ hca := by
        rintro rfl
        cases (lookup_insert r.hcaIdMap).symm.trans unknown
      have old := numbered.unknown h ((lookup_insert_ne different).symm.trans unknown)
      grind
    · by_cases wildcard : location = kWildcardLocation
      · subst wildcard
        simp only [update_self, entries, if_pos]
        exact perm_append_singleton .. |>.symm.trans (by rw [append_assoc]; rfl)
      · simp only [update_of_ne wildcard, entries, if_neg wildcard]
        rfl

theorem Numbered.see (numbered : Numbered seen r) (x : Mention) : Numbered (seen ++ [x]) (see r x) := by
  obtain ⟨r', id, number, list, ids, unknown, entered, named⟩ := numbered.number x.hca
  have adds : Adds r' x.location x.hca id (Topology.see r x) := by
    unfold Topology.see Resolved.seePreferred Resolved.seeAvail
    rw [number]
    split
    · exact adds_addPreferred ..
    · exact adds_addAvail ..
  have met : (seen ++ [x]).map Mention.hca = seen.map Mention.hca ++ [x.hca] := by rw [map_append]; rfl
  refine ⟨by rw [adds.list, list, met], ?_, ?_, (entered.add named adds).congr fun location => ?_⟩
  · rw [adds.list, adds.idMap, met]
    exact ids
  · rw [adds.idMap, met]
    exact unknown
  · rw [adds.list]
    by_cases here : location = x.location
    · subst here
      simp only [update_self, entries, filter_append, map_append, append_assoc]
      simpa using perm_middle.symm
    · simp [entries, filter_append, update_of_ne here, Ne.symm here]

end

theorem resolve_spec (m : Matrix) : Numbered (mentions m) (resolve m) := by
  have start : Numbered [] ⟨[], ∅, ∅⟩ := by
    refine ⟨rfl, fun _ _ known => ?_, fun _ _ => not_mem_nil, fun location => ?_, fun _ _ _ known => ?_,
      fun _ => ?_, fun _ _ => rfl⟩
    · cases known
    · simp [Resolved.entry, ResolvedEntry.ids, ResolvedEntry.new, entries]
    · cases known
    · simp [entries]
  have all : ∀ (L seen : List Mention) (r : Resolved), Numbered seen r → Numbered (seen ++ L) (L.foldl see r) := by
    intro L
    induction L with
    | nil => intro seen r numbered; rwa [append_nil]
    | cons x rest ih =>
      intro seen r numbered
      rw [append_cons]
      exact ih _ _ (numbered.see x)
  rw [resolve_eq]
  exact all (mentions m) [] _ start

/-! ## What is selected -/

section
variable {m : Matrix} {location hint hca : String} {retryCount random id : Nat}

theorem mem_entries : hca ∈ entries (mentions m) (resolve m).hcaList location ↔ ListedFor (mentions m) location hca := by
  rw [(resolve_spec m).list, entries, ListedFor, mem_append]
  refine or_congr (by simp [and_assoc]) ?_
  split
  next wildcard => simp [wildcard]
  next special => simp [special]

theorem means_of_mem (member : id ∈ ((resolve m).entry location).ids) :
    Means (resolve m).hcaList (mentions m) location id := by
  obtain ⟨hca, listed, named⟩ := List.mem_map.mp (((resolve_spec m).entered.ids location).subset (mem_map_of_mem member))
  exact ⟨hca, named.symm, mem_entries.mp listed⟩

theorem exists_id (listed : ListedFor (mentions m) location hca) :
    ∃ id ∈ ((resolve m).entry location).ids, (resolve m).hcaList[id]? = some hca :=
  List.mem_map.mp (((resolve_spec m).entered.ids location).symm.subset (mem_map_of_mem (mem_entries.mpr listed)))

theorem selectAny_mem (selected : selectAny m location retryCount random = some id) :
    id ∈ ((resolve m).entry location).ids := by
  obtain ⟨entry, found, picked⟩ := bind_eq_some_iff.mp selected
  rw [Resolved.entry, found, getD_some, ResolvedEntry.ids, mem_append]
  split at picked
  · split at picked
    · exact .inr (mem_of_getElem? picked)
    · exact .inl (mem_of_getElem? picked)
  · simp only at picked
    split at picked
    · exact .inl (mem_of_getElem? picked)
    · exact .inr (mem_of_getElem? picked)

/-- The retries go through the numbers in their order. -/
theorem selectAny_retry {i : Nat} (inside : i < ((resolve m).entry location).ids.length) :
    selectAny m location (i + 1) random = ((resolve m).entry location).ids[i]? := by
  cases found : (resolve m).matrix.lookup location with
  | none =>
    rw [Resolved.entry, found] at inside
    cases inside
  | some entry =>
    simp only [Resolved.entry, found, getD_some, ResolvedEntry.ids, length_append] at inside ⊢
    rw [selectAny, found, bind_some, if_neg (Nat.succ_ne_zero i), Nat.add_sub_cancel, Nat.mod_eq_of_lt inside,
      getElem?_append]

theorem selectAny_eq_none (none : selectAny m location retryCount random = none) :
    ((resolve m).entry location).ids = [] := by
  cases found : (resolve m).matrix.lookup location with
  | none => rw [Resolved.entry, found]; rfl
  | some entry =>
    by_contra some_device
    have positive := length_pos_iff.mpr some_device
    simp only [Resolved.entry, found, getD_some, ResolvedEntry.ids, length_append] at positive
    simp only [selectAny, found, bind_some] at none
    split at none
    · split at none
      next empty =>
        rw [List.isEmpty_iff.mp empty, length_nil, Nat.zero_add] at positive
        have inside := Nat.mod_lt random positive
        rw [List.getElem?_eq_none_iff] at none
        omega
      next some_preferred =>
        have inside := Nat.mod_lt random (length_pos_iff.mpr (fun empty => some_preferred (List.isEmpty_iff.mpr empty)))
        rw [List.getElem?_eq_none_iff] at none
        omega
    · have inside := Nat.mod_lt (retryCount - 1) positive
      split at none <;> rw [List.getElem?_eq_none_iff] at none <;> omega

theorem selectDevice_eq_none (none : selectDevice m location hint retryCount random = none) :
    ((resolve m).entry location).ids = [] := by
  unfold selectDevice at none
  split at none
  · exact selectAny_eq_none none
  · cases found : (resolve m).matrix.lookup location with
    | none => rw [Resolved.entry, found]; rfl
    | some entry =>
      rw [found, bind_some] at none
      exact selectAny_eq_none (or_eq_none_iff.mp none).2

theorem selectDevice_means (selected : selectDevice m location hint retryCount random = some id) :
    Means (resolve m).hcaList (mentions m) location id := by
  unfold selectDevice at selected
  split at selected
  · exact means_of_mem (selectAny_mem selected)
  · obtain ⟨entry, found, picked⟩ := bind_eq_some_iff.mp selected
    rcases or_eq_some_iff.mp picked with hinted | ⟨-, any⟩
    · have index : ((resolve m).entry location).getHcaIndex hint = some id := by rwa [Resolved.entry, found]
      obtain ⟨named, listed⟩ := (resolve_spec m).entered.hint location hint id index
      exact ⟨hint, named, mem_entries.mp listed⟩
    · exact means_of_mem (selectAny_mem any)

end

end Topology
end Mooncake.Engine
