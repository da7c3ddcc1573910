import Mooncake.Engine.PublishedDevices

/-! What `selectDevice` chooses after some devices have been disabled. -/
namespace Mooncake.Engine.Topology
open Option List

def disableAll (m : Matrix) (disabled : List String) : Matrix := disabled.foldl disableDevice m

/-- The list of the devices is that of the matrix without those that were disabled. A selection is a listed
device that is not disabled, and the hint if that is listed; it fails only if there is none, and the retries go
through all. -/
structure ResolvesExactly (m : Matrix) (disabled : List String) : Prop where
  distinct : (resolve (disableAll m disabled)).hcaList.Nodup
  devices : ∀ hca, hca ∈ (resolve (disableAll m disabled)).hcaList ↔ hca ∈ hcas m ∧ hca ∉ disabled
  selected : ∀ location hint retryCount random id,
    selectDevice (disableAll m disabled) location hint retryCount random = some id →
    ∃ hca, (resolve (disableAll m disabled)).hcaList[id]? = some hca ∧ ListedFor (mentions m) location hca ∧
      hca ∉ disabled ∧
      (ListedFor (mentions (disableAll m disabled)) location hint → hca = hint)
  fails : ∀ location hint retryCount random, selectDevice (disableAll m disabled) location hint retryCount random = none →
    ∀ hca, ListedFor (mentions m) location hca → hca ∈ disabled
  retried : ∀ location random hca, ListedFor (mentions (disableAll m disabled)) location hca →
    ∃ retryCount id, 1 ≤ retryCount ∧
      retryCount ≤ (entries (mentions (disableAll m disabled)) (resolve (disableAll m disabled)).hcaList location).length ∧
      selectAny (disableAll m disabled) location retryCount random = some id ∧
      (resolve (disableAll m disabled)).hcaList[id]? = some hca

section
variable {m : Matrix} {location hint hca : String} {retryCount random id : Nat} {disabled : List String}

theorem ListedFor.mem_hcas (listed : ListedFor (mentions m) location hca) : hca ∈ hcas m := by
  rw [← mentions_hca]
  rcases listed with ⟨x, member, -, rfl⟩ | ⟨-, x, member, rfl⟩ <;> exact mem_map_of_mem member

/-- Each call takes one occurrence of its device out of each list. -/
theorem entries_disableAll (m : Matrix) (disabled : List String) : (disableAll m disabled).entries =
    m.entries.map (fun e => ⟨e.1, e.2.preferredHca.diff disabled, e.2.availHca.diff disabled⟩) := by
  induction disabled generalizing m with
  | nil => simp [disableAll]
  | cons device rest ih =>
    refine (ih (disableDevice m device)).trans ?_
    simp [disableDevice, Table.mapValues, diff_cons]

theorem mentions_disableAll (m : Matrix) (disabled : List String) : mentions (disableAll m disabled) =
    m.entries.flatMap (fun e => (e.2.preferredHca.diff disabled).map (⟨e.1, true, ·⟩) ++
      (e.2.availHca.diff disabled).map (⟨e.1, false, ·⟩)) := by
  rw [mentions, entries_disableAll, flatMap_map]

theorem mem_of_mem_disableAll {x : Mention} (member : x ∈ mentions (disableAll m disabled)) : x ∈ mentions m := by
  rw [mentions_disableAll] at member
  unfold mentions
  simp only [mem_flatMap, mem_append, List.mem_map] at member ⊢
  obtain ⟨e, entry, ⟨hca, listed, same⟩ | ⟨hca, listed, same⟩⟩ := member
  · exact ⟨e, entry, .inl ⟨hca, diff_subset _ _ listed, same⟩⟩
  · exact ⟨e, entry, .inr ⟨hca, diff_subset _ _ listed, same⟩⟩

theorem mem_disableAll {x : Mention} (member : x ∈ mentions m) (enabled : x.hca ∉ disabled) :
    x ∈ mentions (disableAll m disabled) := by
  rw [mentions_disableAll]
  unfold mentions at member
  simp only [mem_flatMap, mem_append, List.mem_map] at member ⊢
  obtain ⟨e, entry, ⟨hca, listed, rfl⟩ | ⟨hca, listed, rfl⟩⟩ := member
  · exact ⟨e, entry, .inl ⟨hca, mem_diff_of_mem listed enabled, rfl⟩⟩
  · exact ⟨e, entry, .inr ⟨hca, mem_diff_of_mem listed enabled, rfl⟩⟩

theorem ListedFor.mono {seen seen' : List Mention} (listed : ListedFor seen location hca)
    (kept : ∀ x ∈ seen, x.hca = hca → x ∈ seen') : ListedFor seen' location hca := by
  rcases listed with ⟨x, member, here, same⟩ | ⟨wildcard, x, member, same⟩
  · exact .inl ⟨x, kept x member same, here, same⟩
  · exact .inr ⟨wildcard, x, kept x member same, same⟩

def Gone (m : Matrix) (disabled : List String) : Prop :=
  ∀ e ∈ m.entries, ∀ hca ∈ disabled,
    e.2.preferredHca.count hca ≤ disabled.count hca ∧ e.2.availHca.count hca ≤ disabled.count hca

theorem gone_iff : Gone m disabled ↔ ∀ hca ∈ hcas (disableAll m disabled), hca ∉ disabled := by
  have left : ∀ (l : List String) hca, hca ∈ l.diff disabled ↔ disabled.count hca < l.count hca := by
    intro l hca
    rw [← count_pos_iff, count_diff]
    omega
  have listed : ∀ hca, hca ∈ hcas (disableAll m disabled) ↔ ∃ e ∈ m.entries,
      disabled.count hca < e.2.preferredHca.count hca ∨ disabled.count hca < e.2.availHca.count hca := by
    intro hca
    simp only [hcas, entries_disableAll, flatMap_map, mem_flatMap, TopologyEntry.hcas, mem_append, left]
  constructor
  · intro gone hca member inside
    obtain ⟨e, entry, more⟩ := (listed hca).mp member
    have enough := gone e entry hca inside
    omega
  · intro all e entry hca inside
    have absent := mt (fun member => all hca ((listed hca).mpr ⟨e, entry, member⟩)) (not_not.mpr inside)
    omega

theorem selectDevice_hint (listed : ListedFor (mentions m) location hint) (given : hint ≠ "")
    (selected : selectDevice m location hint retryCount random = some id) : (resolve m).hcaList[id]? = some hint := by
  have entered := (resolve_spec m).entered
  obtain ⟨n, index⟩ := ne_none_iff_exists'.mp (entered.hinted location hint (mem_entries.mpr listed))
  rw [selectDevice, if_neg given] at selected
  obtain ⟨entry, found, picked⟩ := bind_eq_some_iff.mp selected
  have same : entry.getHcaIndex hint = some n := by rwa [Resolved.entry, found] at index
  rw [same, some_or] at picked
  exact some.inj picked ▸ (entered.hint location hint n index).1

theorem exists_retry (listed : ListedFor (mentions m) location hca) (random : Nat) :
    ∃ retryCount id, 1 ≤ retryCount ∧ retryCount ≤ (entries (mentions m) (resolve m).hcaList location).length ∧
      selectAny m location retryCount random = some id ∧ (resolve m).hcaList[id]? = some hca := by
  obtain ⟨id, member, named⟩ := exists_id listed
  obtain ⟨i, inside, same⟩ := getElem_of_mem member
  have count := ((resolve_spec m).entered.ids location).length_eq
  rw [length_map, length_map] at count
  refine ⟨i + 1, id, by omega, by omega, ?_, named⟩
  rw [selectAny_retry inside, getElem?_eq_getElem inside, same]

end

/-- An empty hint is no hint: where a device without a name is listed beside another, it may get the other. -/
theorem resolves_exactly_iff (m : Matrix) (disabled : List String) :
    ResolvesExactly m disabled ↔
      Gone m disabled ∧ ("" ∈ hcas m → "" ∉ disabled → ∀ hca ∈ hcas m, hca ∉ disabled → hca = "") := by
  have kept : ∀ {location hca}, ListedFor (mentions m) location hca → hca ∉ disabled →
      ListedFor (mentions (disableAll m disabled)) location hca :=
    fun listed enabled => listed.mono fun x member same => mem_disableAll member (same ▸ enabled)
  constructor
  · intro exact_
    refine ⟨gone_iff.mpr fun hca member => ((exact_.devices hca).mp (mem_hcaList.mpr member)).2, ?_⟩
    intro nameless enabled hca listed present
    have here : ∀ {hca}, hca ∈ hcas m → hca ∉ disabled →
        ListedFor (mentions (disableAll m disabled)) kWildcardLocation hca := by
      intro hca listed present
      rw [← mentions_hca] at listed
      obtain ⟨x, member, same⟩ := mem_map.mp listed
      exact kept (.inr ⟨rfl, x, member, same⟩) present
    obtain ⟨retryCount, id, -, -, selected, named⟩ := exact_.retried kWildcardLocation 0 hca (here listed present)
    obtain ⟨hca', named', -, -, hinted⟩ := exact_.selected kWildcardLocation "" retryCount 0 id selected
    exact some.inj (named.symm.trans named') ▸ hinted (here nameless enabled)
  · rintro ⟨gone, names⟩
    have enabled := gone_iff.mp gone
    have back : ∀ {location hca}, ListedFor (mentions (disableAll m disabled)) location hca →
      ListedFor (mentions m) location hca :=
      fun listed => listed.mono fun x member _ => mem_of_mem_disableAll member
    refine ⟨?_, fun hca => ?_, ?_, ?_, fun location random hca listed => exists_retry listed random⟩
    · rw [hcaList_eq]
      exact nodup_eraseDups _
    · rw [mem_hcaList]
      constructor
      · intro member
        refine ⟨?_, enabled hca member⟩
        rw [← mentions_hca] at member ⊢
        obtain ⟨x, inside, rfl⟩ := mem_map.mp member
        exact mem_map_of_mem (mem_of_mem_disableAll inside)
      · rintro ⟨member, present⟩
        rw [← mentions_hca] at member ⊢
        obtain ⟨x, inside, rfl⟩ := mem_map.mp member
        exact mem_map_of_mem (mem_disableAll inside present)
    · intro location hint retryCount random id selected
      obtain ⟨hca, named, listed⟩ := selectDevice_means selected
      refine ⟨hca, named, back listed, enabled hca listed.mem_hcas, fun hinted => ?_⟩
      by_cases given : hint = ""
      · subst given
        exact names (back hinted).mem_hcas (enabled _ hinted.mem_hcas) hca (back listed).mem_hcas
          (enabled hca listed.mem_hcas)
      · exact some.inj (named.symm.trans (selectDevice_hint hinted given selected))
    · intro location hint retryCount random none hca listed
      by_contra present
      obtain ⟨id, member, -⟩ := exists_id (kept listed present)
      rw [selectDevice_eq_none none] at member
      cases member

/-- A device that is listed twice is still there after it has been disabled. -/
theorem disabled_device_listed :
    (resolve (disableAll ((∅ : Matrix).insert "cpu:0" ⟨["a", "a"], []⟩) ["a"])).hcaList = ["a"] ∧
      selectDevice (disableAll ((∅ : Matrix).insert "cpu:0" ⟨["a", "a"], []⟩) ["a"]) "cpu:0" "" 0 0 = some 0 := by
  decide +kernel

end Mooncake.Engine.Topology
