import Mooncake.Storage.Index

/-! `BucketScan` reads the metadata of all buckets page by page. The pages cut the buckets, in the order
of their ids, into runs; what a page holds of a key is what the first of its buckets holds. -/
namespace Mooncake.Storage

open List
open Master (ErrorCode)

abbrev BucketEntry : Type := Sigma fun _ : Int => BucketMetadata

variable (b : Backend)

def Backend.ordered : List BucketEntry := b.buckets.entries.insertionSort (fun e f => e.1 ≤ f.1)

def Backend.lowerBound (bucketId : Int) : List BucketEntry :=
  b.ordered.dropWhile (fun e => e.1 < bucketId)

def emplaceObjects (objects : Table Bytes BucketObjectMetadata) (e : BucketEntry) :
    Table Bytes BucketObjectMetadata :=
  (e.2.objectMetadata.entries.map (fun o => (o.1, o.2))).foldl (fun t o => t.emplace o.1 o.2) objects

structure Page where
  objects : Table Bytes BucketObjectMetadata
  buckets : List Int

/-- The loop of `BucketScan`. In its comparisons the limit is an unsigned word. -/
def bucketScanLoop (limit : Int) : List BucketEntry → Page → Except ErrorCode Int × Page
  | [], page => (.ok 0, page)
  | e :: rest, page =>
    if limit % 2 ^ 64 < e.2.keys.length then (.error .keysUltraBucketLimit, page)
    else if limit % 2 ^ 64 < e.2.keys.length + page.objects.entries.length then (.ok e.1, page)
    else bucketScanLoop limit rest ⟨emplaceObjects page.objects e, page.buckets ++ [e.1]⟩

def bucketScan (bucketId : Int) (page : Page) (limit : Int) : Except ErrorCode Int × Page :=
  bucketScanLoop limit (b.lowerBound bucketId) page

/-- The calls of a reader that starts at an id and goes on from the one returned, each with fresh
containers, until 0 is returned. -/
def scanPages (b : Backend) (limit : Int) : Nat → Int → Option (List Page)
  | 0, _ => none
  | calls + 1, bucketId =>
    match bucketScan b bucketId ⟨∅, []⟩ limit with
    | (.error _, _) => none
    | (.ok next, page) => if next = 0 then some [page] else (scanPages b limit calls next).map (page :: ·)

def Backend.objectOf (id : Int) (key : Bytes) : Option BucketObjectMetadata :=
  (b.buckets.lookup id).bind (fun m => m.objectMetadata.lookup key)

def pageOf (page : Page) (run : List BucketEntry) : Page :=
  ⟨run.foldl emplaceObjects page.objects, page.buckets ++ run.map (·.1)⟩

theorem lookup_pageOf {b : Backend} {run : List BucketEntry} (inside : ∀ e ∈ run, e ∈ b.buckets.entries) (page : Page)
    (key : Bytes) : (pageOf page run).objects.lookup key =
      (page.objects.lookup key).or ((run.map (·.1)).findSome? (fun id => b.objectOf id key)) := by
  induction run generalizing page with
  | nil => exact (Option.or_none).symm
  | cons e run ih =>
    have found : b.buckets.lookup e.1 = some e.2 := AList.mem_lookup_iff.mpr (inside e mem_cons_self)
    have first : (emplaceObjects page.objects e).lookup key = (page.objects.lookup key).or (b.objectOf e.1 key) := by
      simpa [emplaceObjects, Backend.objectOf, found] using
        Table.lookup_foldl_emplace_entries id e.2.objectMetadata page.objects key
    have rest := ih (fun f member => inside f (mem_cons_of_mem _ member)) ⟨emplaceObjects page.objects e, []⟩
    rw [first, Option.or_assoc] at rest
    simp only [pageOf, foldl_cons, map_cons, findSome?_cons] at rest ⊢
    rw [rest]
    cases b.objectOf e.1 key <;> rfl

theorem length_emplaceObjects (objects : Table Bytes BucketObjectMetadata) (e : BucketEntry) :
    (emplaceObjects objects e).entries.length ≤ objects.entries.length + e.2.objectMetadata.entries.length := by
  have each : ∀ (os : List (Bytes × BucketObjectMetadata)) (t : Table Bytes BucketObjectMetadata),
      (os.foldl (fun t o => t.emplace o.1 o.2) t).entries.length ≤ t.entries.length + os.length := by
    intro os
    induction os with
    | nil => exact fun t => Nat.le_refl _
    | cons o os ih =>
      intro t
      have one : (t.emplace o.1 o.2).entries.length ≤ t.entries.length + 1 := by
        unfold Table.emplace
        split
        · exact Nat.le_succ _
        · rw [AList.entries_insert, length_cons]
          exact Nat.succ_le_succ (kerase_sublist _ _).length_le
      have more := ih (t.emplace o.1 o.2)
      rw [foldl_cons, length_cons]
      omega
  simpa [emplaceObjects] using each (e.2.objectMetadata.entries.map (fun o => (o.1, o.2))) objects

theorem ordered_perm : b.ordered.Perm b.buckets.entries := List.perm_insertionSort _ _

theorem ordered_sorted : b.ordered.Pairwise (fun e f => e.1 < f.1) := by
  have distinct : b.ordered.Pairwise (fun e f => e.1 ≠ f.1) :=
    ((ordered_perm b).pairwise_iff (fun ne => Ne.symm ne)).mpr (nodupKeys_iff_pairwise.mp b.buckets.nodupKeys)
  have sorted : b.ordered.Pairwise (fun e f => e.1 ≤ f.1) := pairwise_insertionSort _ _
  exact sorted.imp₂ (fun _ _ le ne => lt_of_le_of_ne le ne) distinct

variable {before rest : List BucketEntry}

theorem lowerBound_suffix {b : Backend}
    {e : BucketEntry} (split : b.ordered = before ++ e :: rest) : b.lowerBound e.1 = e :: rest := by
  have sorted := ordered_sorted b
  rw [split, pairwise_append] at sorted
  rw [Backend.lowerBound, split, dropWhile_append_of_pos, dropWhile_cons_of_neg]
  · simp
  · intro f member
    exact decide_eq_true (sorted.2.2 f member e mem_cons_self)

section Scan
variable {b : Backend} {limit : Int} (low : 0 ≤ limit) (word : limit < 2 ^ 63)
include low word

/-- One call takes a run of buckets and returns the id of the next one. A call with fresh containers
takes at least one. -/
theorem bucketScanLoop_takes {rest : List BucketEntry} (enough : ∀ e ∈ rest, (e.2.keys.length : Int) ≤ limit)
    (made : ∀ e ∈ rest, e.2.objectMetadata.entries.length ≤ e.2.keys.length) (page : Page)
    (small : (page.objects.entries.length : Int) ≤ limit) :
    ∃ run later, rest = run ++ later ∧ bucketScanLoop limit rest page =
        (.ok ((later.head?.map (·.1)).getD 0), pageOf page run) ∧
      ((pageOf page run).objects.entries.length : Int) ≤ limit ∧
      (page.objects.entries = [] → later.length < rest.length ∨ rest = []) := by
  have same : limit % 2 ^ 64 = limit := Int.emod_eq_of_lt low (by omega)
  induction rest generalizing page with
  | nil => exact ⟨[], [], rfl, by simp [bucketScanLoop, pageOf], by simpa [pageOf] using small, fun _ => .inr rfl⟩
  | cons e rest ih =>
    have here := enough e mem_cons_self
    rw [bucketScanLoop, same, if_neg (by omega)]
    split
    · rename_i full
      refine ⟨[], e :: rest, rfl, by simp [pageOf], by simpa [pageOf] using small, fun fresh => ?_⟩
      rw [fresh] at full
      simp only [length_nil] at full
      omega
    · rename_i fits
      have grown := length_emplaceObjects page.objects e
      have listed := made e mem_cons_self
      obtain ⟨run, later, rfl, result, bounded, -⟩ := ih (fun f member => enough f (mem_cons_of_mem _ member))
        (fun f member => made f (mem_cons_of_mem _ member)) ⟨emplaceObjects page.objects e, page.buckets ++ [e.1]⟩
        (by simp only; omega)
      have joined : pageOf ⟨emplaceObjects page.objects e, page.buckets ++ [e.1]⟩ run = pageOf page (e :: run) := by
        simp [pageOf]
      rw [joined] at result bounded
      refine ⟨e :: run, later, rfl, result, bounded, fun _ => .inl ?_⟩
      simp only [length_cons, length_append]
      omega

/-- The pages from an id on cut the buckets from there on. -/
theorem scanPages_runs (positive : ∀ e ∈ b.ordered, 0 < e.1)
    (enough : ∀ e ∈ b.ordered, (e.2.keys.length : Int) ≤ limit)
    (made : ∀ e ∈ b.ordered, e.2.objectMetadata.entries.length ≤ e.2.keys.length) {calls : Nat} {bucketId : Int}
    (split : b.ordered = before ++ rest) (start : b.lowerBound bucketId = rest)
    (many : rest.length < calls) :
    ∃ runs : List (List BucketEntry), scanPages b limit calls bucketId = some (runs.map (pageOf ⟨∅, []⟩)) ∧
      runs.flatten = rest ∧
      ∀ run ∈ runs, ((pageOf ⟨∅, []⟩ run).objects.entries.length : Int) ≤ limit := by
  induction calls generalizing bucketId before rest with
  | zero => omega
  | succ calls ih =>
    have inside : ∀ e ∈ rest, e ∈ b.ordered := fun e member => by rw [split]; exact mem_append_right _ member
    obtain ⟨run, later, rfl, result, bounded, moved⟩ := bucketScanLoop_takes low word
      (fun e member => enough e (inside e member)) (fun e member => made e (inside e member)) ⟨∅, []⟩ (by simpa using low)
    simp only [scanPages, bucketScan, start, result]
    cases later with
    | nil =>
      exact ⟨[run], by simp, by simp, forall_mem_singleton.mpr bounded⟩
    | cons e later =>
      have next : e.1 ≠ 0 := by
        have above := positive e (inside e (by simp))
        omega
      have onward : b.ordered = (before ++ run) ++ e :: later := by rw [split, append_assoc]
      have shorter : (e :: later).length < calls := by
        rcases moved rfl with less | empty
        · omega
        · simp at empty
      obtain ⟨runs, pages, cut, all⟩ := ih onward (lowerBound_suffix onward) shorter
      exact ⟨run :: runs, by simp [next, pages], by rw [flatten_cons, cut], forall_mem_cons.mpr ⟨bounded, all⟩⟩

end Scan

/-- Reading page by page comes to an end, visits every bucket once in the order of the ids, and gives
of each key what the first bucket of a page has. Where no key is in two buckets this is all there is. -/
theorem scanPages_complete (b : Backend) (limit : Int) (low : 0 ≤ limit) (word : limit < 2 ^ 63)
    (positive : ∀ e ∈ b.buckets.entries, 0 < e.1) (enough : ∀ e ∈ b.buckets.entries, (e.2.keys.length : Int) ≤ limit)
    (made : ∀ e ∈ b.buckets.entries, e.2.objectMetadata.entries.length ≤ e.2.keys.length) :
    ∃ pages, scanPages b limit (b.buckets.entries.length + 1) 0 = some pages ∧
      (pages.flatMap Page.buckets).Pairwise (· < ·) ∧
      (∀ id, id ∈ pages.flatMap Page.buckets ↔ id ∈ b.buckets) ∧
      (∀ page ∈ pages, (page.objects.entries.length : Int) ≤ limit) ∧
      (∀ page ∈ pages, ∀ key, page.objects.lookup key = page.buckets.findSome? (fun id => b.objectOf id key)) ∧
      (b.Separate → ∀ key o, (∃ page ∈ pages, page.objects.lookup key = some o) ↔ ∃ id, b.objectOf id key = some o) := by
  have same : ∀ e, e ∈ b.ordered ↔ e ∈ b.buckets.entries := fun e => (ordered_perm b).mem_iff
  have start : b.lowerBound 0 = b.ordered := by
    unfold Backend.lowerBound
    cases list : b.ordered with
    | nil => rfl
    | cons e rest =>
      have above := positive e ((same e).mp (by rw [list]; exact mem_cons_self))
      exact dropWhile_cons_of_neg (by simp only [decide_eq_true_eq]; omega)
  have whole : b.ordered = [] ++ b.ordered := rfl
  obtain ⟨runs, pages, cut, bounded⟩ := scanPages_runs low word (fun e member => positive e ((same e).mp member))
    (fun e member => enough e ((same e).mp member)) (fun e member => made e ((same e).mp member))
    whole start (Nat.lt_succ_of_le (Nat.le_of_eq (ordered_perm b).length_eq))
  have visited : (runs.map (pageOf ⟨∅, []⟩)).flatMap Page.buckets = b.ordered.map (·.1) := by
    rw [← cut, map_flatten, flatMap_map, flatMap_def]
    simp only [pageOf, nil_append]
  have inside : ∀ run ∈ runs, ∀ e ∈ run, e ∈ b.buckets.entries := by
    intro run member e mem
    rw [← same, ← cut]
    exact mem_flatten.mpr ⟨run, member, mem⟩
  have listed : ∀ id, id ∈ b.ordered.map (·.1) ↔ id ∈ b.buckets := by
    intro id
    rw [AList.mem_keys, AList.keys, keys]
    exact ((ordered_perm b).map _).mem_iff
  have held : ∀ run ∈ runs, ∀ key, (pageOf ⟨∅, []⟩ run).objects.lookup key =
      (pageOf ⟨∅, []⟩ run).buckets.findSome? (fun id => b.objectOf id key) := by
    intro run member key
    rw [lookup_pageOf (inside run member)]
    rfl
  refine ⟨_, pages, ?_, fun id => by rw [visited, listed], forall_mem_map.mpr bounded, forall_mem_map.mpr held, ?_⟩
  · rw [visited, pairwise_map]
    exact ordered_sorted b
  · intro separate key o
    constructor
    · rintro ⟨page, member, found⟩
      obtain ⟨run, here, rfl⟩ := mem_map.mp member
      rw [held run here key] at found
      obtain ⟨id, -, has⟩ := exists_of_findSome?_eq_some found
      exact ⟨id, has⟩
    · rintro ⟨id, has⟩
      obtain ⟨m, bucket, object⟩ := Option.bind_eq_some_iff.mp has
      have visit : id ∈ (runs.map (pageOf ⟨∅, []⟩)).flatMap Page.buckets := by
        rw [visited, listed, ← AList.lookup_isSome, bucket]
        rfl
      obtain ⟨page, member, on⟩ := mem_flatMap.mp visit
      refine ⟨page, member, ?_⟩
      obtain ⟨run, here, rfl⟩ := mem_map.mp member
      rw [held run here key]
      cases first : (pageOf ⟨∅, []⟩ run).buckets.findSome? (fun id => b.objectOf id key) with
      | none => exact absurd (findSome?_eq_none_iff.mp first id on) (by simp [has])
      | some o' =>
        obtain ⟨id', -, has'⟩ := exists_of_findSome?_eq_some first
        obtain ⟨m', bucket', object'⟩ := Option.bind_eq_some_iff.mp has'
        have one := separate id id' m m' key bucket bucket' (by simp [object]) (by simp [object'])
        subst one
        exact has'.symm.trans has

namespace Sample

def bucketWith (key : Bytes) (o : BucketObjectMetadata) : BucketMetadata :=
  { dataSize := 2, objectMetadata := (∅ : Table Bytes BucketObjectMetadata).insert key o, keys := [key], metaSize := 1 }

def threeBuckets : Backend :=
  { Backend.new with
    buckets := ((∅ : Table Int BucketMetadata).insert 3 (bucketWith [9] ⟨0, 1, 1⟩)).insert 1 (bucketWith [7] ⟨0, 1, 1⟩)
      |>.insert 2 (bucketWith [8] ⟨0, 1, 1⟩) }

def keyTwice : Backend :=
  { Backend.new with
    buckets := ((∅ : Table Int BucketMetadata).insert 1 (bucketWith [7] ⟨0, 1, 1⟩)).insert 2 (bucketWith [7] ⟨0, 1, 2⟩) }

end Sample

open Sample in
theorem scanPages_complete_two_pages :
    ∃ pages, scanPages threeBuckets 2 4 0 = some pages ∧ pages.map Page.buckets = [[1, 2], [3]] ∧
      ∀ page ∈ pages, (page.objects.entries.length : Int) ≤ 2 := by
  obtain ⟨pages, scanned, -, -, bounded, -⟩ := scanPages_complete threeBuckets 2 (by decide) (by decide) (by decide +kernel)
    (by decide +kernel) (by decide +kernel)
  have outcome : (scanPages threeBuckets 2 4 0).map (fun pages => pages.map Page.buckets) = some [[1, 2], [3]] := by
    decide +kernel
  refine ⟨pages, scanned, ?_, bounded⟩
  rw [show scanPages threeBuckets 2 4 0 = some pages from scanned] at outcome
  exact Option.some.inj outcome

open Sample in
/-- A page has one place for a key, so what the second bucket says of it is in no page. -/
theorem repeated_key_once :
    (scanPages keyTwice 10 3 0).map (fun pages => pages.map (fun page => (page.buckets, page.objects.entries))) =
      some [([1, 2], [⟨[7], ⟨0, 1, 1⟩⟩])] ∧
    keyTwice.objectOf 2 [7] = some ⟨0, 1, 2⟩ := by
  decide +kernel

end Mooncake.Storage
