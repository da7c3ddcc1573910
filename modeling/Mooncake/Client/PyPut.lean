import Mooncake.Client.Store

/-! The puts of the Python client. Each returns early or makes one call of the client, at which
its memory is as given. The batch puts collect their slices by key before the call. -/
namespace Mooncake.Client

open List
open Master (ErrorCode ReplicateConfig kMaxSliceSize)

structure PyPut (ρ : Type) where
  result : ρ
  call : Option PutCall
  memory : Nat → UInt8

section
variable (c : Context) (config : ReplicateConfig)

def PyPut.store {ρ : Type} (p : PyPut ρ) (s : Store) : Store :=
  match p.call with
  | none => s
  | some call => call.store c config p.memory s

def PyPut.Smooth {ρ : Type} (p : PyPut ρ) (s : Store) : Prop := ∀ call, p.call = some call → call.Smooth c config s

def callPut (key : String) (slices : List Slice) (m : Nat → UInt8) : PyPut (Except ErrorCode Unit) :=
  ⟨(put c key slices config).results.headD (.error .internalError), some (.put key slices), m⟩

def putInternal (allocate : Nat → Option BufferHandle) (m : Nat → UInt8) (key : String) (value : List UInt8) :
    PyPut (Except ErrorCode Unit) :=
  if config.preferAllocInSameNode then ⟨.error .invalidParams, none, m⟩
  else
    match allocate value.length with
    | none => ⟨.error .invalidParams, none, m⟩
    | some handle => callPut c config key (splitIntoSlices handle) (Extent.write m handle.ptr value)

def putFromInternal (m : Nat → UInt8) (key : String) (buffer size : Nat) : PyPut (Except ErrorCode Unit) :=
  if config.preferAllocInSameNode then ⟨.error .invalidParams, none, m⟩
  else if size = 0 then ⟨.ok (), none, m⟩
  else callPut c config key (bufferSlices buffer size) m

/-- The loop of `put_batch_internal`, which gives up at the first buffer that it does not get. -/
def putBatchLoop (allocate : Nat → Nat → Option BufferHandle) : Nat → List (String × List UInt8) → (Nat → UInt8) →
    Table String (List Slice) → Option ((Nat → UInt8) × Table String (List Slice))
  | _, [], m, batchedSlices => some (m, batchedSlices)
  | i, (key, value) :: rest, m, batchedSlices =>
    match allocate i value.length with
    | none => none
    | some handle =>
      putBatchLoop allocate (i + 1) rest (Extent.write m handle.ptr value)
        (batchedSlices.emplace key (splitIntoSlices handle))

def orderedSlices (slices : Table String (List Slice)) (keys : List String) : Option (List (List Slice)) :=
  keys.mapM slices.lookup

def putBatchInternal (allocate : Nat → Nat → Option BufferHandle) (m : Nat → UInt8) (keys : List String)
    (values : List (List UInt8)) : PyPut (Except ErrorCode Unit) :=
  if config.preferAllocInSameNode then ⟨.error .invalidParams, none, m⟩
  else if keys.length ≠ values.length then ⟨.error .invalidParams, none, m⟩
  else
    match putBatchLoop allocate 0 (keys.zip values) m ∅ with
    | none => ⟨.error .invalidParams, none, m⟩
    | some (m', batchedSlices) =>
      match orderedSlices batchedSlices keys with
      | none => ⟨.error .invalidParams, none, m'⟩
      | some ordered =>
        ⟨((batchPut c keys ordered config).results.find? (fun r => !r.isOk)).getD (.ok ()),
          some (.batchPut keys ordered), m'⟩

def batchPutFromInternal (m : Nat → UInt8) (keys : List String) (buffers sizes : List Nat) :
    PyPut (List (Except ErrorCode Unit)) :=
  if config.preferAllocInSameNode then ⟨keys.map (fun _ => .error .invalidParams), none, m⟩
  else if keys.length ≠ buffers.length ∨ keys.length ≠ sizes.length then
    ⟨keys.map (fun _ => .error .invalidParams), none, m⟩
  else
    match orderedSlices (Table.assign (keys.zip (buffers.zipWith bufferSlices sizes))) keys with
    | none => ⟨keys.map (fun _ => .error .invalidParams), none, m⟩
    | some ordered => ⟨(batchPut c keys ordered config).results, some (.batchPut keys ordered), m⟩

end

/-! What the puts are for. -/

variable (config : ReplicateConfig)

def StorableKey (key : String) : Prop :=
  config.preferAllocInSameNode = false ∧ config.replicaNum ≠ 0 ∧ key ≠ ""

def Storable (p : String × List UInt8) : Prop := StorableKey config p.1 ∧ p.2 ≠ []

instance (config : ReplicateConfig) (key : String) : Decidable (StorableKey config key) :=
  inferInstanceAs (Decidable (_ ∧ _))

instance (config : ReplicateConfig) (p : String × List UInt8) : Decidable (Storable config p) :=
  inferInstanceAs (Decidable (_ ∧ _))

/-- A put finds the object existing, or stores its value. -/
def Store.put (s : Store) (p : String × List UInt8) : Store :=
  if Storable config p then FirstWins.add s p else s

variable (pairs : List (String × List UInt8))

theorem foldl_put (s : Store) :
    pairs.foldl (Store.put config) s = (pairs.filter (fun p => Storable config p)).foldl FirstWins.add s := by
  rw [foldl_filter]
  simp only [decide_eq_true_eq]
  rfl

def Allocates (allocate : Nat → Option BufferHandle) : Prop :=
  allocate 0 = none ∧ ∀ size, size ≠ 0 → ∃ handle, allocate size = some handle ∧ handle.size = size

structure Room (allocate : Nat → Nat → Option BufferHandle) (values : List (List UInt8)) : Prop where
  allocates : ∀ i, Allocates (allocate i)
  apart : ∀ (i j : Nat) v w h h', i < j → values[i]? = some v → values[j]? = some w → allocate i v.length = some h →
    allocate j w.length = some h' → Extent.Apart (h.ptr, h.size) (h'.ptr, h'.size)

def firstValue (key : String) : List UInt8 :=
  ((pairs.filter (fun p => p.2 ≠ [])).lookup key).getD []

def lastValue (key : String) : List UInt8 := (pairs.reverse.lookup key).getD []

def someBytes (value : List UInt8) : Option (List UInt8) := if value = [] then none else some value

theorem someBytes_inj {v w : List UInt8} : someBytes v = someBytes w ↔ v = w := by
  unfold someBytes
  by_cases first : v = [] <;> by_cases second : w = [] <;> simp [first, second, eq_comm]

theorem firstValue_cons (p : String × List UInt8) (rest : List (String × List UInt8)) (key : String) :
    firstValue (p :: rest) key = if key = p.1 ∧ p.2 ≠ [] then p.2 else firstValue rest key := by
  obtain ⟨k, value⟩ := p
  unfold firstValue
  by_cases empty : value = []
  · simp [empty]
  · by_cases same : key = k
    · simp [empty, same]
    · simp [empty, same, lookup_cons, beq_eq_false_iff_ne.mpr same]

theorem lookup_filter_storable (key : String) : (pairs.filter (fun p => Storable config p)).lookup key =
      if StorableKey config key then someBytes (firstValue pairs key) else none := by
  induction pairs with
  | nil => simp [firstValue, someBytes]
  | cons p rest ih =>
    obtain ⟨k, value⟩ := p
    rw [firstValue_cons, filter_cons]
    by_cases found : key = k ∧ value ≠ []
    · obtain ⟨rfl, some_bytes⟩ := found
      by_cases storable : StorableKey config key
      · simp [Storable, storable, some_bytes, someBytes]
      · rw [if_neg (by simp [Storable, storable]), ih, if_neg storable, if_neg storable]
    · rw [if_neg found, ← ih]
      split
      next storable =>
        have other : key ≠ k := fun same => found ⟨same, (of_decide_eq_true storable).2⟩
        rw [lookup_cons, beq_eq_false_iff_ne.mpr other]
      next => rfl

/-- Puts, one after the other, store the first value of each key that has none. -/
theorem foldl_put_apply (s : Store) (key : String) :
    pairs.foldl (Store.put config) s key =
      (s key).or (if StorableKey config key then someBytes (firstValue pairs key) else none) := by
  rw [foldl_put, FirstWins.foldl_add, lookup_filter_storable]

theorem foldl_put_eq_iff {config : ReplicateConfig} {pairs others : List (String × List UInt8)} {s : Store} :
    pairs.foldl (Store.put config) s = others.foldl (Store.put config) s ↔
      ∀ key, s key = none → StorableKey config key → firstValue pairs key = firstValue others key := by
  constructor
  · intro same key missing storable
    have at_key := congrFun same key
    rw [foldl_put_apply, foldl_put_apply, missing, if_pos storable, if_pos storable] at at_key
    exact someBytes_inj.mp at_key
  · intro same
    funext key
    rw [foldl_put_apply, foldl_put_apply]
    cases found : s key with
    | some v => rfl
    | none =>
      split
      next storable => rw [same key found storable]
      next => rfl

variable {value : String → List UInt8}

theorem firstValue_uniform {keys : List String} {key : String}
    (outside : key ∉ keys → value key = []) : firstValue (keys.map (fun k => (k, value k))) key = value key := by
  induction keys with
  | nil => exact (outside not_mem_nil).symm
  | cons k rest ih =>
    rw [map_cons, firstValue_cons]
    split
    next found => rw [found.1]
    next other =>
      refine ih fun absent => ?_
      by_contra some_bytes
      have different : key ≠ k := fun same => other ⟨same, same ▸ some_bytes⟩
      exact some_bytes (outside (by simp [different, absent]))

section
variable {c : Context} {config : ReplicateConfig} {s : Store}

theorem write_bufferSlices (plain : config.preferAllocInSameNode = false) (m : Nat → UInt8) (key : String)
    (buffer size : Nat) :
    Store.write config m s (key, bufferSlices buffer size) = Store.put config s (key, Extent.read m buffer size) := by
  have some_bytes : Extent.read m buffer size ≠ [] ↔ (bufferSlices buffer size).map (·.size) ≠ [] := by
    rw [ne_eq, ne_eq, map_eq_nil_iff, bufferSlices_eq_nil, ← length_eq_zero_iff, Extent.length_read]
  have same : Accepts config key ((bufferSlices buffer size).map (·.size)) ↔
      Storable config (key, Extent.read m buffer size) := by
    simp only [Accepts, Storable, StorableKey, plain, true_and, some_bytes, and_assoc]
  unfold Store.write Store.put
  simp only [same, gather_bufferSlices]

variable {m : Nat → UInt8} {allocate : Nat → Nat → Option BufferHandle} {keys : List String}
    {pairs : List (String × List UInt8)} {key : String}

theorem callPut_store (plain : config.preferAllocInSameNode = false) {buffer size : Nat}
    (smooth : (callPut c config key (bufferSlices buffer size) m).Smooth c config s) :
    (callPut c config key (bufferSlices buffer size) m).store c config s =
      Store.put config s (key, Extent.read m buffer size) := by
  have call := smooth _ rfl
  have stored := call.store_eq trivial plain m (fun p member => by
    cases mem_singleton.mp member
    exact bufferSlices_small buffer size)
  rw [← write_bufferSlices plain]
  exact stored

theorem put_empty (config : ReplicateConfig) (s : Store) (key : String) : Store.put config s (key, []) = s :=
  if_neg (fun storable => storable.2 rfl)

theorem put_refused (prefers : config.preferAllocInSameNode = true) (s : Store) (p : String × List UInt8) :
    Store.put config s p = s := by
  refine if_neg (fun storable => ?_)
  have plain := storable.1.1
  rw [prefers] at plain
  cases plain

theorem putInternal_store {allocate : Nat → Option BufferHandle} {value : List UInt8} (allocates : Allocates allocate)
    (smooth : (putInternal c config allocate m key value).Smooth c config s) :
    (putInternal c config allocate m key value).store c config s = Store.put config s (key, value) := by
  unfold putInternal at smooth ⊢
  cases prefers : config.preferAllocInSameNode with
  | true =>
    rw [put_refused prefers]
    rfl
  | false =>
    simp only [prefers, Bool.false_eq_true, if_false] at smooth ⊢
    by_cases empty : value = []
    · subst empty
      simp only [length_nil, allocates.1]
      rw [put_empty]
      rfl
    · obtain ⟨handle, allocated, size⟩ := allocates.2 value.length (by simpa using empty)
      simp only [allocated, splitIntoSlices] at smooth ⊢
      rw [callPut_store prefers smooth, size, Extent.read_write]

theorem putFromInternal_store {buffer size : Nat}
    (smooth : (putFromInternal c config m key buffer size).Smooth c config s) :
    (putFromInternal c config m key buffer size).store c config s =
      Store.put config s (key, Extent.read m buffer size) := by
  unfold putFromInternal at smooth ⊢
  cases prefers : config.preferAllocInSameNode with
  | true =>
    rw [put_refused prefers]
    rfl
  | false =>
    simp only [prefers, Bool.false_eq_true, if_false] at smooth ⊢
    by_cases empty : size = 0
    · subst empty
      rw [Extent.read_zero, put_empty]
      rfl
    · rw [if_neg empty] at smooth ⊢
      exact callPut_store prefers smooth

/-! The batch calls. -/

theorem orderedSlices_eq {slices : Table String (List Slice)} {f : String → List Slice}
    (found : ∀ key ∈ keys, slices.lookup key = some (f key)) : orderedSlices slices keys = some (keys.map f) := by
  unfold orderedSlices
  induction keys with
  | nil => rfl
  | cons key rest ih =>
    have later := ih (fun k member => found k (mem_cons_of_mem _ member))
    simp [found key mem_cons_self, later]

theorem batchPut_store (plain : config.preferAllocInSameNode = false) {slices : String → List Slice}
    (smooth : (PutCall.batchPut keys (keys.map slices)).Smooth c config s)
    (cut : ∀ key ∈ keys, ∃ buffer size, slices key = bufferSlices buffer size ∧
      Extent.read m buffer size = value key) :
    (PutCall.batchPut keys (keys.map slices)).store c config m s =
      (keys.map (fun key => (key, value key))).foldl (Store.put config) s := by
  have asked : (PutCall.batchPut keys (keys.map slices)).asked = keys.map (fun key => (key, slices key)) :=
    ext_getElem (by simp [PutCall.asked, PutCall.keys, PutCall.sources])
      (fun i _ _ => by simp [PutCall.asked, PutCall.keys, PutCall.sources])
  have small : ∀ p ∈ (PutCall.batchPut keys (keys.map slices)).asked, ∀ slice ∈ p.2, slice.size ≤ kMaxSliceSize := by
    rw [asked]
    intro p member
    obtain ⟨key, listed, rfl⟩ := mem_map.mp member
    obtain ⟨buffer, size, same, -⟩ := cut key listed
    simp only [same]
    exact bufferSlices_small buffer size
  rw [smooth.store_eq (length_map _) plain m small, asked, foldl_map, foldl_map]
  refine foldl_ext _ _ _ (fun s key listed => ?_)
  obtain ⟨buffer, size, same, bytes⟩ := cut key listed
  rw [same, write_bufferSlices plain, bytes]

theorem lookup_map_values {κ ν μ : Type} [DecidableEq κ] (f : ν → μ) (es : List (κ × ν)) (k : κ) :
    (es.map (fun e => (e.1, f e.2))).lookup k = (es.lookup k).map f := by
  induction es with
  | nil => rfl
  | cons e es ih =>
    rw [map_cons, lookup_cons, lookup_cons, ih]
    cases k == e.1
    · rfl
    · rfl

theorem lookup_isSome_of_mem {κ ν : Type} [DecidableEq κ] {es : List (κ × ν)} {k : κ} (member : k ∈ es.map Prod.fst) :
    ∃ v, es.lookup k = some v := by
  rw [← Option.isSome_iff_exists, Option.isSome_iff_ne_none, ne_eq, lookup_eq_none_iff]
  intro absent
  obtain ⟨e, listed, rfl⟩ := mem_map.mp member
  simpa using absent e listed

/-- The slices are collected by key: each key of the call is stored with the value that its slices have. -/
theorem ordered_store {β : Type} (plain : config.preferAllocInSameNode = false) (keys : List String)
    (table : Table String (List Slice)) (es : List (String × β)) (slices : β → List Slice) (value : β → List UInt8)
    (listed : ∀ key ∈ keys, key ∈ es.map Prod.fst) (collected : ∀ key, table.lookup key = (es.lookup key).map slices)
    (cut : ∀ e ∈ es, ∃ buffer size, slices e.2 = bufferSlices buffer size ∧ Extent.read m buffer size = value e.2) :
    ∃ ordered, orderedSlices table keys = some ordered ∧ ((PutCall.batchPut keys ordered).Smooth c config s →
      (PutCall.batchPut keys ordered).store c config m s =
        (keys.map (fun key => (key, ((es.lookup key).map value).getD []))).foldl (Store.put config) s) := by
  refine ⟨_, orderedSlices_eq (f := fun key => ((es.lookup key).map slices).getD []) (fun key member => ?_),
    fun smooth => batchPut_store plain smooth (fun key member => ?_)⟩
  · obtain ⟨b, found⟩ := lookup_isSome_of_mem (listed key member)
    rw [collected, found]
    rfl
  · obtain ⟨b, found⟩ := lookup_isSome_of_mem (listed key member)
    obtain ⟨before, after, split, -⟩ := lookup_eq_some_iff.mp found
    have inside : (key, b) ∈ es := split ▸ mem_append.mpr (.inr mem_cons_self)
    rw [found]
    exact cut _ inside

theorem batchPutFrom_store {buffers sizes : List Nat} (sameBuffers : keys.length = buffers.length)
    (sameSizes : keys.length = sizes.length) (plain : config.preferAllocInSameNode = false)
    (smooth : (batchPutFromInternal c config m keys buffers sizes).Smooth c config s) :
    (batchPutFromInternal c config m keys buffers sizes).store c config s =
      (keys.map (fun key => (key, lastValue (keys.zip (buffers.zipWith (Extent.read m) sizes)) key))).foldl
        (Store.put config) s := by
  have zipped {γ : Type} (f : Nat → Nat → γ) : (keys.zip (buffers.zipWith f sizes)).reverse =
      (keys.zip (buffers.zip sizes)).reverse.map (fun e => (e.1, f e.2.1 e.2.2)) := by
    rw [map_reverse]
    exact congrArg reverse (ext_getElem (by simp) (fun i _ _ => by simp))
  have puts := ordered_store (c := c) (s := s) plain keys
    (Table.assign (keys.zip (buffers.zipWith bufferSlices sizes))) (keys.zip (buffers.zip sizes)).reverse
    (fun b => bufferSlices b.1 b.2) (fun b => Extent.read m b.1 b.2) (fun key member => ?_) (fun key => ?_)
    (fun e _ => ⟨e.2.1, e.2.2, rfl, rfl⟩)
  · obtain ⟨ordered, collected, stored⟩ := puts
    unfold batchPutFromInternal at smooth ⊢
    simp only [plain, Bool.false_eq_true, if_false, ← sameBuffers, ← sameSizes, ne_eq, not_true_eq_false, or_self,
      collected] at smooth ⊢
    refine (stored (smooth _ rfl)).trans ?_
    simp only [lastValue, zipped, lookup_map_values (fun b : Nat × Nat => Extent.read m b.1 b.2)]
  · rw [map_reverse, map_fst_zip (by rw [length_zip]; omega)]
    exact mem_reverse.mpr member
  · rw [Table.lookup_assign_reverse, zipped]
    exact lookup_map_values (fun b : Nat × Nat => bufferSlices b.1 b.2) _ key

/-- One empty value and nothing is stored: no buffer is handed out for it. -/
theorem putBatchLoop_none (none_for : ∀ i, allocate i 0 = none) (empty : ∃ p ∈ pairs, p.2 = []) (i : Nat)
    (m : Nat → UInt8) (t : Table String (List Slice)) : putBatchLoop allocate i pairs m t = none := by
  induction pairs generalizing i m t with
  | nil =>
    obtain ⟨p, member, -⟩ := empty
    cases member
  | cons p rest ih =>
    obtain ⟨key, value⟩ := p
    unfold putBatchLoop
    split
    next => rfl
    next handle allocated =>
      obtain ⟨p, member, nothing⟩ := empty
      rcases mem_cons.mp member with rfl | later
      · simp only at nothing
        rw [nothing, length_nil, none_for] at allocated
        cases allocated
      · exact ih ⟨p, later, nothing⟩ _ _ _

/-- Otherwise every value is copied to its buffer, and a key has the slices of its first one. -/
theorem putBatchLoop_some (allocates : ∀ i, Allocates (allocate i)) (full : ∀ p ∈ pairs, p.2 ≠ []) (i : Nat)
    (m : Nat → UInt8) (t : Table String (List Slice)) :
    ∃ ts : List (String × List UInt8 × BufferHandle), ts.map (fun e => (e.1, e.2.1)) = pairs ∧
      (∀ (j : Nat) e, ts[j]? = some e → allocate (i + j) e.2.1.length = some e.2.2 ∧ e.2.2.size = e.2.1.length) ∧
      putBatchLoop allocate i pairs m t = some (Extent.writes m (ts.map (fun e => (e.2.2.ptr, e.2.1))),
        (ts.map (fun e => (e.1, splitIntoSlices e.2.2))).foldl (fun t e => t.emplace e.1 e.2) t) := by
  induction pairs generalizing i m t with
  | nil => exact ⟨[], rfl, nofun, rfl⟩
  | cons p rest ih =>
    obtain ⟨key, value⟩ := p
    obtain ⟨handle, allocated, size⟩ := (allocates i).2 value.length (by simpa using full _ mem_cons_self)
    obtain ⟨ts, same, given, looped⟩ := ih (fun p later => full p (mem_cons_of_mem _ later)) (i + 1)
      (Extent.write m handle.ptr value) (t.emplace key (splitIntoSlices handle))
    refine ⟨(key, value, handle) :: ts, by rw [map_cons, same], fun j e at_j => ?_, ?_⟩
    · cases j with
      | zero =>
        cases at_j
        exact ⟨allocated, size⟩
      | succ j =>
        rw [Nat.add_comm j, ← Nat.add_assoc]
        exact given j e at_j
    · simp only [putBatchLoop, allocated]
      exact looped

theorem putBatch_store {values : List (List UInt8)} (same : keys.length = values.length) (room : Room allocate values)
    (full : ∀ value ∈ values, value ≠ []) (plain : config.preferAllocInSameNode = false)
    (smooth : (putBatchInternal c config allocate m keys values).Smooth c config s) :
    (putBatchInternal c config allocate m keys values).store c config s =
      (keys.map (fun key => (key, firstValue (keys.zip values) key))).foldl (Store.put config) s := by
  have filled : ∀ p ∈ keys.zip values, p.2 ≠ [] := fun p member => full p.2 (of_mem_zip member).2
  obtain ⟨ts, pairs, given, looped⟩ := putBatchLoop_some room.allocates filled 0 m ∅
  have placed : ∀ (i : Nat) e, ts[i]? = some e →
      values[i]? = some e.2.1 ∧ allocate i e.2.1.length = some e.2.2 ∧ e.2.2.size = e.2.1.length := by
    intro i e at_i
    have zipped : (keys.zip values)[i]? = some (e.1, e.2.1) := by
      rw [← pairs, getElem?_map, at_i]
      rfl
    exact ⟨(getElem?_zip_eq_some.mp zipped).2, Nat.zero_add i ▸ given i e at_i⟩
  -- Buffers that are held at the same time keep what was copied to them.
  have apart : (ts.map (fun e => (e.2.2.ptr, e.2.1))).Pairwise
      (fun v w => Extent.Apart (v.1, v.2.length) (w.1, w.2.length)) := by
    rw [pairwise_map, pairwise_iff_getElem]
    intro i j iIn jIn before
    obtain ⟨valueAt, allocated, size⟩ := placed i _ (getElem?_eq_getElem iIn)
    obtain ⟨valueAt', allocated', size'⟩ := placed j _ (getElem?_eq_getElem jIn)
    have separate := room.apart i j _ _ _ _ before valueAt valueAt' allocated allocated'
    rwa [size, size'] at separate
  have puts := ordered_store (c := c) (s := s)
    (m := Extent.writes m (ts.map (fun e => (e.2.2.ptr, e.2.1)))) plain keys
    ((ts.map (fun e => (e.1, splitIntoSlices e.2.2))).foldl (fun t e => t.emplace e.1 e.2) ∅) ts
    (fun b => splitIntoSlices b.2) (·.1) (fun key member => ?_) (fun key => ?_) (fun e member => ⟨_, _, rfl, ?_⟩)
  · obtain ⟨ordered, collected, stored⟩ := puts
    unfold putBatchInternal at smooth ⊢
    simp only [plain, Bool.false_eq_true, if_false, if_neg (not_not.mpr same), looped, collected] at smooth ⊢
    refine (stored (smooth _ rfl)).trans ?_
    have all : (keys.zip values).filter (fun p => p.2 ≠ []) = keys.zip values :=
      filter_eq_self.mpr (fun p member => by simpa using filled p member)
    simp only [firstValue, all]
    simp only [← pairs, lookup_map_values (fun b : List UInt8 × BufferHandle => b.1)]
  · have listed : ts.map Prod.fst = keys := by
      rw [← map_fst_zip (Nat.le_of_eq same), ← pairs, map_map]
      rfl
    rwa [listed]
  · rw [Table.lookup_foldl_emplace, AList.lookup_empty, Option.none_or,
      lookup_map_values (fun b : List UInt8 × BufferHandle => splitIntoSlices b.2)]
  · obtain ⟨i, at_i⟩ := mem_iff_getElem?.mp member
    rw [(placed i e at_i).2.2]
    exact Extent.read_writes apart (mem_map.mpr ⟨e, member, rfl⟩)

end

end Mooncake.Client
