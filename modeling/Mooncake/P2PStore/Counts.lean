import Mathlib.Data.List.Nodup
import Mooncake.P2PStore.RegisteredMemory

/-! The reference counts against the calls that were made, as long as the engine registers and unregisters what
it is asked to and no buffer is removed that has been added twice. -/
namespace Mooncake.P2PStore

open Function Option List RegisteredMemory

/-! ## Chunks of a buffer -/

def Fits (maxChunkSize addr length : Nat) : Prop := 0 < maxChunkSize ∧ addr + length + maxChunkSize ≤ 2 ^ 64

variable {maxChunkSize addr length base size : Nat}

section
variable (fits : Fits maxChunkSize addr length)
include fits

theorem Fits.uintptr_eq {n : Nat} (inside : n ≤ length) : uintptr (addr + n) = addr + n :=
  Nat.mod_eq_of_lt (by have := fits.1; have := fits.2; omega)

theorem Fits.mem_chunks :
    ⟨base, size⟩ ∈ chunks maxChunkSize addr length ↔
      ∃ t ∈ Strides.tiles length maxChunkSize 0, base = addr + t.1 ∧ size = t.2 := by
  unfold chunks
  rw [List.mem_map]
  refine exists_congr fun t => and_congr_right fun member => ?_
  have within := Strides.tile_within fits.1 member
  rw [fits.uintptr_eq (by omega), Chunk.mk.injEq, eq_comm, @eq_comm _ _ size]

theorem Fits.within {chunk : Chunk} (member : chunk ∈ chunks maxChunkSize addr length) :
    addr ≤ chunk.base ∧ chunk.base < addr + length := by
  obtain ⟨t, tile, base, size⟩ := fits.mem_chunks.mp member
  have within := Strides.tile_within fits.1 tile
  omega

theorem Fits.nodup_bases : ((chunks maxChunkSize addr length).map Chunk.base).Nodup := by
  have bases : (chunks maxChunkSize addr length).map Chunk.base =
    (Strides.tiles length maxChunkSize 0).map (fun t => addr + t.1) := by
    unfold chunks
    rw [List.map_map]
    refine map_congr_left fun t member => ?_
    have within := Strides.tile_within fits.1 member
    exact fits.uintptr_eq (by omega)
  rw [bases]
  refine pairwise_map.mpr (((Strides.tiles_apart fits.1).imp_of_mem fun {t u} first _ apart => ?_))
  have within := Strides.tile_within fits.1 first
  omega

end

/-! ## Registration -/

namespace Registering
variable {cs : List Chunk} {engine : Engine} {registers : Nat → Bool} {g g' : Registering} {k : Nat}

structure Smooth (cs : List Chunk) (engine : Engine) (g : Registering) : Prop where
  calm : g.panicked = false ∧ g.closed = false ∧ g.sent = false
  phases : ∀ k, g.phase k = .running ∨ g.phase k = .done
  taken : ∀ k chunk, cs[k]? = some chunk → g.phase k = .done → g.engine chunk.base = some chunk.size
  others : ∀ base, (∀ k chunk, cs[k]? = some chunk → g.phase k = .done → chunk.base ≠ base) →
    g.engine base = engine base

theorem Smooth.start (cs : List Chunk) (engine : Engine) : Smooth cs engine (.start engine) where
  calm := ⟨rfl, rfl, rfl⟩
  phases := fun _ => .inl rfl
  taken := fun _ _ _ done => nomatch done
  others := fun _ _ => rfl

theorem Smooth.advance (smooth : Smooth cs engine g) (distinct : (cs.map Chunk.base).Nodup)
    (succeed : ∀ k < cs.length, registers k = true) (next : g.advance cs registers k = some g') :
    Smooth cs engine g' := by
  unfold Registering.advance at next
  rw [if_neg (by simp [smooth.calm])] at next
  cases at_ : cs[k]? with
  | none => simp [at_] at next
  | some chunk =>
    have inside : k < cs.length := (List.getElem?_eq_some_iff.mp at_).1
    rcases smooth.phases k with running | done
    · simp only [at_, running, succeed k inside, if_pos] at next
      cases next
      have apart : ∀ k' chunk', cs[k']? = some chunk' → k' ≠ k → chunk'.base ≠ chunk.base := by
        intro k' chunk' at' different same
        refine different ((getElem?_inj (length_map Chunk.base ▸ inside) distinct).mp ?_).symm
        rw [getElem?_map, getElem?_map, at_, at', map_some, map_some, same]
      refine ⟨smooth.calm, fun k' => ?_, fun k' chunk' at' done => ?_, fun base free => ?_⟩
      · by_cases same : k' = k
        · subst same
          exact .inr (update_self _ _ _)
        · simpa only [enter, update_of_ne same] using smooth.phases k'
      · by_cases same : k' = k
        · subst same
          cases at_.symm.trans at'
          exact update_self _ _ _
        · have before : g.phase k' = .done := (update_of_ne same _ _).symm.trans done
          exact (update_of_ne (apart k' chunk' at' same) _ _).trans (smooth.taken k' chunk' at' before)
      · have here : base ≠ chunk.base := Ne.symm (free k chunk at_ (update_self _ _ _))
        refine (update_of_ne here _ _).trans (smooth.others base fun k' chunk' at' done => ?_)
        by_cases same : k' = k
        · subst same
          cases running.symm.trans done
        · exact free k' chunk' at' ((update_of_ne same _ _).trans done)
    · simp [at_, done] at next

end Registering

theorem registerChunks_spec {conduct : Conduct} {engine engine' : Engine} {cs : List Chunk} {reply : Reply}
    (distinct : (cs.map Chunk.base).Nodup) (succeed : ∀ k < cs.length, conduct.registers k = true)
    (call : registerChunks conduct engine cs = some (reply, engine')) :
    reply = .ok ∧ (∀ chunk ∈ cs, engine' chunk.base = some chunk.size) ∧
      ∀ base, base ∉ cs.map Chunk.base → engine' base = engine base := by
  unfold registerChunks at call
  split at call
  · cases call
  next g ran =>
    have smooth : Registering.Smooth cs engine g :=
      Run.invariant (fun _ _ _ before next => before.advance distinct succeed next)
        (Registering.Smooth.start cs engine) ran
    obtain ⟨alive, unclosed, silent⟩ := smooth.calm
    simp only [alive, unclosed, silent, Bool.false_eq_true, if_false] at call
    split at call
    next all =>
      cases call
      refine ⟨rfl, fun chunk member => ?_, fun base free => smooth.others base fun k chunk at_ _ same => ?_⟩
      · obtain ⟨k, at_⟩ := getElem?_of_mem member
        have inside := (List.getElem?_eq_some_iff.mp at_).1
        exact smooth.taken k chunk at_ (of_decide_eq_true (all_eq_true.mp all k (mem_range.mpr inside)))
      · exact free (same ▸ mem_map_of_mem (mem_of_getElem? at_))
    · cases call

theorem foldl_unregister {conduct : Conduct} {bases : List Nat}
    (succeed : ∀ base ∈ bases, conduct.unregisters base = true) (engine : Engine) (base : Nat) :
    bases.foldl (unregister conduct) engine base = if base ∈ bases then none else engine base := by
  induction bases generalizing engine with
  | nil => rfl
  | cons first rest ih =>
    rw [foldl_cons, ih (fun b member => succeed b (mem_cons_of_mem _ member)), unregister,
      if_pos (succeed first mem_cons_self)]
    by_cases later : base ∈ rest
    · simp [later]
    · simp [later, update_apply]

/-! ## The list -/

namespace RegisteredMemory
variable {list list' : List BufferHandle} {e : Err}

theorem count_some (counted : count addr length list = .ok (some list')) :
    ∃ before entry after, list = before ++ entry :: after ∧ entry.isFor addr length = true ∧
      list' = before ++ { entry with refCount := entry.refCount + 1 } :: after := by
  induction list generalizing list' with
  | nil => cases counted
  | cons entry rest ih =>
    unfold count at counted
    split at counted
    next found =>
      cases counted
      exact ⟨[], entry, rest, rfl, found, rfl⟩
    · split at counted
      · cases counted
      · generalize inner : count addr length rest = found at counted
        rcases found with _ | _ | rest'
        · cases counted
        · cases counted
        · cases counted
          obtain ⟨before, hit, after, split, found, split'⟩ := ih inner
          exact ⟨entry :: before, hit, after, congrArg (entry :: ·) split, found, congrArg (entry :: ·) split'⟩

theorem count_none (counted : count addr length list = .ok none) :
    ∀ entry ∈ list, entry.isFor addr length = false ∧ entry.overlaps addr length = false := by
  induction list with
  | nil => exact fun _ none => nomatch none
  | cons entry rest ih =>
    unfold count at counted
    split at counted
    · cases counted
    next other =>
      split at counted
      · cases counted
      next apart =>
        generalize inner : count addr length rest = found at counted
        rcases found with _ | _ | rest'
        · cases counted
        · exact forall_mem_cons.mpr ⟨⟨Bool.not_eq_true _ ▸ other, Bool.not_eq_true _ ▸ apart⟩, ih inner⟩
        · cases counted

theorem checkShardSize_cases (maxChunkSize : Nat) {maxShardSize : Nat} (positive : 0 < maxShardSize) :
    checkShardSize maxChunkSize maxShardSize = .error .invalidArgument ∨
      checkShardSize maxChunkSize maxShardSize = .ok ∧ 0 < maxChunkSize := by
  unfold checkShardSize
  by_cases zero : maxChunkSize = 0
  · exact .inl (if_pos zero)
  · rw [if_neg zero, if_neg (by omega)]
    split
    · exact .inl rfl
    · exact .inr ⟨rfl, by omega⟩

theorem uncount_unlisted (unlisted : ∀ entry ∈ list, entry.isFor addr length = false) :
    uncount addr length list = (false, list) := by
  induction list with
  | nil => rfl
  | cons entry rest ih =>
    obtain ⟨here, later⟩ := forall_mem_cons.mp unlisted
    rw [uncount, if_neg (by simp [here]), ih later]

theorem uncount_last {before : List BufferHandle} {entry : BufferHandle} (after : List BufferHandle)
    (unlisted : ∀ entry ∈ before, entry.isFor addr length = false) (listed : entry.isFor addr length = true)
    (last : entry.refCount = 1) : uncount addr length (before ++ entry :: after) = (true, before ++ after) := by
  induction before with
  | nil => rw [nil_append, uncount, if_pos listed, if_pos (by omega), nil_append]
  | cons first rest ih =>
    obtain ⟨here, later⟩ := forall_mem_cons.mp unlisted
    rw [cons_append, uncount, if_neg (by simp [here]), ih later, cons_append]

end RegisteredMemory

/-! ## Sequences of calls -/

inductive Call where
  | add (addr length maxShardSize : Nat) (conduct : Conduct)
  | remove (addr length maxShardSize : Nat) (conduct : Conduct)

def RegisteredMemory.perform (maxChunkSize : Nat) (memory : RegisteredMemory) :
    Call → Option (Reply × RegisteredMemory)
  | .add addr length maxShardSize conduct => memory.add maxChunkSize addr length maxShardSize conduct
  | .remove addr length maxShardSize conduct =>
    some (memory.remove maxChunkSize addr length maxShardSize conduct)

structure Session where
  memory : RegisteredMemory
  adds : Nat × Nat → Nat
  removes : Nat × Nat → Nat
  panicked : Bool

namespace Session

def start : Session := ⟨⟨fun _ => none, []⟩, fun _ => 0, fun _ => 0, false⟩

def note (s : Session) (memory : RegisteredMemory) (reply : Reply) : Call → Session
  | .add addr length _ _ =>
    { s with
      memory := memory
      adds := if reply = .ok then Function.update s.adds (addr, length) (s.adds (addr, length) + 1) else s.adds
      panicked := reply = .panicked }
  | .remove addr length _ _ =>
    { s with
      memory := memory
      removes := if reply = .ok then Function.update s.removes (addr, length) (s.removes (addr, length) + 1)
        else s.removes
      panicked := reply = .panicked }

def step (maxChunkSize : Nat) (s : Session) (call : Call) : Option Session :=
  if s.panicked then none
  else (s.memory.perform maxChunkSize call).map fun (reply, memory) => s.note memory reply call

/-- The engine registers and unregisters all chunks of the call, and a buffer that is removed is in the list
with a count of one, or not at all. -/
def Regular (maxChunkSize : Nat) (s : Session) : Call → Prop
  | .add addr length maxShardSize conduct =>
    0 < maxShardSize ∧ addr + length + maxChunkSize ≤ 2 ^ 64 ∧
      ∀ k < (chunks maxChunkSize addr length).length, conduct.registers k = true
  | .remove addr length maxShardSize conduct =>
    0 < maxShardSize ∧ (∀ entry ∈ s.memory.bufferList, entry.isFor addr length = true → entry.refCount = 1) ∧
      ∀ base ∈ (chunks maxChunkSize addr length).map Chunk.base, conduct.unregisters base = true

instance (maxChunkSize : Nat) (s : Session) : (call : Call) → Decidable (s.Regular maxChunkSize call)
  | .add _ _ _ _ => inferInstanceAs (Decidable (_ ∧ _ ∧ _))
  | .remove _ _ _ _ => inferInstanceAs (Decidable (_ ∧ _ ∧ _))

/-- The counts are exact: the engine has the chunks of the buffers that were added more often than removed, and
no others. -/
structure Exact (maxChunkSize : Nat) (s : Session) : Prop where
  alive : s.panicked = false
  registered : ∀ base size, s.memory.engine base = some size ↔
    ∃ addr length, s.removes (addr, length) < s.adds (addr, length) ∧
      ⟨base, size⟩ ∈ chunks maxChunkSize addr length
  disjoint : (s.memory.bufferList.map fun entry => (entry.addr, entry.length)).Pairwise Extent.Apart

def FailedAddKeeps (maxChunkSize : Nat) (s : Session) (call : Call) (s' : Session) : Prop :=
  match call with
  | .add addr length maxShardSize conduct =>
    ∀ e memory, s.memory.add maxChunkSize addr length maxShardSize conduct = some (.error e, memory) →
      s'.memory.bufferList = s.memory.bufferList ∧ s'.memory.engine = s.memory.engine
  | .remove _ _ _ _ => True

end Session

/-! ## What every regular call keeps -/

def BufferHandle.region (entry : BufferHandle) : Nat × Nat := (entry.addr, entry.length)

variable {entry : BufferHandle}

theorem BufferHandle.isFor_iff : entry.isFor addr length = true ↔ entry.region = (addr, length) := by
  simp [isFor, region]

def RegisteredMemory.regions (memory : RegisteredMemory) : List (Nat × Nat) :=
  memory.bufferList.map BufferHandle.region

def references : List BufferHandle → Nat × Nat → Nat
  | [], _ => 0
  | entry :: list, r => (if entry.region = r then entry.refCount else 0) + references list r

section References
variable {list : List BufferHandle} {entry : BufferHandle} {r : Nat × Nat}

theorem references_append {before after : List BufferHandle} :
    references (before ++ after) r = references before r + references after r := by
  induction before with
  | nil => exact (Nat.zero_add _).symm
  | cons entry before ih => rw [cons_append, references, ih, references, Nat.add_assoc]

theorem references_unlisted (unlisted : r ∉ list.map BufferHandle.region) : references list r = 0 := by
  induction list with
  | nil => rfl
  | cons entry list ih =>
    rw [map_cons, mem_cons, not_or] at unlisted
    rw [references, ih unlisted.2]
    exact if_neg (Ne.symm unlisted.1)

theorem references_listed (distinct : (list.map BufferHandle.region).Nodup) (member : entry ∈ list) :
    references list entry.region = entry.refCount := by
  obtain ⟨before, after, rfl⟩ := append_of_mem member
  rw [map_append, map_cons, nodup_middle, nodup_cons, mem_append, not_or] at distinct
  rw [references_append, references, references_unlisted distinct.1.1,
    references_unlisted distinct.1.2, if_pos rfl,
    Nat.zero_add, Nat.add_zero]

theorem update_succ (f : Nat × Nat → Nat) (q r : Nat × Nat) :
    update f q (f q + 1) r = f r + if q = r then 1 else 0 := by
  by_cases same : q = r
  · rw [same, update_self, if_pos rfl]
  · rw [update_of_ne (Ne.symm same), if_neg same, Nat.add_zero]

end References

/-- The engine has exactly the chunks of these buffers, which fit into the address space one beside the other.
-/
structure Tiled (maxChunkSize : Nat) (engine : Engine) (regions : List (Nat × Nat)) : Prop where
  fits : ∀ r ∈ regions, Fits maxChunkSize r.1 r.2
  distinct : regions.Nodup
  disjoint : regions.Pairwise Extent.Apart
  registered : ∀ base size, engine base = some size ↔ ∃ r ∈ regions, ⟨base, size⟩ ∈ chunks maxChunkSize r.1 r.2

section Tiled
variable {engine engine' : Engine} {regions before after : List (Nat × Nat)} {r : Nat × Nat}

theorem Fits.base_not_mem {addr' length' : Nat} (fits : Fits maxChunkSize addr length)
    (fits' : Fits maxChunkSize addr' length') (apart : Extent.Apart (addr, length) (addr', length'))
    (member : ⟨base, size⟩ ∈ chunks maxChunkSize addr length) :
    base ∉ (chunks maxChunkSize addr' length').map Chunk.base := by
  intro other
  obtain ⟨chunk, inside, same⟩ := mem_map.mp other
  have here := fits.within member
  have there := fits'.within inside
  simp only [Extent.Apart] at apart
  simp only at here
  omega

theorem Tiled.insert (tiled : Tiled maxChunkSize engine regions) (fits : Fits maxChunkSize r.1 r.2)
    (fresh : r ∉ regions) (apart : ∀ q ∈ regions, Extent.Apart q r)
    (taken : ∀ chunk ∈ chunks maxChunkSize r.1 r.2, engine' chunk.base = some chunk.size)
    (others : ∀ base, base ∉ (chunks maxChunkSize r.1 r.2).map Chunk.base → engine' base = engine base) :
    Tiled maxChunkSize engine' (regions ++ [r]) := by
  refine ⟨fun q member => ?_, ?_, ?_, fun base size => ?_⟩
  · rcases mem_append.mp member with old | new
    · exact tiled.fits q old
    · rwa [mem_singleton.mp new]
  · exact nodup_append.mpr ⟨tiled.distinct, nodup_singleton r, fun q old q' new same =>
      fresh (mem_singleton.mp new ▸ same ▸ old)⟩
  · exact pairwise_append.mpr ⟨tiled.disjoint, pairwise_singleton _ _, fun q old q' new =>
      mem_singleton.mp new ▸ apart q old⟩
  · constructor
    · intro has
      by_cases mine : base ∈ (chunks maxChunkSize r.1 r.2).map Chunk.base
      · obtain ⟨chunk, member, rfl⟩ := mem_map.mp mine
        cases (taken chunk member).symm.trans has
        exact ⟨r, mem_append_right _ (mem_singleton.mpr rfl), member⟩
      · obtain ⟨q, old, member⟩ := (tiled.registered base size).mp ((others base mine).symm.trans has)
        exact ⟨q, mem_append_left _ old, member⟩
    · rintro ⟨q, inside, member⟩
      rcases mem_append.mp inside with old | new
      · rw [others base ((tiled.fits q old).base_not_mem fits (apart q old) member)]
        exact (tiled.registered base size).mpr ⟨q, old, member⟩
      · rw [mem_singleton.mp new] at member
        exact taken ⟨base, size⟩ member

theorem Tiled.erase (tiled : Tiled maxChunkSize engine (before ++ r :: after))
    (removed : ∀ base,
      engine' base = if base ∈ (chunks maxChunkSize r.1 r.2).map Chunk.base then none else engine base) :
    Tiled maxChunkSize engine' (before ++ after) := by
  have fits := tiled.fits r (by simp)
  have sublist : Sublist (before ++ after) (before ++ r :: after) :=
    Sublist.append (Sublist.refl _) (sublist_cons_self r after)
  have apart : ∀ q ∈ before ++ after, Extent.Apart q r := by
    obtain ⟨_, rest, across⟩ := pairwise_append.mp tiled.disjoint
    intro q member
    rcases mem_append.mp member with first | last
    · exact across q first r mem_cons_self
    · exact ((pairwise_cons.mp rest).1 q last).symm
  refine ⟨fun q member => tiled.fits q (sublist.subset member), tiled.distinct.sublist sublist,
    tiled.disjoint.sublist sublist,
    fun base size => ?_⟩
  rw [removed]
  constructor
  · intro has
    split at has
    · cases has
    next other =>
      obtain ⟨q, inside, member⟩ := (tiled.registered base size).mp has
      have different : q ≠ r := fun same => other (same ▸ mem_map_of_mem member)
      refine ⟨q, ?_, member⟩
      simpa [different] using inside
  · rintro ⟨q, inside, member⟩
    rw [if_neg ((tiled.fits q (sublist.subset inside)).base_not_mem fits (apart q inside) member)]
    exact (tiled.registered base size).mpr ⟨q, sublist.subset inside, member⟩

end Tiled

namespace Session
variable {s s' : Session} {memory : RegisteredMemory} {maxShardSize : Nat} {conduct : Conduct}

structure Sound (maxChunkSize : Nat) (s : Session) : Prop where
  alive : s.panicked = false
  tiled : Tiled maxChunkSize s.memory.engine s.memory.regions
  counts : ∀ entry ∈ s.memory.bufferList, entry.refCount + s.removes entry.region = s.adds entry.region ∧
    0 < entry.refCount
  unlisted : ∀ r, r ∉ s.memory.regions → s.adds r = s.removes r

theorem Sound.start (maxChunkSize : Nat) : Sound maxChunkSize .start where
  alive := rfl
  tiled := ⟨fun _ none => (nomatch none), nodup_nil, Pairwise.nil, fun _ _ =>
    ⟨(nomatch ·), fun ⟨_, inside, _⟩ => (nomatch inside)⟩⟩
  counts := fun _ none => nomatch none
  unlisted := fun _ _ => rfl

section
variable (sound : Sound maxChunkSize s)
include sound

theorem Sound.mem_regions_iff {r : Nat × Nat} : r ∈ s.memory.regions ↔ s.removes r < s.adds r := by
  constructor
  · intro listed
    obtain ⟨entry, member, rfl⟩ := mem_map.mp listed
    have count := sound.counts entry member
    omega
  · intro more
    by_contra unlisted
    have same := sound.unlisted r unlisted
    omega

theorem Sound.exact : s.Exact maxChunkSize where
  alive := sound.alive
  registered := fun base size => (sound.tiled.registered base size).trans
    ⟨fun ⟨r, listed, member⟩ => ⟨r.1, r.2, sound.mem_regions_iff.mp listed, member⟩,
      fun ⟨addr, length, more, member⟩ => ⟨(addr, length), sound.mem_regions_iff.mpr more, member⟩⟩
  disjoint := sound.tiled.disjoint

theorem Sound.total (r : Nat × Nat) : references s.memory.bufferList r + s.removes r = s.adds r := by
  by_cases listed : r ∈ s.memory.regions
  · obtain ⟨entry, member, rfl⟩ := mem_map.mp listed
    rw [references_listed sound.tiled.distinct member]
    exact (sound.counts entry member).1
  · rw [references_unlisted listed, Nat.zero_add, sound.unlisted r listed]

omit sound in
theorem Sound.of_total {memory : RegisteredMemory} {adds removes : Nat × Nat → Nat}
    (tiled : Tiled maxChunkSize memory.engine memory.regions)
    (positive : ∀ entry ∈ memory.bufferList, 0 < entry.refCount)
    (total : ∀ r, references memory.bufferList r + removes r = adds r) :
    Sound maxChunkSize ⟨memory, adds, removes, false⟩ where
  alive := rfl
  tiled := tiled
  counts := fun entry member => ⟨references_listed tiled.distinct member ▸ total entry.region,
    positive entry member⟩
  unlisted := fun r unlisted => (total r).symm.trans (by rw [references_unlisted unlisted, Nat.zero_add])

variable {before after : List BufferHandle}

theorem Sound.recount (list : s.memory.bufferList = before ++ entry :: after) :
    Sound maxChunkSize ⟨⟨s.memory.engine, before ++ { entry with refCount := entry.refCount + 1 } :: after⟩,
      update s.adds entry.region (s.adds entry.region + 1), s.removes, false⟩ := by
  refine .of_total ?_ (fun other member => ?_) (fun r => ?_)
  · have tiled := sound.tiled
    rw [regions, list, map_append, map_cons] at tiled
    rw [regions, map_append, map_cons]
    exact tiled
  · have positive := fun entry member => (sound.counts entry member).2
    rw [list, forall_mem_append, forall_mem_cons] at positive
    exact forall_mem_append.mpr ⟨positive.1, forall_mem_cons.mpr ⟨Nat.succ_pos _, positive.2.2⟩⟩ other member
  · have total := sound.total r
    rw [list, references_append, references] at total
    rw [references_append, references, update_succ]
    grind [BufferHandle.region]

theorem Sound.append {engine : Engine}
    (tiled : Tiled maxChunkSize engine (s.memory.regions ++ [(addr, length)])) :
    Sound maxChunkSize ⟨⟨engine, s.memory.bufferList ++ [⟨addr, length, 1⟩]⟩,
      update s.adds (addr, length) (s.adds (addr, length) + 1), s.removes, false⟩ := by
  refine .of_total ?_ (fun entry member => ?_) (fun r => ?_)
  · rw [regions, map_append]
    exact tiled
  · rcases mem_append.mp member with old | new
    · exact (sound.counts entry old).2
    · rw [mem_singleton.mp new]
      exact Nat.one_pos
  · rw [references_append, update_succ, ← sound.total r, Nat.add_right_comm]
    rfl

theorem Sound.erase {engine : Engine}
    (list : s.memory.bufferList = before ++ entry :: after) (last : entry.refCount = 1)
    (tiled : Tiled maxChunkSize engine (before.map BufferHandle.region ++ after.map BufferHandle.region)) :
    Sound maxChunkSize ⟨⟨engine, before ++ after⟩, s.adds,
      update s.removes entry.region (s.removes entry.region + 1), false⟩ := by
  refine .of_total ?_ (fun other member => ?_) (fun r => ?_)
  · rw [regions, map_append]
    exact tiled
  · refine (sound.counts other ?_).2
    rw [list]
    exact (Sublist.append (Sublist.refl _) (sublist_cons_self entry after)).subset member
  · have total := sound.total r
    rw [list, references_append, references, last] at total
    rw [references_append, update_succ]
    omega

theorem Sound.refused {call : Call} {e : Err} : Sound maxChunkSize (s.note s.memory (.error e) call) := by
  cases call <;> exact ⟨rfl, sound.tiled, sound.counts, sound.unlisted⟩

theorem Sound.add {reply : Reply} (regular : s.Regular maxChunkSize (.add addr length maxShardSize conduct))
    (call : s.memory.add maxChunkSize addr length maxShardSize conduct = some (reply, memory)) :
    Sound maxChunkSize (s.note memory reply (.add addr length maxShardSize conduct)) ∧
      ∀ e, reply = .error e → memory = s.memory := by
  obtain ⟨positive, room, succeed⟩ := regular
  unfold RegisteredMemory.add at call
  rcases checkShardSize_cases maxChunkSize positive with check | ⟨check, chunked⟩
  · rw [check] at call
    cases call
    exact ⟨sound.refused, fun _ _ => rfl⟩
  · have fits : Fits maxChunkSize addr length := ⟨chunked, room⟩
    simp only [check] at call
    split at call
    next e counted =>
      cases call
      exact ⟨sound.refused, fun _ _ => rfl⟩
    next bufferList counted =>
      cases call
      obtain ⟨before, entry, after, list, listed, rfl⟩ := count_some counted
      have kept := sound.recount list
      rw [BufferHandle.isFor_iff.mp listed] at kept
      exact ⟨kept, fun _ failed => nomatch failed⟩
    next counted =>
      obtain ⟨⟨reply', engine⟩, registered, same⟩ := map_eq_some_iff.mp call
      obtain ⟨rfl, taken, others⟩ := registerChunks_spec fits.nodup_bases succeed registered
      cases same
      have apart := count_none counted
      have fresh : (addr, length) ∉ s.memory.regions := fun inside => by
        obtain ⟨entry, member, here⟩ := mem_map.mp inside
        cases (apart entry member).1.symm.trans (BufferHandle.isFor_iff.mpr here)
      have disjoint : ∀ q ∈ s.memory.regions, Extent.Apart q (addr, length) := by
        intro q inside
        obtain ⟨entry, member, rfl⟩ := mem_map.mp inside
        have free := (apart entry member).2
        have fits' : Fits maxChunkSize entry.addr entry.length := sound.tiled.fits entry.region inside
        rw [BufferHandle.overlaps, fits.uintptr_eq (Nat.le_refl _), fits'.uintptr_eq (Nat.le_refl _),
          decide_eq_false_iff_not] at free
        show entry.addr + entry.length ≤ addr ∨ addr + length ≤ entry.addr
        omega
      have kept := sound.append (sound.tiled.insert (r := (addr, length)) fits fresh disjoint taken others)
      exact ⟨kept, fun _ failed => nomatch failed⟩

theorem Sound.remove (regular : s.Regular maxChunkSize (.remove addr length maxShardSize conduct)) :
    Sound maxChunkSize (s.note (s.memory.remove maxChunkSize addr length maxShardSize conduct).2
      (s.memory.remove maxChunkSize addr length maxShardSize conduct).1 (.remove addr length maxShardSize conduct)) := by
  obtain ⟨positive, single, succeed⟩ := regular
  unfold RegisteredMemory.remove
  rcases checkShardSize_cases maxChunkSize positive with check | ⟨check, _⟩
  · rw [check]
    exact sound.refused
  · rw [check]
    by_cases listed : ∃ entry ∈ s.memory.bufferList, entry.isFor addr length = true
    · obtain ⟨entry, member, here⟩ := listed
      obtain ⟨before, after, list⟩ := append_of_mem member
      have region := BufferHandle.isFor_iff.mp here
      have distinct := sound.tiled.distinct
      rw [regions, list, map_append, map_cons] at distinct
      have first : ∀ other ∈ before, other.isFor addr length = false := fun other inside => by
        rw [← Bool.not_eq_true, BufferHandle.isFor_iff, ← region]
        exact fun equal => (nodup_append.mp distinct).2.2 _ (mem_map_of_mem inside) _ mem_cons_self equal
      have last := single entry member here
      have found := uncount_last after first here last
      rw [← list] at found
      have removed := foldl_unregister succeed s.memory.engine
      have all : ((chunks maxChunkSize addr length).map Chunk.base).all conduct.unregisters = true :=
        all_eq_true.mpr succeed
      have tiled := sound.tiled
      rw [regions, list, map_append, map_cons, region] at tiled
      have kept := sound.erase list last (tiled.erase removed)
      simp only [found, all, if_pos, note, ← region]
      exact kept
    · have absent : ∀ entry ∈ s.memory.bufferList, entry.isFor addr length = false := fun entry member => by
        rw [← Bool.not_eq_true]
        exact fun here => listed ⟨entry, member, here⟩
      simp only [uncount_unlisted absent]
      exact sound.refused

theorem Sound.step {call : Call} (regular : s.Regular maxChunkSize call)
    (next : s.step maxChunkSize call = some s') : Sound maxChunkSize s' ∧
      s.FailedAddKeeps maxChunkSize call s' := by
  unfold Session.step at next
  rw [if_neg (by simp [sound.alive])] at next
  obtain ⟨⟨reply, memory⟩, performed, rfl⟩ := map_eq_some_iff.mp next
  cases call with
  | add addr length maxShardSize conduct =>
    obtain ⟨kept, failed⟩ := sound.add regular performed
    refine ⟨kept, fun e memory' again => ?_⟩
    cases performed.symm.trans again
    cases failed e rfl
    exact ⟨rfl, rfl⟩
  | remove addr length maxShardSize conduct =>
    have same := some.inj performed
    refine ⟨?_, trivial⟩
    have kept := sound.remove regular
    rwa [same] at kept

end

/-- In every run of regular calls the counts are exact. -/
theorem exact_of_regular {calls : List Call} (run : Run.run (step maxChunkSize) start calls = some s)
    (regular : Run.Guarded (step maxChunkSize) (fun s call => s.Regular maxChunkSize call) start calls) :
    s.Exact maxChunkSize ∧ Run.Every (step maxChunkSize) (FailedAddKeeps maxChunkSize) start calls := by
  have sound : Sound maxChunkSize s :=
    Run.guarded_invariant (fun _ _ _ before meets next => (before.step meets next).1)
    (Sound.start maxChunkSize) run regular
  exact ⟨sound.exact, Run.guarded_every (fun _ _ _ before meets next => before.step meets next)
    (Sound.start maxChunkSize) regular⟩

/-! ## Buffers of two chunks -/

def obedient (schedule : List Nat) : Conduct := ⟨fun _ => true, fun _ => true, schedule⟩

def regularCalls : List Call :=
  [.add 0 6 4 (obedient [1, 0]), .add 0 6 4 (obedient []), .add 4 4 4 (obedient []), .add 8 4 4 (obedient [0]),
    .remove 8 4 4 (obedient [])]

theorem exact_after_regular_calls :
    ∃ s, Run.run (step 4) start regularCalls = some s ∧ s.adds (0, 6) = 2 ∧ s.memory.engine 4 = some 2 ∧
      s.Exact 4 := by
  have regular : Run.Guarded (step 4) (fun s call => s.Regular 4 call) start regularCalls := by decide +kernel
  exact ⟨_, rfl, rfl, rfl, (exact_of_regular (by exact rfl) regular).1⟩

/-- A buffer that was added twice is removed once; and a chunk cannot be registered. -/
theorem counts_inexact :
    (∃ s, Run.run (step 4) start [.add 0 4 4 (obedient [0]), .add 0 4 4 (obedient []),
      .remove 0 4 4 (obedient [])] = some s ∧
      s.adds (0, 4) = 2 ∧ s.removes (0, 4) = 1 ∧ ⟨0, 4⟩ ∈ chunks 4 0 4 ∧ s.memory.engine 0 = none) ∧
    ∃ s, Run.run (step 4) start [.add 0 4 4 ⟨fun _ => false, fun _ => true, [0, 0, 0]⟩] = some s ∧
      s.panicked = true :=
  ⟨⟨_, rfl, rfl, rfl, by decide, rfl⟩, ⟨_, rfl, rfl⟩⟩

end Session

end Mooncake.P2PStore
