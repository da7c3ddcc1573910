import Mooncake.Master.Puts

/-! The gauges of the master as an account of its objects and buffers. Constructors add to the
gauges and destructors subtract, so each gauge is the sum of what the living objects added.
What an object adds is fixed when it is made: an entry that loses a replica still counts with
the disk size that it had. -/
namespace Mooncake.Master

open Function Function Option Finset World Table List
variable {A H : Type}

/-- What one object adds to `key_count`, `soft_pin_key_count` and `allocated_file_size`. -/
abbrev Account : Type := BitVec 64 × BitVec 64 × BitVec 64

def ObjectMetadata.account (m : ObjectMetadata H) : Account :=
  (1, if m.softPinTimeout.isSome then 1 else 0, BitVec.ofNat 64 m.diskReplicaSize)

def Garbage.account : Garbage H → Account
  | .replica _ => 0
  | .object m => m.account

def Settles (m : ObjectMetadata H) (out : Option (ObjectMetadata H) × List (Garbage H)) : Prop :=
  m.account = out.1.elim 0 ObjectMetadata.account + (out.2.map Garbage.account).sum

theorem account_replicas (rs : List (Replica H)) : ((rs.map Garbage.replica).map Garbage.account).sum = 0 := by
  rw [List.map_map]
  exact sum_eq_zero (fun a member => by
    obtain ⟨r, -, rfl⟩ := mem_map.mp member
    rfl)

theorem Dealt.settles {m : ObjectMetadata H} {out : Option (ObjectMetadata H) × List (Garbage H)}
    (dealt : Dealt m out) : Settles m out := by
  cases dealt with
  | stays m' rs bag soft disk =>
    rw [Settles, elim_some, account_replicas, add_zero, ObjectMetadata.account, ObjectMetadata.account, soft, disk]
  | goes m' rs bag soft disk =>
    rw [Settles, elim_none, map_append, sum_append, account_replicas, zero_add, zero_add,
      ObjectMetadata.account, ← soft, ← disk]
    exact (add_zero _).symm

def Balanced (t t' : Shard H) (gs : List (Garbage H)) : Prop :=
  Table.total (fun _ m => m.account) t = Table.total (fun _ m => m.account) t' + (gs.map Garbage.account).sum

theorem Handled.balanced {p : Params} {w : World A H} {e : Event} {t : Shard H} {out : Shard H × List (Garbage H)}
    (handled : Handled p w e t out) : Balanced t out.1 out.2 :=
  handled.total ObjectMetadata.account Garbage.account (fun _ _ dealt => dealt.settles)

/-! The gauges of the heap. -/

def Heap.gauges (h : Heap A) : BitVec 64 × Account :=
  (h.metrics.allocatedMemSize, h.metrics.keyCount, h.metrics.softPinKeyCount, h.metrics.allocatedFileSize)

def bytes : Multiset (AllocatedBuffer H) →+ BitVec 64 :=
  Multiset.sumAddMonoidHom.comp (Multiset.mapAddMonoidHom (fun b => BitVec.ofNat 64 b.size))

theorem bytes_cons (b : AllocatedBuffer H) (bag : Multiset (AllocatedBuffer H)) :
    bytes (b ::ₘ bag) = BitVec.ofNat 64 b.size + bytes bag := by
  simp [bytes]

section Heap
variable [BufferAllocatorBase A H] {valid : Nat → Bool}

theorem destroyAll_gauges (bs : List (AllocatedBuffer H)) (h : Heap A) :
    (h.destroyAll valid bs).gauges = h.gauges - (bytes (bs : Multiset (AllocatedBuffer H)), 0) := by
  induction bs generalizing h with
  | nil =>
    rw [Multiset.coe_nil, map_zero]
    exact (sub_zero h.gauges).symm
  | cons b bs ih =>
    have first : (h.destroy valid b).gauges = h.gauges - (BitVec.ofNat 64 b.size, 0) := by
      rw [Heap.gauges, Heap.gauges, Prod.mk_sub_mk, sub_zero]
      rfl
    rw [Heap.destroyAll, foldl_cons]
    refine (ih (h.destroy valid b)).trans ?_
    rw [first, ← Multiset.cons_coe, bytes_cons, sub_sub, Prod.mk_add_mk, add_zero]

theorem collect_gauges (g : Garbage H) (h : Heap A) :
    (h.collect valid g).gauges = h.gauges - (bytes (g.buffers : Multiset (AllocatedBuffer H)), g.account) := by
  cases g with
  | replica r => exact destroyAll_gauges r.buffers h
  | object m =>
    have uncounted : (h.uncountObject m).gauges = h.gauges - (0, m.account) := by
      rw [Heap.gauges, Heap.gauges, Prod.mk_sub_mk, sub_zero]
      rfl
    refine (destroyAll_gauges m.buffers (h.uncountObject m)).trans ?_
    rw [uncounted, sub_sub, Prod.mk_add_mk, zero_add, add_zero]
    rfl

theorem collectAll_gauges (gs : List (Garbage H)) (h : Heap A) :
    (h.collectAll valid gs).gauges = h.gauges - (bytes (garbageBag gs), (gs.map Garbage.account).sum) := by
  induction gs generalizing h with
  | nil =>
    rw [garbageBag_nil, map_zero]
    exact (sub_zero h.gauges).symm
  | cons g gs ih =>
    rw [Heap.collectAll, foldl_cons]
    refine (ih (h.collect valid g)).trans ?_
    have bag : garbageBag (g :: gs) = (g.buffers : Multiset (AllocatedBuffer H)) + garbageBag gs := sum_cons
    rw [collect_gauges, bag, map_add, List.map_cons, List.sum_cons, sub_sub, Prod.mk_add_mk]

omit [BufferAllocatorBase A H] in
theorem countObject_gauges (h : Heap A) (m : ObjectMetadata H) :
    (h.countObject m).gauges = h.gauges + (0, m.account) := by
  rw [Heap.gauges, Heap.gauges, Prod.mk_add_mk, add_zero]
  rfl

end Heap

/-! The books of the whole master. -/

@[irreducible] def World.sumEntries {μ : Type} [AddCommMonoid μ] (w : World A H)
    (weight : ObjectMetadata H → μ) : μ :=
  ∑ i, Table.total (fun _ m => weight m) (w.shards i)

variable {w w' : World A H}

theorem sumEntries_change {μ : Type} [AddCommMonoid μ] (weight : ObjectMetadata H → μ)
    (i : Fin kNumShards) (others : ∀ j, j ≠ i → w'.shards j = w.shards j) :
    w'.sumEntries weight + total (fun _ m => weight m) (w.shards i) =
      w.sumEntries weight + total (fun _ m => weight m) (w'.shards i) := by
  have rest : ∑ j ∈ univ.erase i, total (fun _ m => weight m) (w'.shards j) =
      ∑ j ∈ univ.erase i, total (fun _ m => weight m) (w.shards j) := by
    refine sum_congr rfl (fun j member => ?_)
    rw [others j (mem_erase.mp member).1]
  unfold sumEntries
  rw [← add_sum_erase _ _ (mem_univ i), rest,
    ← add_sum_erase _ (fun j => total (fun _ m => weight m) (w.shards j)) (mem_univ i)]
  rw [add_right_comm, add_comm (total _ (w'.shards i)), add_right_comm]

def Accounted (w : World A H) : Prop := w.heap.gauges = (bytes w.bag, w.sumEntries ObjectMetadata.account)

theorem accounted_start (p : Params) : Accounted (World.start p : World A H) := by
  have empty : (start p : World A H).bag = 0 := by
    unfold bag
    exact sum_eq_zero (fun _ _ => rfl)
  have none : (start p : World A H).sumEntries ObjectMetadata.account = 0 := by
    unfold sumEntries
    exact sum_eq_zero (fun _ _ => rfl)
  rw [Accounted, empty, none, map_zero]
  rfl

theorem accounted_same (x : Accounted w) (gauges : w'.heap.gauges = w.heap.gauges)
    (shards : w'.shards = w.shards) (bag : w'.bag = w.bag) : Accounted w' := by
  have entries : w'.sumEntries ObjectMetadata.account = w.sumEntries ObjectMetadata.account := by
    unfold sumEntries
    rw [shards]
  rw [Accounted, gauges, bag, entries]
  exact x

theorem accounted_quiet (x : Accounted w) (gauges : w'.heap.gauges = w.heap.gauges)
    (shards : w'.shards = w.shards) (busy : w'.busy = w.busy) : Accounted w' :=
  accounted_same x gauges shards (bag_congr shards busy)

section Sections
variable [BufferAllocatorBase A H] {p : Params} {w w' : World A H} {e : Event} {r : Reply}

variable {i : Fin kNumShards} {out : Shard H × List (Garbage H)}

theorem accounted_critical (x : Accounted w) (free : w.busy i = none) (handled : Handled p w e (w.shards i) out)
    (shards : w'.shards = update w.shards i out.1)
    (gauges : w'.heap.gauges = (w.heap.collectAll w.isValid out.2).gauges) (busy : ∀ j, j ≠ i → w'.busy j = w.busy j)
    (idle : putBag (w'.busy i) = 0) : Accounted w' := by
  have change := bag_change i (fun j different => ⟨others_update shards j different, busy j different⟩)
  rw [cell_swept free handled.swept shards idle, ← add_assoc] at change
  have bag : w.bag = w'.bag + garbageBag out.2 := (add_right_cancel change).symm
  have entries : w.sumEntries ObjectMetadata.account =
      w'.sumEntries ObjectMetadata.account + (out.2.map Garbage.account).sum := by
    have moved := sumEntries_change ObjectMetadata.account i (others_update shards)
    rw [handled.balanced, shards, update_self, add_left_comm, ← add_assoc,
      add_comm (w.sumEntries ObjectMetadata.account)] at moved
    exact (add_left_cancel ((add_assoc _ _ _).symm.trans moved)).symm
  rw [Accounted, gauges, collectAll_gauges, x, bag, entries, map_add, Prod.mk_sub_mk, add_sub_cancel_right,
    add_sub_cancel_right]

theorem accounted_section (x : Accounted w) (free : w.busy i = none) (handled : Handled p w e (w.shards i) out)
    (shards : w'.shards = (w.cut i out).shards) (heap : w'.heap = (w.cut i out).heap) (busy : w'.busy = w.busy) :
    Accounted w' := by
  refine accounted_critical x free handled shards (congrArg Heap.gauges heap) (fun j _ => congrFun busy j) ?_
  have idle : w'.busy i = none := (congrFun busy i).trans free
  rw [idle]
  rfl

/-! The steps of a put. -/

variable {held : List (AllocatedBuffer H)}

theorem perform_gauges {valid : Nat → Bool} {h h' : Heap A} {choice : List Nat} {op : AllocOp H} {answer : op.Answer}
    {scope : Nat → Prop} (done : h.perform valid choice op = some (h', answer))
    (owed : (ownership scope).requires (held : Multiset (AllocatedBuffer H)) op)
    (distinct : (ids (held : Multiset (AllocatedBuffer H))).Nodup) :
    h'.gauges + (bytes (held : Multiset (AllocatedBuffer H)), 0) =
      h.gauges + (bytes (op.track held answer : Multiset (AllocatedBuffer H)), 0) := by
  cases op with
  | getSegmentName a =>
    cases done
    rfl
  | getLargestFreeRegion a =>
    cases done
    rfl
  | allocate a size =>
    have heap : (h.allocate a size).1 = h' := congrArg Prod.fst (some.inj done)
    have result : (h.allocate a size).2 = answer := congrArg Prod.snd (some.inj done)
    subst heap result
    unfold Heap.allocate
    split
    · rfl
    · simp only
      split
      · rfl
      · simp only [AllocOp.track, elim_some]
        rw [← Multiset.cons_coe, bytes_cons, Heap.gauges, Heap.gauges, Prod.mk_add_mk, add_assoc]
        rfl
  | shuffle indices =>
    simp only [Heap.perform] at done
    split at done
    · cases done
      rfl
    · cases done
  | destroy b =>
    cases done
    have fewer := eraseP_object owed distinct
    have gone : (h.destroy valid b).gauges = h.gauges - (bytes ({b} : Multiset (AllocatedBuffer H)), 0) :=
      destroyAll_gauges [b] h
    rw [gone, fewer, ← Multiset.singleton_add, map_add, AllocOp.track]
    have split : ((bytes {b} + bytes (held.eraseP (fun c => c.object = b.object) : Multiset (AllocatedBuffer H)), 0) :
        BitVec 64 × Account) = (bytes {b}, 0) +
          (bytes (held.eraseP (fun c => c.object = b.object) : Multiset (AllocatedBuffer H)), 0) := by
      rw [Prod.mk_add_mk, add_zero]
    rw [split, ← add_assoc, sub_add_cancel]

theorem accounted_putInsert (x : Accounted w) {task : PutTask H} {replicas : List (Replica H)}
    (put : w.busy i = some task) (phase : task.phase = .inserting replicas) :
    Accounted (w.putInsert i task replicas).1 := by
  obtain ⟨owned, inserted, abandoned⟩ := putInsert_bag put phase
  let m := ObjectMetadata.make w.nextObject task.totalLength replicas task.config.withSoftPin
  cases found : (w.shards i).lookup task.key with
  | none =>
    have shards : (w.putInsert i task replicas).1.shards =
        update w.shards i ((w.shards i).insert task.key m) := by
      simp only [putInsert, setPut, found]
      rfl
    have gauges : (w.putInsert i task replicas).1.heap.gauges = w.heap.gauges + (0, m.account) := by
      simp only [putInsert, setPut, found]
      exact countObject_gauges w.heap m
    have entries : (w.putInsert i task replicas).1.sumEntries ObjectMetadata.account =
        w.sumEntries ObjectMetadata.account + m.account := by
      have moved := sumEntries_change ObjectMetadata.account i (others_update shards)
      rw [shards, update_self, total_insert_new _ found, ← add_assoc] at moved
      exact add_right_cancel moved
    rw [Accounted, gauges, x, inserted found, entries, Prod.mk_add_mk, add_zero]
  | some old =>
    have bag := abandoned (by rw [found]; exact some_ne_none old)
    have entries : (w.putInsert i task replicas).1.sumEntries ObjectMetadata.account =
        w.sumEntries ObjectMetadata.account := by
      unfold sumEntries
      simp only [putInsert, setPut, found]
    have gauges : (w.putInsert i task replicas).1.heap.gauges = w.heap.gauges - (bytes (putBag (w.busy i)), 0) := by
      simp only [putInsert, setPut, found]
      refine (collect_gauges (.object m) (w.heap.countObject m)).trans ?_
      rw [countObject_gauges, add_sub_assoc, Prod.mk_sub_mk, zero_sub, Garbage.account, sub_self, sub_eq_add_neg,
        Prod.neg_mk, neg_zero, owned]
      rfl
    rw [Accounted, gauges, x, bag, entries, map_add, Prod.mk_sub_mk, add_sub_cancel_left, sub_zero]

omit [BufferAllocatorBase A H] in
theorem accounted_put (x : Accounted w) {i : Fin kNumShards} {put' : Option (PutTask H)}
    (shards : w'.shards = w.shards) (busy : w'.busy = update w.busy i put') (heap : w'.heap = w.heap)
    (owned : putBag put' = putBag (w.busy i)) : Accounted w' := by
  have change := bag_put shards busy
  rw [owned] at change
  exact accounted_same x (congrArg Heap.gauges heap) shards (add_right_cancel change)

theorem accounted_call (sound : Sound p w) (x : Accounted w) {i : Fin kNumShards} {task : PutTask H}
    {op : AllocOp H}
    {next : op.Answer → AllocProgram H (Except ErrorCode (List (Replica H)))} (put : w.busy i = some task)
    (phase : task.phase = .allocating held (.call op next)) {choice : List Nat} {heap : Heap A} {answer : op.Answer}
    (performed : w.heap.perform w.isValid choice op = some (heap, answer)) (shards : w'.shards = w.shards)
    (busy : w'.busy = update w.busy i
      (some { task with phase := .allocating (op.track held answer) (next answer) })) (after : w'.heap = heap) :
    Accounted w' := by
  obtain ⟨-, -, sounds⟩ := sound.inFlight.put i task put
  rw [phase] at sounds
  obtain ⟨-, owed, -⟩ := sounds
  have owned : putBag (w.busy i) = held := by
    rw [put, putBag, elim_some, phase]
    rfl
  have mine : (held : Multiset (AllocatedBuffer H)) ≤ w.bag := by
    refine le_trans ?_ (cell_le_bag w i)
    rw [cell, owned]
    exact le_add_self
  have gauges := perform_gauges performed owed (sound.ledger.object_inj mine)
  have change := bag_put shards busy
  rw [owned] at change
  have entries : w'.sumEntries ObjectMetadata.account = w.sumEntries ObjectMetadata.account := by
    unfold sumEntries
    rw [shards]
  have bytes_change := congrArg bytes change
  rw [map_add, map_add] at bytes_change
  rw [Accounted, after, entries]
  refine add_right_cancel (b := ((bytes (held : Multiset (AllocatedBuffer H)), 0) : BitVec 64 × Account)) ?_
  rw [gauges, x]
  exact congrArg (·, w.sumEntries ObjectMetadata.account + 0) bytes_change.symm

end Sections

/-! Segments have gauges of their own. -/

section Segments
variable [BufferAllocatorBase A H]

theorem mountSegment_gauges (m : SegmentManager) (h : Heap A) (segment : Segment) (client : UUID) :
    (m.mountSegment h segment client).2.1.gauges = h.gauges := by
  obtain ⟨code, -, outcome⟩ | ⟨a, -, outcome⟩ := m.mountSegment_cases h segment client
  · rw [outcome]
  · rw [outcome]
    rfl

theorem reMountSegment_gauges (m : SegmentManager) (h : Heap A) (segments : List Segment) (client : UUID) :
    (m.reMountSegment h client segments).2.1.gauges = h.gauges := by
  refine SegmentManager.reMountSegment_keeps (P := fun _ h' => h'.gauges = h.gauges) client ?_ segments m h rfl
  intro m' h' segment same
  exact (mountSegment_gauges m' h' segment client).trans same

theorem commitAll_gauges (state : SegmentManager × Heap A) (commits : List (UUID × UUID × Nat)) :
    (World.commitAll state commits).2.gauges = state.2.gauges := by
  induction commits generalizing state with
  | nil => rfl
  | cons commit commits ih => exact ih _

variable {p : Params} {w w' : World A H} {e : Event} {r : Reply}

omit [BufferAllocatorBase A H] in
theorem accounted_rehash (x : Accounted w) {i : Fin kNumShards} {t : Shard H}
    (perm : t.entries.Perm (w.shards i).entries) (shards : w'.shards = update w.shards i t)
    (heap : w'.heap = w.heap) (busy : w'.busy = w.busy) : Accounted w' := by
  have moved := sumEntries_change ObjectMetadata.account i (others_update shards)
  rw [shards, update_self, total_perm _ perm] at moved
  have bag : w'.bag = w.bag := by
    refine bag_same_cell i (fun j different => ⟨others_update shards j different, congrFun busy j⟩) ?_
    rw [cell, cell, shards, update_self, total_perm _ perm, busy]
  rw [Accounted, heap, bag, add_right_cancel moved]
  exact x

theorem accounted_store (sound : Sound p w) (x : Accounted w) (act : StoreAct p w e w') : Accounted w' := by
  cases act with
  | still => exact x
  | tick | spawn | plan | close | wake => exact accounted_quiet x rfl rfl rfl
  | rehash i order t perm => exact accounted_rehash x perm rfl rfl rfl
  | request e plain i free out handled => exact accounted_section x free handled rfl rfl rfl
  | move id task task' listed i free out handled => exact accounted_section x free handled rfl rfl rfl
  | sweep order commits next below was free handled => exact accounted_section x free handled rfl rfl rfl
  | reserve key sliceLengths config free out handled =>
    refine accounted_critical x free handled rfl rfl ?_ ?_
    · intro j different
      exact update_of_ne different _ _
    · simp only [setPut, update_self]
      rfl
  | lock i choice task put phase =>
    refine accounted_put x (i := i) rfl rfl rfl ?_
    rw [put, putBag, putBag, elim_some, elim_some, phase]
    rfl
  | call i choice task held op next put phase heap answer performed =>
    exact accounted_call sound x put phase performed rfl rfl rfl
  | unlock i choice task held result put phase =>
    obtain ⟨put', released⟩ := putUnlock_released sound put phase
    exact accounted_put x released.shards released.busy released.heap released.owned
  | insert i choice task replicas put phase => exact accounted_putInsert x put phase

theorem accounted_exec (sound : Sound p w) (x : Accounted w) (done : w.exec p e = some (w', r)) : Accounted w' := by
  cases exec_act done with
  | store e w' r act => exact accounted_store sound x act
  | refuse => exact x
  | ping | begin | prepared | committed | drained | collected | expired => exact accounted_quiet x rfl rfl rfl
  | mounted segment client => exact accounted_quiet x (mountSegment_gauges w.segments w.heap segment client) rfl rfl
  | reMounted segments client was code heap after =>
    subst after
    exact accounted_quiet x (reMountSegment_gauges w.segments w.heap segments client) rfl rfl
  | rejected segments client => exact accounted_quiet x (reMountSegment_gauges w.segments w.heap segments client) rfl rfl
  | finished order commits => exact accounted_quiet x (commitAll_gauges (w.segments, w.heap) commits) rfl rfl

end Segments

end Mooncake.Master
