import Mooncake.Lib.FirstWins
import Mooncake.Client.RoundTrip

/-! What puts leave in the store, when there is space and all transfers succeed. A batch of puts
leaves what the puts of its keys, one after the other, would leave. -/
namespace Mooncake.Client

open List FirstWins
open Master (ErrorCode ReplicaDescriptor ReplicateConfig World kMaxSliceSize)

abbrev Store : Type := String → Option (List UInt8)

variable (config : ReplicateConfig)

def Accepts (key : String) (sliceLengths : List Nat) : Prop :=
  config.replicaNum ≠ 0 ∧ key ≠ "" ∧ sliceLengths ≠ []

instance (config : ReplicateConfig) (key : String) (sliceLengths : List Nat) :
    Decidable (Accepts config key sliceLengths) := inferInstanceAs (Decidable (_ ∧ _))

/-- Some master answers a `PutStart` like this: it finds the key taken or free, and a put that gets
past the first critical section finds space. -/
def StartAnswered (taken : Bool) (key : String) (sliceLengths : List Nat) (reply : StartReply) : Prop :=
  ∃ (A H : Type) (_ : Master.BufferAllocatorBase A H) (p : Master.Params) (w w' : World A H) (answer : Master.Reply),
    (World.findFree w.isValid key (w.shards (p.getShardIndex key))).1 = !taken ∧
      w.putStart p key sliceLengths config = some (w', answer) ∧
      (answer = .replicas reply ∨ answer = .silent ∧ ∃ replicas, reply = .ok replicas)

/-- `BatchPutStart` starts one put after the other. A key that it has started is taken. -/
def BatchAnswered (config : ReplicateConfig) : (String → Bool) → List (String × List Slice) → List StartReply → Prop
  | _, [], replies => replies = []
  | taken, (key, slices) :: rest, replies =>
    ∃ reply later, replies = reply :: later ∧ StartAnswered config (taken key) key (slices.map (·.size)) reply ∧
      BatchAnswered config (if reply.isOk then Function.update taken key true else taken) rest later

theorem StartAnswered.reply_eq {config : ReplicateConfig} {taken : Bool} {key : String} {sliceLengths : List Nat}
    {reply : StartReply} (answered : StartAnswered config taken key sliceLengths reply)
    (small : ∀ n ∈ sliceLengths, n ≤ kMaxSliceSize) :
    (∃ e, reply = .error e ∧ (¬ Accepts config key sliceLengths ∨ taken = true)) ∨
      (∃ replicas, reply = .ok replicas ∧ Accepts config key sliceLengths ∧ taken = false) := by
  obtain ⟨A, H, _, p, w, w', answer, free, done, outcome⟩ := answered
  unfold World.putStart at done
  split at done
  next refused =>
    cases done
    have same : reply = .error .invalidParams := by
      rcases outcome with same | ⟨silent, -⟩
      · exact (Master.Reply.replicas.inj same).symm
      · cases silent
    refine .inl ⟨_, same, .inl ?_⟩
    rintro ⟨several, named, some_slices⟩
    rcases refused with none | unnamed | empty
    · exact several none
    · exact named unnamed
    · exact some_slices empty
  next accepted =>
    have accepts : Accepts config key sliceLengths := by
      obtain ⟨several, rest⟩ := not_or.mp accepted
      exact ⟨several, not_or.mp rest⟩
    split at done
    next large =>
      obtain ⟨n, member, ceased⟩ := any_eq_true.mp large.2
      exact absurd (small n member) (by simpa using ceased)
    next =>
      obtain ⟨⟨after, isFree⟩, section_, same⟩ := Option.map_eq_some_iff.mp done
      have found : isFree = !taken := by
        unfold World.onShard at section_
        split at section_
        · cases section_
        · cases section_
          exact free
      cases taken with
      | true =>
        rw [found] at same
        cases same
        rcases outcome with same | ⟨silent, -⟩
        · exact .inl ⟨_, (Master.Reply.replicas.inj same).symm, .inr rfl⟩
        · cases silent
      | false =>
        rw [found] at same
        cases same
        rcases outcome with same | ⟨-, replicas, same⟩
        · cases same
        · exact .inr ⟨replicas, same, accepts, rfl⟩

namespace PutCall

def keys : PutCall → List String
  | put key _ => [key]
  | batchPut keys _ => keys

def asked (call : PutCall) : List (String × List Slice) := call.keys.zip call.sources

/-- The objects that a call has created: their put was started and is reported as a success. They
have the bytes of their slices in the memory of the client. -/
def created (c : Context) (config : ReplicateConfig) (m : Nat → UInt8) (call : PutCall) :
    List (String × List UInt8) :=
  (call.asked.zip ((call.outcome c config).starts.zip (call.outcome c config).results)).filterMap (fun p =>
    if p.2.1.isOk && p.2.2.isOk then some (p.1.1, gather m p.1.2) else none)

def store (c : Context) (config : ReplicateConfig) (m : Nat → UInt8) (call : PutCall) (s : Store) : Store :=
  (call.created c config m).foldl FirstWins.add s

structure Smooth (c : Context) (config : ReplicateConfig) (s : Store) (call : PutCall) : Prop where
  sound : c.masterClient.Sound
  answered : BatchAnswered config (fun key => (s key).isSome) call.asked (call.outcome c config).starts
  transferred : ∀ (i : Nat) slices replicas, call.sources[i]? = some slices →
    (call.outcome c config).starts[i]? = some (Except.ok replicas) → memoryTransferred c i slices replicas = true
  ended : ∀ key, c.masterClient.putEnd key .memory = .ok ()
  batchEnded : ∀ keys, ∀ result ∈ c.masterClient.batchPutEnd keys, result = .ok ()

end PutCall

def Store.write (m : Nat → UInt8) (s : Store) (asked : String × List Slice) : Store :=
  if Accepts config asked.1 (asked.2.map (·.size)) then FirstWins.add s (asked.1, gather m asked.2) else s

variable {asked : List (String × List Slice)}

/-- What is started, in order, is what the puts one after the other would write. -/
theorem BatchAnswered.created {config : ReplicateConfig} {m : Nat → UInt8} {s : Store}
    {replies : List StartReply}
    (answered : BatchAnswered config (fun key => (s key).isSome) asked replies)
    (small : ∀ p ∈ asked, ∀ slice ∈ p.2, slice.size ≤ kMaxSliceSize) :
    ((asked.zip replies).filterMap (fun p => if p.2.isOk then some (p.1.1, gather m p.1.2) else none)).foldl
      add s = asked.foldl (Store.write config m) s := by
  induction asked generalizing s replies with
  | nil => rfl
  | cons ask rest ih =>
    obtain ⟨key, slices⟩ := ask
    obtain ⟨reply, later, rfl, first, others⟩ := answered
    have smaller := fun p member => small p (mem_cons_of_mem _ member)
    have sizes : ∀ n ∈ slices.map (·.size), n ≤ kMaxSliceSize := by
      intro n member
      obtain ⟨slice, listed, rfl⟩ := mem_map.mp member
      exact small _ mem_cons_self slice listed
    rw [zip_cons_cons, foldl_cons]
    rcases first.reply_eq sizes with ⟨e, rfl, refused⟩ | ⟨replicas, rfl, accepts, free⟩
    · rw [filterMap_cons_none (by rfl)]
      have unchanged : Store.write config m s (key, slices) = s := by
        unfold Store.write
        split
        next accepts =>
          have present := refused.resolve_left (not_not.mpr accepts)
          exact (foldl_add_eq_self [(key, gather m slices)] s).mpr (fun e member => by
            cases mem_singleton.mp member
            exact Option.isSome_iff_ne_none.mp present)
        · rfl
      rw [unchanged]
      exact ih others smaller
    · rw [filterMap_cons_some (by rfl), foldl_cons]
      have written : Store.write config m s (key, slices) = add s (key, gather m slices) := if_pos accepts
      rw [written]
      refine ih ?_ smaller
      rw [isSome_add]
      exact others

section
variable {c : Context} {config : ReplicateConfig}

variable {replicas : List ReplicaDescriptor} {call : PutCall} {s : Store} {slices : List Slice}

theorem transferWrites_of_transferred (transferred : memoryTransferred c 0 slices replicas = true) :
    (transferWrites c slices replicas).1 = .ok := by
  induction replicas with
  | nil => rfl
  | cons replica rest ih =>
    obtain ⟨here, later⟩ :
        (!replica.isMemoryReplica || futureOk (c.transferSubmitter.submit 0 replica slices .write)) = true ∧
        memoryTransferred c 0 slices rest = true := by
      simpa only [memoryTransferred, all_cons, Bool.and_eq_true] using transferred
    unfold transferWrites
    cases memory : replica.isMemoryReplica with
    | false => simpa using ih later
    | true =>
      cases submitted : c.transferSubmitter.submit 0 replica slices .write with
      | none => simp [memory, submitted, futureOk] at here
      | some future =>
        have fine : future.result = .ok := by simpa [memory, submitted, futureOk] using here
        simpa [fine] using ih later

theorem PutCall.Smooth.succeeds (smooth : call.Smooth c config s) (paired : call.Paired)
    (plain : config.preferAllocInSameNode = false) {i : Nat} (source : call.sources[i]? = some slices)
    (started : (call.outcome c config).starts[i]? = some (Except.ok replicas)) :
    (call.outcome c config).results[i]? = some (Except.ok ()) := by
  have transferred := smooth.transferred i slices replicas source started
  cases call with
  | put key src =>
    obtain ⟨zero, same⟩ := List.getElem?_eq_some_iff.mp source
    have first : i = 0 := Nat.lt_one_iff.mp zero
    subst first
    cases same
    rw [outcome, put_starts] at started
    have start := Option.some.inj started
    have fine : (transferWrites c src replicas).1 = .ok := transferWrites_of_transferred transferred
    rw [outcome, Client.put]
    simp only [start, if_pos fine, smooth.ended, getElem?_cons_zero]
  | batchPut keys batchedSlices =>
    have pairs : batchedSlices.length = keys.length := paired
    have keyed : i < keys.length := pairs ▸ (List.getElem?_eq_some_iff.mp source).1
    rw [outcome, batchPut_results c smooth.sound config pairs (by simp [plain])]
    refine .inr ?_
    rw [outcome, batchPut_normal c config plain] at started
    have verdict : (verdictsOf c keys batchedSlices config)[i]? = some (some true) := by
      have zipped : ((startsOf c keys batchedSlices config).zip batchedSlices)[i]? =
          some (.ok replicas, slices) := getElem?_zip_eq_some.mpr ⟨started, source⟩
      simp [verdictsOf, plain, zipped, Except.toOption, transferred]
    have due : (i, keys[i]) ∈ keysWith true keys (verdictsOf c keys batchedSlices config) :=
      mem_keysWith.mpr ⟨getElem?_eq_getElem keyed, verdict⟩
    obtain ⟨a, below, at_a⟩ := getElem_of_mem due
    have size := smooth.sound.endSize ((keysWith true keys (verdictsOf c keys batchedSlices config)).map Prod.snd)
    rw [length_map] at size
    have ended := smooth.batchEnded _ _ (getElem_mem (size.symm ▸ below))
    refine mem_of_getElem? (i := a) (getElem?_zip_eq_some.mpr ⟨?_, ?_⟩)
    · rw [getElem?_map, getElem?_eq_some_iff.mpr ⟨below, at_a⟩]
      rfl
    · rw [getElem?_eq_getElem (size.symm ▸ below), ended]

theorem BatchAnswered.length_eq {taken : String → Bool}
    {replies : List StartReply} (answered : BatchAnswered config taken asked replies) :
    replies.length = asked.length := by
  induction asked generalizing taken replies with
  | nil => rw [answered]; rfl
  | cons ask rest ih =>
    obtain ⟨reply, later, rfl, -, others⟩ := answered
    exact congrArg (· + 1) (ih others)

theorem PutCall.Smooth.length_results (smooth : call.Smooth c config s) (paired : call.Paired)
    (plain : config.preferAllocInSameNode = false) : (call.outcome c config).results.length = call.asked.length := by
  cases call with
  | put key src =>
    rw [outcome, Client.put]
    simp only
    split
    · rfl
    · split
      · rfl
      · rfl
  | batchPut keys batchedSlices =>
    have pairs : batchedSlices.length = keys.length := paired
    have started := startedOps_length c smooth.sound config pairs
    rw [outcome, batchPut_normal c config plain]
    simp [collectResults, finalizeBatchPut, normalOps, started, asked, PutCall.keys, sources, pairs]

theorem PutCall.Smooth.store_eq (smooth : call.Smooth c config s) (paired : call.Paired)
    (plain : config.preferAllocInSameNode = false) (m : Nat → UInt8)
    (small : ∀ p ∈ call.asked, ∀ slice ∈ p.2, slice.size ≤ kMaxSliceSize) :
    call.store c config m s = call.asked.foldl (Store.write config m) s := by
  rw [← smooth.answered.created small, PutCall.store]
  congr 1
  have starts := smooth.answered.length_eq
  have results := smooth.length_results paired plain
  have zipped : call.asked.zip (call.outcome c config).starts =
      (call.asked.zip ((call.outcome c config).starts.zip (call.outcome c config).results)).map (fun p => (p.1, p.2.1)) :=
    ext_getElem (by simp [starts, results]) (fun i _ _ => by simp)
  rw [zipped, filterMap_map, PutCall.created]
  refine filterMap_congr (fun p member => ?_)
  obtain ⟨i, at_i⟩ := mem_iff_getElem?.mp member
  obtain ⟨askedAt, answersAt⟩ := getElem?_zip_eq_some.mp at_i
  obtain ⟨startAt, resultAt⟩ := getElem?_zip_eq_some.mp answersAt
  have source := (getElem?_zip_eq_some.mp askedAt).2
  cases start : p.2.1 with
  | error e => simp [start, Except.isOk, Except.toBool]
  | ok replicas =>
    rw [start] at startAt
    have fine := Option.some.inj (resultAt.symm.trans (smooth.succeeds paired plain source startAt))
    simp [start, fine, Except.isOk, Except.toBool]

end

end Mooncake.Client
