import Mooncake.Ha.Leases
import Mooncake.Ha.Standby

/-! At most one master serves. A leader waits for the time to live of a lease before it starts its server,
and by then the leader before it has stopped its own. -/
namespace Mooncake.Ha

open Option
variable {ι T : Type} [AddCommGroup T] [LinearOrder T] {timing : Timing T} {e e' : Etcd T}

/-- A supervisor that has been elected: its key was created before that, and since its lease ended it has not
had more time than it may have. -/
structure Leader.Ok (timing : Timing T) (e : Etcd T) (l : Leader T) : Prop where
  elected : ∃ c ≤ l.returned, e.created l.lease = some (l.version, c)
  past : l.returned ≤ e.now
  stopped : l.keeper = .finished → l.server ≠ .fresh ∧ l.server ≠ .serving
  waited : l.server = .serving → l.returned + timing.ttl ≤ e.now
  inTime : l.keeper ≠ .finished → ∀ t, e.leases l.lease = .ended t → e.now ≤ max t l.returned + timing.delay

def Phase.Ok (timing : Timing T) (e : Etcd T) : Phase T → Prop
  | .granted lease => lease < e.nextLease
  | .creating lease answer => lease < e.nextLease ∧ ∀ v, answer = some (some v) → ∃ c ≤ e.now, e.created lease = some (v, c)
  | .leader l => l.Ok timing e
  | _ => True

def Phase.Begun : Phase T → Prop
  | .leader l => l.server ≠ .fresh ∧ l.server ≠ .stopped
  | _ => False

variable {l : Leader T} {φ : Phase T}

theorem Phase.Ok.lease_lt (ok : e.Ok) (fine : φ.Ok timing e) {lease : Nat} (held : φ.lease = some lease) :
    lease < e.nextLease := by
  cases φ with
  | granted => cases held; exact fine
  | creating => cases held; exact fine.1
  | leader l =>
    cases held
    obtain ⟨c, -, created⟩ := fine.elected
    exact (ok.known _ _ _ created).2.2
  | _ => cases held

theorem Phase.Ok.pass (fine : φ.Ok timing e) {time : T} (later : e.now ≤ time)
    (limit : ∀ t ∈ e.deadline timing φ, time ≤ t) : φ.Ok timing { e with now := time } := by
  cases φ with
  | creating lease answer =>
    refine ⟨fine.1, fun v answered => ?_⟩
    obtain ⟨c, past, created⟩ := fine.2 v answered
    exact ⟨c, past.trans later, created⟩
  | leader l =>
    have fine : l.Ok timing e := fine
    refine ⟨fine.elected, fine.past.trans later, fine.stopped, fun serving => (fine.waited serving).trans later,
      fun runs t ended => ?_⟩
    refine limit _ ?_
    simp only [Etcd.deadline, show e.leases l.lease = .ended t from ended]
    cases keeper : l.keeper with
    | finished => exact absurd keeper runs
    | keeping => rfl
    | returned => rfl
  | _ => exact fine

/-- A supervisor goes on with the lease that it has, or drops it. -/
structure Phase.Goes (timing : Timing T) (e : Etcd T) (φ φ' : Phase T) : Prop where
  fine : φ'.Ok timing e
  lease : φ'.lease = none ∨ φ'.lease = φ.lease ∧ (φ.Begun → φ'.Begun)

theorem Leader.Ok.goes {l' : Leader T} (fine : l'.Ok timing e) (lease : l'.lease = l.lease)
    (begun : Phase.Begun (.leader l) → Phase.Begun (.leader l')) : Phase.Goes timing e (.leader l) (.leader l') :=
  ⟨fine, .inr ⟨congrArg some lease, begun⟩⟩

theorem Leader.Ok.follows [IsOrderedAddMonoid T] (fine : l.Ok timing e) (follows : e.Follows e') :
    l.Ok timing e' := by
  obtain ⟨c, before, created⟩ := fine.elected
  refine ⟨⟨c, before, follows.created _ _ created⟩, follows.now ▸ fine.past, fine.stopped,
    fun serving => follows.now ▸ fine.waited serving,
    fun runs t ended => ?_⟩
  rw [follows.now]
  rcases follows.ended _ t ended with before | rfl
  · exact fine.inTime runs t before
  · exact (le_max_left _ _).trans (le_add_of_nonneg_right timing.nonneg)

theorem Phase.Ok.follows [IsOrderedAddMonoid T] (fine : φ.Ok timing e) (follows : e.Follows e') : φ.Ok timing e' := by
  cases φ with
  | granted => exact Nat.lt_of_lt_of_le fine follows.nextLease
  | creating lease answer =>
    refine ⟨Nat.lt_of_lt_of_le fine.1 follows.nextLease, fun v answered => ?_⟩
    obtain ⟨c, past, created⟩ := fine.2 v answered
    exact ⟨c, follows.now ▸ past, follows.created _ _ created⟩
  | leader l => exact Leader.Ok.follows fine follows
  | _ => trivial

theorem leader_goes_stop (fine : l.Ok timing e) :
    Phase.Goes timing e (.leader l) (.leader { l with keeper := .finished, server := l.server.stop }) := by
  have stopped : l.server.stop ≠ .fresh ∧ l.server.stop ≠ .serving := by cases l.server <;> decide
  refine Leader.Ok.goes ⟨fine.elected, fine.past, fun _ => stopped, fun serving => absurd serving stopped.2,
    fun runs => absurd rfl runs⟩ rfl ?_
  rintro ⟨started, running⟩
  refine ⟨stopped.1, ?_⟩
  show l.server.stop ≠ .stopped
  cases server : l.server with
  | fresh => exact absurd server started
  | stopped => exact absurd server running
  | _ => exact fun wrong => nomatch wrong

theorem leader_goes_start {fails : Bool} {server : Server} (fine : l.Ok timing e)
    (waited : l.returned + timing.ttl ≤ e.now) (starts : l.server.start fails = some server) :
    Phase.Goes timing e (.leader l) (.leader { l with server := server }) := by
  have begun : server ≠ .fresh ∧ server ≠ .stopped := by
    unfold Server.start at starts
    split at starts
    · cases starts
      split <;> decide
    · cases starts
      decide
    · cases starts
  have runs : server = .serving → l.keeper ≠ .finished := by
    rintro rfl finished
    cases old : l.server with
    | fresh => exact (fine.stopped finished).1 old
    | _ => rw [old] at starts; cases starts
  exact Leader.Ok.goes ⟨fine.elected, fine.past, fun finished => ⟨begun.1, fun serving => runs serving finished⟩,
    fun _ => waited, fine.inTime⟩ rfl (fun _ => begun)

theorem next_goes [IsOrderedAddMonoid T] {action : Action} {φ' : Phase T} (fine : φ.Ok timing e)
    (other : action ≠ .grant false) (next : Phase.next timing e action φ = some φ') : Phase.Goes timing e φ φ' := by
  unfold Phase.next at next
  split at next
  case h_1 =>
    cases next
    split
    · exact ⟨trivial, .inl rfl⟩
    · split <;> exact ⟨trivial, .inl rfl⟩
  case h_2 =>
    cases next
    split <;> exact ⟨trivial, .inl rfl⟩
  case h_3 | h_4 | h_5 | h_9 | h_10 | h_11 =>
    cases next
    exact ⟨trivial, .inl rfl⟩
  case h_6 fails =>
    cases fails with
    | false => exact absurd rfl other
    | true =>
      cases next
      exact ⟨trivial, .inl rfl⟩
  case h_7 lease =>
    cases next
    exact ⟨⟨fine, fun _ wrong => (nomatch wrong)⟩, .inr ⟨rfl, fun wrong => wrong.elim⟩⟩
  case h_8 lease version =>
    cases next
    obtain ⟨c, past, created⟩ := fine.2 version rfl
    refine ⟨⟨⟨c, past, created⟩, le_refl _, fun wrong => (nomatch wrong), fun wrong => (nomatch wrong), fun _ t _ => ?_⟩,
      .inr ⟨rfl, fun wrong => wrong.elim⟩⟩
    exact (le_max_right _ _).trans (le_add_of_nonneg_right timing.nonneg)
  case h_12 l =>
    have fine : l.Ok timing e := fine
    split at next
    next keeps =>
      cases next
      have runs : l.keeper ≠ .finished := by
        rw [keeps]
        decide
      exact Leader.Ok.goes ⟨fine.elected, fine.past, fun wrong => (nomatch wrong), fine.waited,
        fun _ => fine.inTime runs⟩ rfl
        (fun begun => begun)
    · cases next
  case h_13 l =>
    split at next
    · cases next
      exact leader_goes_stop fine
    · cases next
  case h_14 fails l =>
    split at next
    next waited =>
      obtain ⟨server, starts, rfl⟩ := map_eq_some_iff.mp next
      exact leader_goes_start fine waited starts
    · cases next
  case h_15 l =>
    have fine : l.Ok timing e := fine
    split at next
    · cases next
      exact Leader.Ok.goes ⟨fine.elected, fine.past, fun _ => ⟨Server.noConfusion, Server.noConfusion⟩,
        fun wrong => (nomatch wrong), fine.inTime⟩ rfl (fun _ => ⟨Server.noConfusion, Server.noConfusion⟩)
    · cases next
  case h_16 =>
    unfold Phase.join at next
    split at next
    · cases next
      exact ⟨trivial, .inl rfl⟩
    · cases next
      exact ⟨trivial, .inl rfl⟩
    · cases next
  case h_17 => cases next

/-- A leader that could serve now, and one whose key was created more than the waiting time ago: the key of the
leader is the newer one. -/
theorem Leader.Ok.newer [IsOrderedAddMonoid T] (ok : e.Ok) (fine : l.Ok timing e) (runs : l.keeper ≠ .finished)
    (waited : l.returned + timing.ttl ≤ e.now) {lease v : Nat} {c : T} (created : e.created lease = some (v, c))
    (other : lease ≠ l.lease) (old : c + timing.ttl ≤ e.now) : v < l.version := by
  obtain ⟨c', -, created'⟩ := fine.elected
  obtain ⟨different, before⟩ := ok.successive _ _ _ _ _ _ created' created other.symm
  refine (Nat.lt_or_gt_of_ne different).resolve_left (fun less => ?_)
  obtain ⟨t, early, ended⟩ := before less
  have limit := fine.inTime runs t ended
  rcases max_cases t l.returned with ⟨same, -⟩ | ⟨same, -⟩
  · have late : e.now < c + timing.ttl := calc
      e.now ≤ t + timing.delay := same ▸ limit
      _ ≤ c + timing.delay := by gcongr
      _ < c + timing.ttl := by gcongr; exact timing.short
    exact absurd old (not_le.mpr late)
  · have late : e.now < l.returned + timing.ttl := calc
      e.now ≤ l.returned + timing.delay := same ▸ limit
      _ < l.returned + timing.ttl := by gcongr; exact timing.short
    exact absurd waited (not_le.mpr late)

/-! ## All supervisors -/

/-- Every supervisor is in order, no two have the same lease, and those that have begun to serve did so in the
order of their versions. -/
structure State.Inv (timing : Timing T) (s : State ι T) : Prop where
  etcd : s.etcd.Ok
  requests : ∀ r ∈ s.requests, r.2 < s.etcd.nextLease
  phases : ∀ p, (s.phase p).Ok timing s.etcd
  own : ∀ p q lease, (s.phase p).lease = some lease → (s.phase q).lease = some lease → p = q
  served : ∀ m ∈ s.served, (∃ c, s.etcd.created m.2 = some (m.1, c) ∧ c + timing.ttl ≤ s.etcd.now) ∧
    ∀ p, (s.phase p).lease = some m.2 → (s.phase p).Begun
  ordered : s.served.Pairwise (fun later earlier => earlier.1 < later.1)

namespace State
variable {s s' : State ι T}

theorem Inv.follows [IsOrderedAddMonoid T] (inv : s.Inv timing) {etcd : Etcd T} (ok : etcd.Ok)
    (follows : s.etcd.Follows etcd) : Inv timing { s with etcd := etcd } := by
  refine ⟨ok, fun r member => Nat.lt_of_lt_of_le (inv.requests r member) follows.nextLease,
    fun p => (inv.phases p).follows follows,
    inv.own, fun m member => ?_, inv.ordered⟩
  obtain ⟨⟨c, created, old⟩, begun⟩ := inv.served m member
  exact ⟨⟨c, follows.created _ _ created, by rw [follows.now]; exact old⟩, begun⟩

theorem Inv.ofRequests (inv : s.Inv timing) {requests : List (ι × Nat)}
    (known : ∀ r ∈ requests, r.2 < s.etcd.nextLease) :
    Inv timing { s with requests := requests } := ⟨inv.etcd, known, inv.phases, inv.own, inv.served, inv.ordered⟩

theorem Inv.notify (inv : s.Inv timing) (event : WatchEvent) : (s.notify event).Inv timing := by
  have phase : ∀ p, ((s.notify event).phase p).lease = (s.phase p).lease ∧
      ((s.notify event).phase p).Ok timing s.etcd ∧ ((s.phase p).Begun → ((s.notify event).phase p).Begun) := by
    intro p
    have fine := inv.phases p
    simp only [State.notify]
    cases φ : s.phase p with
    | watching pending => exact ⟨rfl, trivial, fun wrong => wrong.elim⟩
    | _ => rw [φ] at fine; exact ⟨rfl, fine, fun begun => begun⟩
  refine ⟨inv.etcd, inv.requests, fun p => (phase p).2.1, fun p q lease held held' => ?_, fun m member => ?_, inv.ordered⟩
  · rw [(phase p).1] at held
    rw [(phase q).1] at held'
    exact inv.own p q lease held held'
  · obtain ⟨created, begun⟩ := inv.served m member
    refine ⟨created, fun p held => (phase p).2.2 (begun p ?_)⟩
    rwa [(phase p).1] at held

theorem inv_start : (start : State ι T).Inv timing :=
  ⟨Etcd.ok_start, fun _ none => (nomatch none), fun _ => trivial, fun _ _ _ none => (nomatch none),
    fun _ none => (nomatch none), .nil⟩

theorem Inv.endLease [IsOrderedAddMonoid T] (inv : s.Inv timing) {lease : Nat} {expiry : T}
    (alive : s.etcd.leases lease = .live expiry) : (s.endLease lease).Inv timing := by
  have ended := inv.follows (inv.etcd.endLease alive) (Etcd.follows_endLease s.etcd lease)
  unfold State.endLease
  simp only
  split
  · exact ended.notify .delete
  · exact ended

theorem Inv.pass {duration : T} [IsOrderedAddMonoid T] (inv : s.Inv timing) (forth : 0 ≤ duration)
    (may : s.MayPass timing (s.etcd.now + duration)) :
    Inv timing { s with etcd := { s.etcd with now := s.etcd.now + duration } } := by
  have later : s.etcd.now ≤ s.etcd.now + duration := le_add_of_nonneg_right forth
  refine ⟨inv.etcd.pass later, inv.requests, fun p => (inv.phases p).pass later (may.2 p), inv.own,
    fun m member => ?_, inv.ordered⟩
  obtain ⟨⟨c, created, old⟩, begun⟩ := inv.served m member
  exact ⟨⟨c, created, old.trans later⟩, begun⟩

theorem Inv.serving_unique [IsOrderedAddMonoid T] (inv : s.Inv timing) {p q : ι} (left : s.Serving p)
    (right : s.Serving q) : p = q := by
  obtain ⟨l, leads, serves⟩ := left
  obtain ⟨l', leads', serves'⟩ := right
  have fine : l.Ok timing s.etcd := by
    have here := inv.phases p
    rwa [leads] at here
  have fine' : l'.Ok timing s.etcd := by
    have here := inv.phases q
    rwa [leads'] at here
  by_contra different
  have leases : l.lease ≠ l'.lease := fun same =>
    different (inv.own p q l.lease (by rw [leads]; rfl) (by rw [leads', same]; rfl))
  have runs : ∀ {l : Leader T}, l.Ok timing s.etcd → l.server = .serving → l.keeper ≠ .finished :=
    fun fine serves finished => (fine.stopped finished).2 serves
  have old : ∀ {l : Leader T}, l.Ok timing s.etcd → l.server = .serving →
      ∃ c, s.etcd.created l.lease = some (l.version, c) ∧ c + timing.ttl ≤ s.etcd.now := by
    intro l fine serves
    obtain ⟨c, early, created⟩ := fine.elected
    exact ⟨c, created, (add_le_add_left early _).trans (fine.waited serves)⟩
  obtain ⟨c, created, early⟩ := old fine serves
  obtain ⟨c', created', early'⟩ := old fine' serves'
  have less := fine.newer inv.etcd (runs fine serves) (fine.waited serves) created' leases.symm early'
  have more := fine'.newer inv.etcd (runs fine' serves') (fine'.waited serves') created leases early
  exact Nat.lt_asymm less more

variable [DecidableEq ι]

theorem Inv.enter (inv : s.Inv timing) {p : ι} {φ : Phase T} (goes : Phase.Goes timing s.etcd (s.phase p) φ) :
    (s.enter p φ).Inv timing := by
  have held : ∀ q lease, ((s.enter p φ).phase q).lease = some lease → (s.phase q).lease = some lease ∧
      ((s.phase q).Begun → ((s.enter p φ).phase q).Begun) := by
    intro q lease holds
    rw [phase_enter] at holds ⊢
    split at holds
    next same =>
      rcases goes.lease with none | ⟨kept, begun⟩
      · rw [none] at holds
        cases holds
      · rw [if_pos same, same]
        exact ⟨kept.symm.trans holds, begun⟩
    next other =>
      rw [if_neg other]
      exact ⟨holds, fun begun => begun⟩
  refine ⟨inv.etcd, inv.requests, fun q => ?_, fun q r lease left right => ?_, fun m member => ?_, inv.ordered⟩
  · rw [phase_enter]
    split
    · exact goes.fine
    · exact inv.phases q
  · exact inv.own q r lease (held q lease left).1 (held r lease right).1
  · obtain ⟨created, begun⟩ := inv.served m member
    exact ⟨created, fun q holds => (held q _ holds).2 (begun q (held q _ holds).1)⟩

theorem Inv.grant [IsOrderedAddMonoid T] (inv : s.Inv timing) (p : ι) :
    Inv timing { s.enter p (.granted s.etcd.nextLease) with etcd := s.etcd.grantLease timing } := by
  have next : s.etcd.Follows (s.etcd.grantLease timing) := Etcd.follows_grantLease
  have before : ∀ q lease, (s.phase q).lease = some lease → lease ≠ s.etcd.nextLease := fun q lease held =>
    Nat.ne_of_lt ((inv.phases q).lease_lt inv.etcd held)
  refine ⟨inv.etcd.grantLease, fun r member => Nat.lt_succ_of_lt (inv.requests r member), fun q => ?_,
    fun q r lease left right => ?_,
    fun m member => ?_, inv.ordered⟩
  · show ((s.enter p _).phase q).Ok timing _
    rw [phase_enter]
    split
    · exact Nat.lt_succ_self _
    · exact (inv.phases q).follows next
  · have left : ((s.enter p _).phase q).lease = some lease := left
    have right : ((s.enter p _).phase r).lease = some lease := right
    rw [phase_enter] at left right
    split at left
    next atQ =>
      cases left
      split at right
      next atR => rw [atQ, atR]
      next => exact absurd rfl (before r _ right)
    next =>
      split at right
      next => cases right; exact absurd rfl (before q _ left)
      next => exact inv.own q r lease left right
  · obtain ⟨⟨c, created, old⟩, begun⟩ := inv.served m member
    refine ⟨⟨c, created, old⟩, fun q held => ?_⟩
    have held : ((s.enter p _).phase q).lease = some m.2 := held
    show ((s.enter p _).phase q).Begun
    rw [phase_enter] at held ⊢
    split at held
    · rw [← some.inj held] at created
      exact absurd (inv.etcd.known _ _ _ created).2.2 (Nat.lt_irrefl _)
    next other =>
      rw [if_neg other]
      exact begun q held

theorem Inv.serve [IsOrderedAddMonoid T] (inv : s.Inv timing) {p : ι} {l : Leader T}
    (leads : s.phase p = .leader l) (fresh : l.server = .fresh)
    (waited : l.returned + timing.ttl ≤ s.etcd.now) :
    Inv timing { s.enter p (.leader { l with server := .serving }) with served := (l.version, l.lease) :: s.served } := by
  have fine : l.Ok timing s.etcd := by
    have here := inv.phases p
    rwa [leads] at here
  have goes : Phase.Goes timing s.etcd (s.phase p) (.leader { l with server := .serving }) := by
    have starts : l.server.start false = some .serving := by
      rw [fresh]
      rfl
    rw [leads]
    exact leader_goes_start fine waited starts
  have entered := inv.enter goes
  have runs : l.keeper ≠ .finished := fun finished => (fine.stopped finished).1 fresh
  refine ⟨entered.etcd, entered.requests, entered.phases, entered.own, fun m member => ?_, ?_⟩
  · rcases List.mem_cons.mp member with rfl | before
    · obtain ⟨c, early, created⟩ := fine.elected
      refine ⟨⟨c, created, (add_le_add_left early _).trans waited⟩, fun q held => ?_⟩
      have here : ((s.enter p (.leader { l with server := .serving })).phase p).lease = some l.lease := by
        rw [phase_enter, if_pos rfl]
        rfl
      have same := entered.own q p l.lease held here
      show ((s.enter p _).phase q).Begun
      rw [phase_enter, if_pos same]
      exact ⟨Server.noConfusion, Server.noConfusion⟩
    · exact entered.served m before
  · refine List.pairwise_cons.mpr ⟨fun m member => ?_, inv.ordered⟩
    obtain ⟨⟨c, created, old⟩, begun⟩ := inv.served m member
    refine fine.newer inv.etcd runs waited created (fun same => ?_) old
    have started := begun p (by rw [leads, same]; rfl)
    rw [leads] at started
    exact started.1 fresh

/-- Only a leader starts its server, and only after the waiting time. -/
theorem next_start {e : Etcd T} {fails : Bool} {φ φ' : Phase T}
    (next : Phase.next timing e (.start fails) φ = some φ') :
    ∃ l server, φ = .leader l ∧ l.returned + timing.ttl ≤ e.now ∧ l.server.start fails = some server ∧
      φ' = .leader { l with server := server } := by
  cases φ with
  | leader l =>
    simp only [Phase.next] at next
    split at next
    next waited =>
      obtain ⟨server, starts, same⟩ := map_eq_some_iff.mp next
      exact ⟨l, server, rfl, waited, starts, same.symm⟩
    · cases next
  | _ => cases next

theorem next_grant {e : Etcd T} {fails : Bool} {φ φ' : Phase T}
    (next : Phase.next timing e (.grant fails) φ = some φ') :
    φ' = if fails then .sleeping else .granted e.nextLease := by
  cases φ with
  | grant => exact (some.inj next).symm
  | _ => cases next

theorem Inv.act [IsOrderedAddMonoid T] {p : ι} {action : Action} (inv : s.Inv timing)
    (step : s.act timing p action = some s') : s'.Inv timing := by
  obtain ⟨φ, next, rfl⟩ := map_eq_some_iff.mp step
  by_cases grants : action = .grant false
  · subst grants
    cases next_grant next
    exact inv.grant p
  have goes := next_goes (inv.phases p) grants next
  have entered := inv.enter goes
  unfold State.effect
  split
  next fails lease =>
    cases fails with
    | false => exact absurd rfl grants
    | true => cases next_grant next
  next lease answer =>
    refine entered.ofRequests (fun r member => ?_)
    rcases List.mem_cons.mp member with rfl | before
    · exact goes.fine.1
    · exact inv.requests r before
  next fails l' =>
    split
    next serves =>
      obtain ⟨l, server, leads, waited, starts, same⟩ := next_start next
      cases same
      have serves : server = .serving := serves
      subst serves
      have fresh : l.server = .fresh := by
        cases old : l.server with
        | fresh => rfl
        | _ => rw [old] at starts; cases starts
      exact inv.serve leads fresh waited
    · exact entered
  · exact entered

theorem Inv.answer (inv : s.Inv timing) (p : ι) (lease : Nat) {result : Option Nat}
    (known : ∀ v, result = some v → ∃ c ≤ s.etcd.now, s.etcd.created lease = some (v, c)) :
    (s.answer p lease result).Inv timing := by
  unfold State.answer
  split
  next waits =>
    refine inv.enter ⟨⟨?_, fun v answered => known v (some.inj answered)⟩, .inr ⟨?_, ?_⟩⟩
    · have fine := inv.phases p
      rw [waits] at fine
      exact fine.1
    · rw [waits]
      rfl
    · rw [waits]
      exact fun wrong => wrong.elim
  · exact inv

theorem Inv.commit [IsOrderedAddMonoid T] (inv : s.Inv timing) {p : ι} {lease : Nat}
    (sent : (p, lease) ∈ s.requests) : (s.commit p lease).Inv timing := by
  have rest : Inv timing { s with requests := s.requests.erase (p, lease) } :=
    inv.ofRequests (fun r member => inv.requests r (List.mem_of_mem_erase member))
  unfold State.commit
  simp only
  split
  · exact rest.answer p lease (fun _ wrong => nomatch wrong)
  next etcd done =>
    have follows := Etcd.follows_createWithLease inv.etcd done
    have ok := inv.etcd.createWithLease (inv.requests _ sent) done
    refine ((rest.follows ok follows).notify .put).answer p lease (fun v same => ?_)
    cases same
    obtain ⟨-, -, rfl⟩ := createWithLease_eq done
    exact ⟨s.etcd.now, le_refl _, Function.update_self _ _ _⟩

variable [Fintype ι]

theorem Inv.step [IsOrderedAddMonoid T] {event : Event ι T} (inv : s.Inv timing)
    (step : s.step timing event = some s') : s'.Inv timing := by
  cases event with
  | act p action => exact inv.act step
  | commit p lease =>
    simp only [State.step] at step
    split at step
    next sent =>
      cases step
      exact inv.commit sent
    · cases step
  | renew lease =>
    cases step
    exact inv.follows (inv.etcd.renew lease) (Etcd.follows_renew lease)
  | endLease lease =>
    simp only [State.step] at step
    split at step
    next alive =>
      cases step
      exact inv.endLease alive
    · cases step
  | write =>
    cases step
    exact inv.follows inv.etcd.write (Etcd.follows_write s.etcd)
  | pass duration =>
    simp only [State.step] at step
    split at step
    next may =>
      cases step
      exact inv.pass may.1 may.2
    · cases step

/-- In every state of every run of any number of supervisors, at most one of them serves, and each of those that
have served had a greater version than those before it. -/
theorem one_master_serves [IsOrderedAddMonoid T] (timing : Timing T) {events : List (Event ι T)}
    (run : Run.run (State.step timing) start events = some s) :
    (∀ p q, s.Serving p → s.Serving q → p = q) ∧ s.served.Pairwise (fun later earlier => earlier.1 < later.1) := by
  have inv : s.Inv timing := Run.invariant (fun _ _ _ inv step => inv.step step) inv_start run
  exact ⟨fun _ _ left right => inv.serving_unique left right, inv.ordered⟩

/-- Two supervisors that both take themselves for the leader have different versions, and when the one with the
greater version was elected the lease of the other had ended. -/
theorem leaders_succeed [IsOrderedAddMonoid T] (timing : Timing T) {events : List (Event ι T)}
    (run : Run.run (State.step timing) start events = some s) {p q : ι} {l l' : Leader T} (different : p ≠ q)
    (first : s.phase p = .leader l) (second : s.phase q = .leader l') :
    l.version ≠ l'.version ∧ (l.version < l'.version → ∃ t ≤ l'.returned, s.etcd.leases l.lease = .ended t) := by
  have inv : s.Inv timing := Run.invariant (fun _ _ _ inv step => inv.step step) inv_start run
  have elder := first ▸ inv.phases p
  have younger := second ▸ inv.phases q
  obtain ⟨c, -, created⟩ := elder.elected
  obtain ⟨c', before, created'⟩ := younger.elected
  have leases : l.lease ≠ l'.lease := fun same =>
    different (inv.own p q l.lease (congrArg Phase.lease first) (same ▸ congrArg Phase.lease second))
  obtain ⟨versions, ended⟩ := inv.etcd.successive _ _ _ _ _ _ created created' leases
  refine ⟨versions, fun older => ?_⟩
  obtain ⟨t, early, gone⟩ := ended older
  exact ⟨t, early.trans before, gone⟩

end State

namespace Sample

def takesOver : List (Event Bool Int) :=
  elect false 0 ++ [.pass 5, .renew 0, .act false (.start false), .pass 5, .endLease 0, .pass 1,
    .act false .keepAliveReturns,
    .act false .stop] ++ elect true 1 ++ [.pass 5, .renew 1, .act true (.start false)]

end Sample

open Sample in
theorem one_master_after_takeover :
    (∀ s, Run.run (State.step Sample.timing) State.start takesOver = some s → ∀ p q, s.Serving p → s.Serving q → p = q) ∧
      (Run.run (State.step Sample.timing) State.start takesOver).map (fun s => s.served) = some [(4, 1), (2, 0)] := by
  refine ⟨fun s run => (State.one_master_serves Sample.timing run).1, ?_⟩
  decide +kernel

open Sample in
theorem leaders_succeed_after_expiry : ∃ s l l',
    Run.run (State.step Sample.timing) State.start (elect false 0 ++ [.pass 5, .endLease 0] ++ elect true 1) = some s ∧
      s.phase false = .leader l ∧ s.phase true = .leader l' ∧ ∃ t ≤ l'.returned, s.etcd.leases l.lease = .ended t := by
  have run : Run.run (State.step Sample.timing) State.start
    (elect false 0 ++ [.pass 5, .endLease 0] ++ elect true 1) = some _ := rfl
  exact ⟨_, _, _, run, rfl, rfl, (State.leaders_succeed _ run Bool.false_ne_true rfl rfl).2 (by decide)⟩

end Mooncake.Ha
