import Mooncake.Ha.Election

/-! The history of the key and of the leases. The key is created only after the lease of the creation before
has ended. -/
namespace Mooncake.Ha

open Function Function
variable {T : Type}

/-- What the history of the key says of the leases: of two creations, the lease of the earlier one had ended
by the time of the later one. -/
structure Etcd.Ok [LinearOrder T] (e : Etcd T) : Prop where
  key : ∀ kv, e.key = some kv → ∃ c, e.created kv.lease = some (kv.revision, c)
  known : ∀ lease v c, e.created lease = some (v, c) → v ≤ e.revision ∧ c ≤ e.now ∧ lease < e.nextLease
  ends : ∀ lease v c, e.created lease = some (v, c) →
    (e.key = some ⟨v, lease⟩ ∧ ∃ expiry, e.leases lease = .live expiry) ∨ ∃ t ≤ e.now, e.leases lease = .ended t
  successive : ∀ lease v c lease' v' c', e.created lease = some (v, c) → e.created lease' = some (v', c') →
    lease ≠ lease' → v ≠ v' ∧ (v < v' → ∃ t ≤ c', e.leases lease = .ended t)

/-- What the supervisors rely on while no time passes: creations stay, and a lease that ends does so now. -/
structure Etcd.Follows (e e' : Etcd T) : Prop where
  now : e'.now = e.now
  nextLease : e.nextLease ≤ e'.nextLease
  created : ∀ lease x, e.created lease = some x → e'.created lease = some x
  ended : ∀ lease t, e'.leases lease = .ended t → e.leases lease = .ended t ∨ t = e.now

theorem ended_of_update_live {leases : Nat → Lease T} {lease other : Nat} {expiry t : T}
    (ended : update leases lease (.live expiry) other = .ended t) : leases other = .ended t := by
  rw [update_apply] at ended
  split at ended
  · cases ended
  · exact ended

theorem ended_of_update_ended {leases : Nat → Lease T} {lease other : Nat} {now t : T}
    (ended : update leases lease (.ended now) other = .ended t) : leases other = .ended t ∨ t = now := by
  rw [update_apply] at ended
  split at ended
  · exact .inr (Lease.ended.inj ended).symm
  · exact .inl ended

theorem Etcd.follows_write (e : Etcd T) : e.Follows { e with revision := e.revision + 1 } :=
  ⟨rfl, Nat.le_refl _, fun _ _ created => created, fun _ _ ended => .inl ended⟩

theorem createWithLease_eq {e e' : Etcd T} {lease : Nat} (done : e.createWithLease lease = some e') :
    e.key = none ∧ (∃ expiry, e.leases lease = .live expiry) ∧
      e' = { e with
        revision := e.revision + 1
        key := some ⟨e.revision + 1, lease⟩
        created := update e.created lease (some (e.revision + 1, e.now)) } := by
  unfold Etcd.createWithLease at done
  split at done
  next expiry gone alive =>
    exact ⟨gone, ⟨expiry, alive⟩, (Option.some.inj done).symm⟩
  · cases done

theorem endLease_eq (e : Etcd T) (lease : Nat) :
    e.endLease lease = { e with
      leases := update e.leases lease (.ended e.now)
      key := if (e.key.map (·.lease)) = some lease then none else e.key
      revision := if (e.key.map (·.lease)) = some lease then e.revision + 1 else e.revision } := by
  unfold Etcd.endLease
  cases key : e.key with
  | none => rfl
  | some kv =>
    by_cases same : kv.lease = lease
    · simp [same]
    · simp [same]

theorem Etcd.follows_endLease (e : Etcd T) (lease : Nat) : e.Follows (e.endLease lease) := by
  rw [endLease_eq]
  exact ⟨rfl, Nat.le_refl _, fun _ _ created => created, fun _ _ ended => ended_of_update_ended ended⟩

section
variable [LinearOrder T] {e e' : Etcd T}

theorem Etcd.ok_start [AddCommGroup T] : (Etcd.start : Etcd T).Ok :=
  ⟨fun _ wrong => (nomatch wrong), fun _ _ _ wrong => (nomatch wrong), fun _ _ _ wrong => (nomatch wrong),
    fun _ _ _ _ _ _ wrong => (nomatch wrong)⟩

/-- A change of leases that does not concern one which has created the key, or keeps it alive. -/
theorem Etcd.Ok.leases (ok : e.Ok) {leases : Nat → Lease T} {nextLease : Nat} (more : e.nextLease ≤ nextLease)
    (live : ∀ lease v c, e.created lease = some (v, c) → leases lease = e.leases lease ∨
      ∃ expiry expiry', e.leases lease = .live expiry ∧ leases lease = .live expiry') :
    Etcd.Ok { e with leases := leases, nextLease := nextLease } := by
  have ended : ∀ lease v c, e.created lease = some (v, c) → ∀ t, e.leases lease = .ended t → leases lease = .ended t := by
    intro lease v c created t stays
    rcases live lease v c created with same | ⟨expiry, -, before, -⟩
    · exact same.trans stays
    · cases before.symm.trans stays
  refine ⟨ok.key, fun lease v c created => ?_, fun lease v c created => ?_,
    fun lease v c lease' v' c' created created' other => ?_⟩
  · obtain ⟨low, past, below⟩ := ok.known lease v c created
    exact ⟨low, past, below.trans_le more⟩
  · rcases ok.ends lease v c created with ⟨key, expiry, before⟩ | ⟨t, past, stays⟩
    · refine .inl ⟨key, ?_⟩
      rcases live lease v c created with same | ⟨-, expiry', -, after⟩
      · exact ⟨expiry, same.trans before⟩
      · exact ⟨expiry', after⟩
    · exact .inr ⟨t, past, ended lease v c created t stays⟩
  · obtain ⟨different, before⟩ := ok.successive lease v c lease' v' c' created created' other
    refine ⟨different, fun less => ?_⟩
    obtain ⟨t, past, stays⟩ := before less
    exact ⟨t, past, ended lease v c created t stays⟩

theorem Etcd.Ok.write (ok : e.Ok) : Etcd.Ok { e with revision := e.revision + 1 } :=
  ⟨ok.key, fun lease v c created =>
    have known := ok.known lease v c created
    ⟨Nat.le_succ_of_le known.1, known.2⟩, ok.ends, ok.successive⟩

theorem Etcd.Ok.pass (ok : e.Ok) {time : T} (later : e.now ≤ time) : Etcd.Ok { e with now := time } := by
  refine ⟨ok.key, fun lease v c created => ?_, fun lease v c created => ?_, ok.successive⟩
  · obtain ⟨low, past, below⟩ := ok.known lease v c created
    exact ⟨low, past.trans later, below⟩
  · rcases ok.ends lease v c created with alive | ⟨t, past, stays⟩
    · exact .inl alive
    · exact .inr ⟨t, past.trans later, stays⟩

variable {lease : Nat} {expiry : T}

theorem Etcd.Ok.not_created (ok : e.Ok) (alive : e.leases lease = .live expiry)
    (other : ∀ kv, e.key = some kv → kv.lease ≠ lease) : e.created lease = none := by
  cases created : e.created lease with
  | none => rfl
  | some x =>
    rcases ok.ends lease x.1 x.2 created with ⟨key, -⟩ | ⟨t, -, ended⟩
    · exact absurd rfl (other _ key)
    · cases alive.symm.trans ended

theorem Etcd.follows_createWithLease (ok : e.Ok) (done : e.createWithLease lease = some e') : e.Follows e' := by
  obtain ⟨gone, ⟨expiry, alive⟩, rfl⟩ := createWithLease_eq done
  have fresh := ok.not_created alive (fun kv key => nomatch gone.symm.trans key)
  refine ⟨rfl, Nat.le_refl _, fun other x created => ?_, fun _ _ ended => .inl ended⟩
  have different : other ≠ lease := by
    rintro rfl
    cases fresh.symm.trans created
  exact (update_of_ne different _ _).trans created

theorem Etcd.Ok.createWithLease (ok : e.Ok) (below : lease < e.nextLease) (done : e.createWithLease lease = some e') :
    e'.Ok := by
  obtain ⟨gone, ⟨expiry, alive⟩, rfl⟩ := createWithLease_eq done
  -- a creation is the new one, or it was there before and its lease has ended
  have cases_of : ∀ other v c, update e.created lease (some (e.revision + 1, e.now)) other = some (v, c) →
      (other = lease ∧ v = e.revision + 1 ∧ c = e.now) ∨
        (other ≠ lease ∧ e.created other = some (v, c) ∧ ∃ t ≤ e.now, e.leases other = .ended t) := by
    intro other v c created
    rw [update_apply] at created
    split at created
    next same =>
      cases created
      exact .inl ⟨same, rfl, rfl⟩
    next different =>
      refine .inr ⟨different, created, ?_⟩
      rcases ok.ends other v c created with ⟨key, -⟩ | ended
      · cases gone.symm.trans key
      · exact ended
  refine ⟨fun kv key => ?_, fun other v c created => ?_, fun other v c created => ?_,
    fun other v c other' v' c' created created' different => ?_⟩
  · cases key
    exact ⟨e.now, update_self _ _ _⟩
  · rcases cases_of other v c created with ⟨rfl, rfl, rfl⟩ | ⟨-, before, -⟩
    · exact ⟨Nat.le_refl _, le_refl _, below⟩
    · obtain ⟨low, past, below⟩ := ok.known other v c before
      exact ⟨Nat.le_succ_of_le low, past, below⟩
  · rcases cases_of other v c created with ⟨rfl, rfl, rfl⟩ | ⟨-, -, ended⟩
    · exact .inl ⟨rfl, expiry, alive⟩
    · exact .inr ended
  · rcases cases_of other v c created with ⟨rfl, rfl, rfl⟩ | ⟨-, before, ended⟩
    · rcases cases_of other' v' c' created' with ⟨rfl, -⟩ | ⟨-, before', -⟩
      · exact absurd rfl different
      · have low := (ok.known other' v' c' before').1
        exact ⟨by omega, fun less => by omega⟩
    · rcases cases_of other' v' c' created' with ⟨rfl, rfl, rfl⟩ | ⟨-, before', -⟩
      · have low := (ok.known other v c before).1
        exact ⟨by omega, fun _ => ended⟩
      · exact ok.successive other v c other' v' c' before before' different

theorem Etcd.Ok.endLease (ok : e.Ok) (alive : e.leases lease = .live expiry) : (e.endLease lease).Ok := by
  rw [endLease_eq]
  have stays : ∀ other t, e.leases other = .ended t → update e.leases lease (.ended e.now) other = .ended t := by
    intro other t ended
    have different : other ≠ lease := by
      rintro rfl
      cases alive.symm.trans ended
    exact (update_of_ne different _ _).trans ended
  refine ⟨fun kv key => ?_, fun other v c created => ?_, fun other v c created => ?_,
    fun other v c other' v' c' created created' different => ?_⟩
  · simp only at key
    split at key
    · cases key
    · exact ok.key kv key
  · obtain ⟨low, past, below⟩ := ok.known other v c created
    refine ⟨?_, past, below⟩
    simp only
    split
    · exact Nat.le_succ_of_le low
    · exact low
  · by_cases same : other = lease
    · subst same
      exact .inr ⟨e.now, le_refl _, update_self _ _ _⟩
    · rcases ok.ends other v c created with ⟨key, expiry', live⟩ | ⟨t, past, ended⟩
      · refine .inl ⟨?_, expiry', (update_of_ne same _ _).trans live⟩
        simp only [key, Option.map_some, Option.some.injEq, if_neg same]
      · exact .inr ⟨t, past, stays other t ended⟩
  · obtain ⟨distinct, before⟩ := ok.successive other v c other' v' c' created created' different
    refine ⟨distinct, fun less => ?_⟩
    obtain ⟨t, past, ended⟩ := before less
    exact ⟨t, past, stays other t ended⟩

variable [AddCommGroup T] {timing : Timing T}

theorem Etcd.Ok.grantLease (ok : e.Ok) : (e.grantLease timing).Ok := by
  refine ok.leases (Nat.le_succ _) (fun lease v c created => .inl ?_)
  have other : lease ≠ e.nextLease := Nat.ne_of_lt (ok.known lease v c created).2.2
  exact update_of_ne other _ _

theorem Etcd.follows_grantLease : e.Follows (e.grantLease timing) :=
  ⟨rfl, Nat.le_succ _, fun _ _ created => created, fun _ _ ended => .inl (ended_of_update_live ended)⟩

theorem Etcd.Ok.renew (ok : e.Ok) (lease : Nat) : (e.renew timing lease).Ok := by
  unfold Etcd.renew
  split
  next expiry alive =>
    refine ok.leases (Nat.le_refl _) (fun other v c _ => ?_)
    by_cases same : other = lease
    · subst same
      exact .inr ⟨expiry, _, alive, update_self _ _ _⟩
    · exact .inl (update_of_ne same _ _)
  · exact ok

theorem Etcd.follows_renew (lease : Nat) : e.Follows (e.renew timing lease) := by
  unfold Etcd.renew
  split
  · exact ⟨rfl, Nat.le_refl _, fun _ _ created => created, fun _ _ ended => .inl (ended_of_update_live ended)⟩
  · exact ⟨rfl, Nat.le_refl _, fun _ _ created => created, fun _ _ ended => .inl ended⟩

end

end Mooncake.Ha
