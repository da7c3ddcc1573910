import Mathlib.Data.List.Pairwise
import Mooncake.Lib.Run
import Mooncake.Master.Types

/-! Mounting and unmounting a client's segments. Three records have to move together: the regions of the
transfer engine, the segments the master knows, and `mounted_segments_`. The transports and the master may
refuse any call. `TransferEngine` returns at the first transport that refuses, before it touches its regions. -/
namespace Mooncake.Client.Mounting
open List
open Master (ErrorCode)

structure Buffer where
  base : Nat
  size : Nat
deriving DecidableEq

def Buffer.stop (b : Buffer) : Nat := (b.size + b.base) % 2 ^ 64

def segmentOverlaps (a b : Buffer) : Bool := max a.base b.base < min a.stop b.stop

def overlap (a b : Buffer) : Bool := (b.base ≤ a.base && a.base < b.stop) || (a.base ≤ b.base && b.base < a.stop)

structure Records where
  localMemoryRegions : List Buffer
  mountedSegments : List Buffer
deriving DecidableEq

inductive Unregistered where
  | done
  | notRegistered
  | failed
deriving DecidableEq

inductive Call where
  | mount (b : Buffer) (registers : Bool) (master : Except ErrorCode Unit)
  | unmount (b : Buffer) (master : Except ErrorCode Unit) (unregistered : Unregistered)

variable (maxMrSize : Nat)

def checkRegisterMemoryParams (b : Buffer) : Bool :=
  b.base != 0 && b.size != 0 && b.size ≤ maxMrSize

variable (c : Records)

/-- The engine refuses what overlaps one of its regions and what is empty; the transports may refuse the rest.
-/
def registerLocalMemory (b : Buffer) (registers : Bool) : Option Records :=
  if c.localMemoryRegions.any (overlap b) || b.size == 0 || !registers then none
  else some { c with localMemoryRegions := b :: c.localMemoryRegions }

def unregisterLocalMemory (b : Buffer) : Unregistered → Option Records
  | .done => some { c with localMemoryRegions := c.localMemoryRegions.eraseP (fun r => r.base = b.base) }
  -- the region stays, and `UnmountSegment` goes on
  | .notRegistered => some c
  | .failed => none

def mountSegment (b : Buffer) (registers : Bool) (master : Except ErrorCode Unit) :
    Except ErrorCode Unit × Records :=
  if !checkRegisterMemoryParams maxMrSize b || c.mountedSegments.any (fun m => segmentOverlaps m b) then
    (.error .invalidParams, c)
  else
    match registerLocalMemory c b registers with
    | none => (.error .invalidParams, c)
    | some registered =>
      match master with
      -- the buffer stays registered
      | .error e => (.error e, registered)
      | .ok _ => (.ok (), { registered with mountedSegments := b :: registered.mountedSegments })

def unmountSegment (b : Buffer) (master : Except ErrorCode Unit) (unregistered : Unregistered) :
    Except ErrorCode Unit × Records :=
  if b ∉ c.mountedSegments then (.error .invalidParams, c)
  else
    match master with
    | .error e => (.error e, c)
    | .ok _ =>
      match unregisterLocalMemory c b unregistered with
      | none => (.error .internalError, c)
      | some left => (.ok (), { left with mountedSegments := left.mountedSegments.erase b })

def step : Call → Option Records
  | .mount b registers master => some (mountSegment maxMrSize c b registers master).2
  | .unmount b master unregistered => some (unmountSegment c b master unregistered).2

def Apart (a b : Buffer) : Prop := a.base + a.size ≤ b.base ∨ b.base + b.size ≤ a.base

structure Consistent (c : Records) : Prop where
  same : ∀ b, b ∈ c.localMemoryRegions ↔ b ∈ c.mountedSegments
  apart : c.mountedSegments.Pairwise Apart

/-- After a call the records agree; and if the master has refused the segment, the same mount
succeeds as soon as the engine and the master accept it. -/
def Settled (call : Call) (c' : Records) : Prop :=
  Consistent c' ∧ ∀ b e, call = .mount b true (.error e) → (mountSegment maxMrSize c b true (.ok ())).1 = .ok () →
    (mountSegment maxMrSize c' b true (.ok ())).1 = .ok ()

/-- A mount that gets to the master is accepted there, and its buffer ends inside the address space; an unmount
that gets to the engine finds its buffer known to every transport. -/
def Accepted : Call → Prop
  | .mount b registers master =>
    b.size + b.base < 2 ^ 64 ∧ ((mountSegment maxMrSize c b registers (.ok ())).1 = .ok () → master = .ok ())
  | .unmount b master unregistered => b ∈ c.mountedSegments → master = .ok () → unregistered ≠ .notRegistered

instance (maxMrSize : Nat) (c : Records) : (call : Call) → Decidable (Accepted maxMrSize c call)
  | .mount _ _ _ => inferInstanceAs (Decidable (_ ∧ _))
  | .unmount _ _ _ => inferInstanceAs (Decidable (_ → _ → _))

structure Kept (c : Records) : Prop where
  perm : c.localMemoryRegions.Perm c.mountedSegments
  real : ∀ b ∈ c.mountedSegments, 0 < b.size ∧ b.size + b.base < 2 ^ 64
  apart : c.mountedSegments.Pairwise Apart

variable {maxMrSize : Nat} {c : Records} {b : Buffer}

theorem Kept.consistent (kept : Kept c) : Consistent c := ⟨fun _ => kept.perm.mem_iff, kept.apart⟩

theorem apart_of_not_overlaps {a : Buffer} (realA : 0 < a.size ∧ a.size + a.base < 2 ^ 64)
    (realB : 0 < b.size ∧ b.size + b.base < 2 ^ 64) (clear : segmentOverlaps a b = false) : Apart b a := by
  simp only [segmentOverlaps, Buffer.stop, Nat.mod_eq_of_lt realA.2, Nat.mod_eq_of_lt realB.2,
    decide_eq_false_iff_not, max_lt_iff, lt_min_iff] at clear
  unfold Apart
  omega

/-- A mount that gets past the engine has made its checks, and leaves the rest to the master. -/
theorem mount_cases (c : Records) (b : Buffer) (registers : Bool) (master : Except ErrorCode Unit) :
    ((mountSegment maxMrSize c b registers master).2 = c ∧
      ∀ answer, (mountSegment maxMrSize c b registers answer).1 ≠ .ok ()) ∨
      (0 < b.size ∧ (∀ m ∈ c.mountedSegments, segmentOverlaps m b = false) ∧
        ∀ answer, mountSegment maxMrSize c b registers answer =
          (answer, ⟨b :: c.localMemoryRegions,
            if answer = .ok () then b :: c.mountedSegments else c.mountedSegments⟩)) := by
  by_cases refused : !checkRegisterMemoryParams maxMrSize b || c.mountedSegments.any (fun m => segmentOverlaps m b)
  · exact .inl (by simp [mountSegment, refused])
  · cases registered : registerLocalMemory c b registers with
    | none => exact .inl (by simp [mountSegment, refused, registered])
    | some next =>
      have shape : next = { c with localMemoryRegions := b :: c.localMemoryRegions } := by
        unfold registerLocalMemory at registered
        split at registered
        · contradiction
        · exact (Option.some.inj registered).symm
      have result : ∀ answer, mountSegment maxMrSize c b registers answer =
          (answer, ⟨b :: c.localMemoryRegions, if answer = .ok () then b :: c.mountedSegments else c.mountedSegments⟩) := by
        intro answer
        cases answer <;> simp [mountSegment, refused, registered, shape]
      simp only [checkRegisterMemoryParams, Bool.or_eq_true, Bool.not_eq_true', not_or, Bool.not_eq_false,
        Bool.and_eq_true, bne_iff_ne, any_eq_true, not_exists, not_and, Bool.not_eq_true] at refused
      exact .inr ⟨Nat.pos_of_ne_zero refused.1.1.2, refused.2, result⟩

variable {master : Except ErrorCode Unit}

theorem mount_kept {registers : Bool} (kept : Kept c) (accepted : Accepted maxMrSize c (.mount b registers master)) :
    Kept (mountSegment maxMrSize c b registers master).2 := by
  obtain ⟨inside, agreed⟩ := accepted
  obtain ⟨same, -⟩ | ⟨size, clear, result⟩ := mount_cases c b registers master
  · exact same.symm ▸ kept
  · have granted := agreed (by rw [result])
    rw [result, granted, if_pos rfl]
    refine ⟨kept.perm.cons b, ?_, pairwise_cons.mpr ⟨?_, kept.apart⟩⟩
    · intro m mounted
      obtain rfl | old := mem_cons.mp mounted
      · exact ⟨size, inside⟩
      · exact kept.real m old
    · intro m mounted
      exact apart_of_not_overlaps (kept.real m mounted) ⟨size, inside⟩ (clear m mounted)

instance : Std.Symm Apart := ⟨fun _ _ => Or.symm⟩

theorem Kept.unregistered (kept : Kept c) (mounted : b ∈ c.mountedSegments) :
    (c.localMemoryRegions.eraseP (fun r => r.base = b.base)).Perm (c.mountedSegments.erase b) := by
  have region := kept.perm.mem_iff.mpr mounted
  obtain ⟨r, l₁, l₂, -, start, split, left⟩ :=
    exists_of_eraseP (p := fun r => decide (r.base = b.base)) region (decide_eq_true rfl)
  have inside : r ∈ c.mountedSegments := kept.perm.mem_iff.mp (split ▸ mem_append_right l₁ mem_cons_self)
  have same : r = b := by
    by_contra other
    have away := kept.apart.forall inside mounted other
    have longR := (kept.real r inside).1
    have longB := (kept.real b mounted).1
    have equal := of_decide_eq_true start
    unfold Apart at away
    omega
  have whole : (b :: (l₁ ++ l₂)).Perm (b :: c.mountedSegments.erase b) :=
    calc b :: (l₁ ++ l₂)
      _ |>.Perm (l₁ ++ b :: l₂) := perm_middle.symm
      _ |>.Perm c.mountedSegments := same ▸ split ▸ kept.perm
      _ |>.Perm (b :: c.mountedSegments.erase b) := perm_cons_erase mounted
  exact left ▸ whole.cons_inv

theorem unmount_kept {unregistered : Unregistered} (kept : Kept c)
    (accepted : Accepted maxMrSize c (.unmount b master unregistered)) :
    Kept (unmountSegment c b master unregistered).2 := by
  unfold unmountSegment
  split
  case isTrue => exact kept
  case isFalse listed =>
    have mounted := not_not.mp listed
    have gone : Kept ⟨c.localMemoryRegions.eraseP (fun r => r.base = b.base), c.mountedSegments.erase b⟩ :=
      ⟨kept.unregistered mounted, fun m left => kept.real m (mem_of_mem_erase left), kept.apart.erase b⟩
    cases master with
    | error e => exact kept
    | ok => cases unregistered with
      | failed => exact kept
      | notRegistered => exact (accepted mounted rfl rfl).elim
      | done => exact gone

theorem step_kept {call : Call} {c' : Records} (kept : Kept c) (accepted : Accepted maxMrSize c call)
    (next : step maxMrSize c call = some c') : Kept c' ∧ Settled maxMrSize c call c' := by
  have after : Kept c' := by
    cases call with
    | mount b registers master => exact Option.some.inj next ▸ mount_kept kept accepted
    | unmount b master unregistered => exact Option.some.inj next ▸ unmount_kept kept accepted
  refine ⟨after, after.consistent, ?_⟩
  rintro b e rfl succeeds
  -- an accepted mount that would succeed was not refused by the master
  exact nomatch accepted.2 succeeds

/-- In every run whose mounts are accepted by the master once it is asked and name buffers that do not wrap, and
whose unmounts are not told by a transport that it has no such buffer, the records agree after every call and a
mount the master refuses can be made again. -/
theorem mounting_consistent (maxMrSize : Nat) (calls : List Call)
    (accepted : Run.Guarded (step maxMrSize) (Accepted maxMrSize) ⟨[], []⟩ calls) :
    Run.Every (step maxMrSize) (Settled maxMrSize) ⟨[], []⟩ calls := by
  have start : Kept ⟨[], []⟩ := ⟨.nil, fun _ none => (not_mem_nil none).elim, .nil⟩
  exact Run.guarded_every (fun _ _ _ kept meets next => step_kept kept meets next) start accepted

theorem mounting_consistent_overlap_and_failures :
    Run.Every (step (2 ^ 40)) (Settled (2 ^ 40)) ⟨[], []⟩
      [.mount ⟨4096, 64⟩ true (.ok ()), .mount ⟨4100, 8⟩ true (.error .rpcFail), .unmount ⟨4096, 64⟩ (.ok ()) .failed,
        .unmount ⟨4096, 64⟩ (.ok ()) .done] :=
  mounting_consistent (2 ^ 40) _ (by decide)

/-- The master refuses the mount of a buffer. The engine keeps it, no segment has it, and no later mount of it
gets past the engine. An unmount to which a transport answers that it does not have the buffer leaves the same
state. -/
theorem refused_mount_stays_registered :
    (mountSegment (2 ^ 40) ⟨[], []⟩ ⟨4096, 64⟩ true (.error .rpcFail)).2 = ⟨[⟨4096, 64⟩], []⟩ ∧
      ¬ Consistent ⟨[⟨4096, 64⟩], []⟩ ∧
      mountSegment (2 ^ 40) ⟨[⟨4096, 64⟩], []⟩ ⟨4096, 64⟩ true (.ok ()) = (.error .invalidParams, ⟨[⟨4096, 64⟩], []⟩) ∧
      unmountSegment ⟨[⟨4096, 64⟩], [⟨4096, 64⟩]⟩ ⟨4096, 64⟩ (.ok ()) .notRegistered = (.ok (), ⟨[⟨4096, 64⟩], []⟩) := by
  refine ⟨rfl, fun agree => ?_, by decide, by decide⟩
  exact not_mem_nil ((agree.same ⟨4096, 64⟩).mp mem_cons_self)

end Mooncake.Client.Mounting
