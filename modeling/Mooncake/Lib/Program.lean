import Mathlib.Init

/-! Programs that call operations of their surroundings and are run one call at a time,
so that other programs may run between two calls. A contract says what a program owes
before each call and what it may then assume; it is checked without the surroundings. -/

inductive Program (Op : Type) (Answer : Op → Type) (α : Type) : Type where
  | done (a : α)
  | call (op : Op) (next : Answer op → Program Op Answer α)

namespace Program
variable {Op : Type} {Answer : Op → Type} {α β σ : Type}

def bind : Program Op Answer α → (α → Program Op Answer β) → Program Op Answer β
  | done a, f => f a
  | call op next, f => call op (fun answer => (next answer).bind f)

instance : Monad (Program Op Answer) where
  pure := done
  bind := bind

def perform (op : Op) : Program Op Answer (Answer op) := call op done

structure Contract (Op : Type) (Answer : Op → Type) (σ : Type) where
  requires : σ → Op → Prop
  ensures : σ → (op : Op) → Answer op → σ → Prop

def Meets (c : Contract Op Answer σ) (post : σ → α → Prop) : σ → Program Op Answer α → Prop
  | s, done a => post s a
  | s, call op next => c.requires s op ∧ ∀ answer s', c.ensures s op answer s' → Meets c post s' (next answer)

variable {c : Contract Op Answer σ} {post : σ → α → Prop} {s : σ}

theorem meets_pure {a : α} (holds : post s a) : Meets c post s (pure a : Program Op Answer α) := holds

theorem meets_perform {op : Op} {Q : σ → Answer op → Prop} (owed : c.requires s op)
    (holds : ∀ answer s', c.ensures s op answer s' → Q s' answer) :
    Meets c Q s (perform op : Program Op Answer (Answer op)) := ⟨owed, holds⟩

variable {p : Program Op Answer α} {f : α → Program Op Answer β}

theorem meets_bind {post : σ → β → Prop} (first : Meets c (fun s a => Meets c post s (f a)) s p) :
    Meets c post s (p >>= f) := by
  induction p generalizing s with
  | done a => exact first
  | call op next ih => exact ⟨first.1, fun answer s' later => ih answer (first.2 answer s' later)⟩

theorem meets_true (free : ∀ s op, c.requires s op) (p : Program Op Answer α) : Meets c (fun _ _ => True) s p := by
  induction p generalizing s with
  | done a => trivial
  | call op next ih => exact ⟨free s op, fun answer _ _ => ih answer⟩

theorem Meets.mono {weaker : σ → α → Prop} (h : Meets c post s p) (weaken : ∀ s a, post s a → weaker s a) :
    Meets c weaker s p := by
  induction p generalizing s with
  | done a => exact weaken s a h
  | call op next ih => exact ⟨h.1, fun answer s' later => ih answer (h.2 answer s' later)⟩

theorem Meets.relax {d : Contract Op Answer σ} (h : Meets c post s p)
    (asks : ∀ s op, c.requires s op → d.requires s op)
    (promises : ∀ s op answer s', d.ensures s op answer s' → c.ensures s op answer s') : Meets d post s p := by
  induction p generalizing s with
  | done a => exact h
  | call op next ih =>
    exact ⟨asks s op h.1, fun answer s' later => ih answer (h.2 answer s' (promises s op answer s' later))⟩

/-- The usual way through a sequence: what the first part ensures is enough for the rest. -/
theorem Meets.bind {middle : σ → α → Prop} {post : σ → β → Prop} (first : Meets c middle s p)
    (rest : ∀ s a, middle s a → Meets c post s (f a)) : Meets c post s (p >>= f) :=
  meets_bind (first.mono rest)

end Program
