import Mathlib

/-!
# Stateful computations that may be cut

`Exec σ α` computes on a state of type `σ`. A loop that need not end is given a number
of turns, after which the computation is cut: it has a state and no value. A property
of the states in which a computation may be cut is a property of every prefix of it.

`Triple P m Q` is partial correctness with an end condition `Q` on the value, if there
is one, and the state. The rules are named after the construct they are about.
-/

/-- A computation on a state, with a value unless it is cut. -/
def Exec (σ α : Type) : Type := σ → Option α × σ

namespace Exec

variable {σ α β : Type}

protected def bind (m : Exec σ α) (f : α → Exec σ β) : Exec σ β := fun s =>
  match m s with
  | (some a, s') => f a s'
  | (none, s') => (none, s')

instance : Monad (Exec σ) where
  pure a := fun s => (some a, s)
  bind := Exec.bind

/-- A state transformer with a value. -/
def act (f : σ → α × σ) : Exec σ α := fun s => (some (f s).1, (f s).2)

/-- No more turns. -/
def cut : Exec σ α := fun s => (none, s)

theorem bind_some {m : Exec σ α} {s s' : σ} {a : α} (h : m s = (some a, s'))
    (f : α → Exec σ β) : (m >>= f) s = f a s' := by
  change Exec.bind m f s = _
  rw [Exec.bind, h]

theorem bind_none {m : Exec σ α} {s s' : σ} (h : m s = (none, s')) (f : α → Exec σ β) :
    (m >>= f) s = (none, s') := by
  change Exec.bind m f s = _
  rw [Exec.bind, h]

/-- From a state in `P`, `m` ends with `Q`, whether it has a value or is cut. -/
def Triple (P : σ → Prop) (m : Exec σ α) (Q : Option α → σ → Prop) : Prop :=
  ∀ s, P s → Q (m s).1 (m s).2

namespace Triple

variable {P P' : σ → Prop} {Q Q' : Option α → σ → Prop} {R : Option β → σ → Prop}

theorem pure {a : α} (h : ∀ s, P s → Q (some a) s) : Triple P (pure a) Q := h

theorem act {f : σ → α × σ} (h : ∀ s, P s → Q (some (f s).1) (f s).2) : Triple P (act f) Q := h

theorem cut (h : ∀ s, P s → Q none s) : Triple P cut Q := h

theorem bind {m : Exec σ α} {f : α → Exec σ β} (hm : Triple P m Q)
    (hf : ∀ a, Triple (Q (some a)) (f a) R) (hcut : ∀ s, Q none s → R none s) :
    Triple P (m >>= f) R := by
  intro s hs
  have h := hm s hs
  change R (Exec.bind m f s).1 (Exec.bind m f s).2
  unfold Exec.bind
  revert h
  rcases m s with ⟨_ | a, s'⟩
  · intro h
    exact hcut s' h
  · intro h
    exact hf a s' h

theorem consequence {m : Exec σ α} (h : Triple P m Q) (hP : ∀ s, P' s → P s)
    (hQ : ∀ a s, Q a s → Q' a s) : Triple P' m Q' := fun s hs => hQ _ _ (h s (hP s hs))

theorem of_pre {m : Exec σ α} (h : Triple P m Q) (hP : ∀ s, P' s → P s) : Triple P' m Q :=
  fun s hs => h s (hP s hs)

/-- A computation that keeps `P` in every step keeps it in a sequence. -/
theorem bind_invariant {m : Exec σ α} {f : α → Exec σ β} (hm : Triple P m fun _ => P)
    (hf : ∀ a, Triple P (f a) fun _ => P) : Triple P (m >>= f) fun _ => P :=
  bind hm hf fun _ h => h

end Triple

end Exec
