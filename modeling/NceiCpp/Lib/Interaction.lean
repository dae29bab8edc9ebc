import Mathlib

/-!
# Programs that question an environment

`Program Q R α` is a computation that asks questions of type `Q`, continues with the
answers of type `R`, and ends with a value of type `α`. A program is a well-founded
tree, so it asks finitely many questions whatever the answers are.

* `Runs p t a`: with the exchanges `t` (each question with its answer, in order) the
  program `p` ends with `a`. Nothing is assumed about the answers.
* `exec env h p`: the run of `p` against an environment whose answer may depend on
  everything exchanged before; `exists_run` says that it is a run of `p` with the
  answers of the environment.
* `runs_bind`: a run of a sequence is a run of its parts.
-/

namespace Interaction

inductive Program (Q R α : Type)
  | ret (a : α)
  | ask (q : Q) (k : R → Program Q R α)

namespace Program

variable {Q R α β : Type}

protected def bind : Program Q R α → (α → Program Q R β) → Program Q R β
  | ret a, f => f a
  | ask q k, f => ask q fun r => (k r).bind f

instance : Monad (Program Q R) where
  pure := ret
  bind := Program.bind

/-- Ask one question and return the answer. -/
def perform (q : Q) : Program Q R R := ask q ret

/-- `p` ends with `a` when its questions are answered as in `t`. -/
def Runs : Program Q R α → List (Q × R) → α → Prop
  | ret a, t, b => t = [] ∧ b = a
  | ask q k, t, b => ∃ r t', t = (q, r) :: t' ∧ (k r).Runs t' b

/-- The value and the exchanges of `p` against `env`, which has seen `h`. -/
def exec (env : List (Q × R) → Q → R) : List (Q × R) → Program Q R α → α × List (Q × R)
  | _, ret a => (a, [])
  | h, ask q k =>
    let r := env h q
    let (a, t) := exec env (h ++ [(q, r)]) (k r)
    (a, (q, r) :: t)

/-! ## Runs -/

theorem runs_perform {q : Q} {t : List (Q × R)} {r : R} :
    (perform q).Runs t r ↔ t = [(q, r)] := by
  constructor
  · rintro ⟨r', t', rfl, rfl, rfl⟩
    rfl
  · rintro rfl
    exact ⟨r, [], rfl, rfl, rfl⟩

/-- A run of `p` followed by `f` is a run of `p` and then one of `f` on its value. -/
theorem runs_bind {p : Program Q R α} {f : α → Program Q R β} {t : List (Q × R)} {b : β} :
    (p >>= f).Runs t b ↔ ∃ t1 t2 a, t = t1 ++ t2 ∧ p.Runs t1 a ∧ (f a).Runs t2 b := by
  change (p.bind f).Runs t b ↔ _
  induction p generalizing t with
  | ret a =>
    constructor
    · intro h
      exact ⟨[], t, a, rfl, ⟨rfl, rfl⟩, h⟩
    · rintro ⟨t1, t2, a', rfl, ⟨rfl, rfl⟩, h⟩
      exact h
  | ask q k ih =>
    constructor
    · rintro ⟨r, t', rfl, h⟩
      obtain ⟨t1, t2, a, rfl, h1, h2⟩ := (ih r).mp h
      exact ⟨(q, r) :: t1, t2, a, rfl, ⟨r, t1, rfl, h1⟩, h2⟩
    · rintro ⟨t1, t2, a, rfl, ⟨r, t1', rfl, h1⟩, h2⟩
      exact ⟨r, t1' ++ t2, rfl, (ih r).mpr ⟨t1', t2, a, rfl, h1, h2⟩⟩

theorem runs_perform_bind {q : Q} {f : R → Program Q R β} {t : List (Q × R)} {b : β} :
    (perform q >>= f).Runs t b ↔ ∃ r t', t = (q, r) :: t' ∧ (f r).Runs t' b := by
  rw [runs_bind]
  constructor
  · rintro ⟨t1, t2, r, rfl, h1, h2⟩
    exact ⟨r, t2, by rw [runs_perform.mp h1]; rfl, h2⟩
  · rintro ⟨r, t', rfl, h⟩
    exact ⟨[(q, r)], t', r, rfl, runs_perform.mpr rfl, h⟩

/-- Running against an environment is a run. -/
theorem runs_exec (env : List (Q × R) → Q → R) (h : List (Q × R)) (p : Program Q R α) :
    p.Runs (exec env h p).2 (exec env h p).1 := by
  induction p generalizing h with
  | ret a => exact ⟨rfl, rfl⟩
  | ask q k ih => exact ⟨env h q, _, rfl, ih _ _⟩

/-- Each answer of `t` is what `env` says after the exchanges `h` and those before it. -/
def Follows (env : List (Q × R) → Q → R) : List (Q × R) → List (Q × R) → Prop
  | _, [] => True
  | h, (q, r) :: t => r = env h q ∧ Follows env (h ++ [(q, r)]) t

theorem follows_exec (env : List (Q × R) → Q → R) (h : List (Q × R)) (p : Program Q R α) :
    Follows env h (exec env h p).2 := by
  induction p generalizing h with
  | ret a => trivial
  | ask q k ih => exact ⟨rfl, ih _ _⟩

/-- Against every environment a program ends. -/
theorem exists_run (env : List (Q × R) → Q → R) (p : Program Q R α) :
    ∃ t a, Follows env [] t ∧ p.Runs t a :=
  ⟨_, _, follows_exec env [] p, runs_exec env [] p⟩

end Program

end Interaction
