import Mathlib

/-!
# Simulation of state machines

A concrete machine takes a step on an input or has undefined behaviour; an abstract one
always takes a step. `Simulation.run_eq`: if every abstract step is matched by a concrete
one with the same output, so are the runs.
-/

namespace Simulation

variable {σ τ ι ο : Type}

/-- The outputs and the last state of a machine on a list of inputs, `none` if a step is
    undefined. -/
def run (step : σ → ι → Option (ο × σ)) : σ → List ι → Option (List ο × σ)
  | s, [] => some ([], s)
  | s, i :: inputs => do
    let (o, s') ← step s i
    let (os, s'') ← run step s' inputs
    return (o :: os, s'')

/-- The outputs and the last state of a machine whose steps are always defined. -/
def runTotal (step : τ → ι → ο × τ) : τ → List ι → List ο × τ
  | t, [] => ([], t)
  | t, i :: inputs =>
    ((step t i).1 :: (runTotal step (step t i).2 inputs).1, (runTotal step (step t i).2 inputs).2)

theorem runTotal_concat (step : τ → ι → ο × τ) (t : τ) (inputs : List ι) (i : ι) :
    (runTotal step t (inputs ++ [i])).2 = (step (runTotal step t inputs).2 i).2 := by
  induction inputs generalizing t with
  | nil => rfl
  | cons j inputs ih => exact ih _

/-- The concrete machine matches the abstract one step by step. -/
def Simulates (cstep : σ → ι → Option (ο × σ)) (astep : τ → ι → ο × τ) (R : σ → τ → Prop) : Prop :=
  ∀ s t i, R s t → ∃ s', cstep s i = some ((astep t i).1, s') ∧ R s' (astep t i).2

variable {cstep : σ → ι → Option (ο × σ)} {astep : τ → ι → ο × τ} {R : σ → τ → Prop}

theorem run_eq (h : Simulates cstep astep R) {s : σ} {t : τ} (hst : R s t) (inputs : List ι) :
    ∃ s', run cstep s inputs = some ((runTotal astep t inputs).1, s') ∧
      R s' (runTotal astep t inputs).2 := by
  induction inputs generalizing s t with
  | nil => exact ⟨s, rfl, hst⟩
  | cons i inputs ih =>
    obtain ⟨s1, hstep, hs1⟩ := h s t i hst
    obtain ⟨s2, hrun, hs2⟩ := ih hs1
    exact ⟨s2, by simp [run, runTotal, hstep, hrun], hs2⟩

end Simulation
