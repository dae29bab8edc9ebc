import NceiCpp.Lib.Simulation

/-!
# Inputs that leave no trace

A machine takes a step on every input. In a run some inputs are marked as kept. When two
states related by `R` cannot be told apart by any input, and the inputs that are not kept
lead to a state related to the one before, the outputs of the kept inputs are those of the
run without the others (`keptOutputs_eq`). So two runs with the same kept inputs have the
same outputs for them (`keptOutputs_congr`).

What an input may be can depend on the inputs before it, as the readings of a clock do: the
context of type `κ` says what they were.
-/

namespace SilentInputs

open Simulation

variable {σ κ ι ο : Type}

/-- The inputs that are kept. -/
def kept (run : List (Bool × ι)) : List ι := (run.filter Prod.fst).map Prod.snd

/-- The outputs of the inputs that are kept. -/
def keptOutputs (step : σ → ι → ο × σ) : σ → List (Bool × ι) → List ο
  | _, [] => []
  | s, (keep, i) :: run =>
    if keep then (step s i).1 :: keptOutputs step (step s i).2 run
    else keptOutputs step (step s i).2 run

/-- Every input that is not kept satisfies `Silent` in the state it meets. -/
def LeavesOut (step : σ → ι → ο × σ) (Silent : σ → ι → Prop) : σ → List (Bool × ι) → Prop
  | _, [] => True
  | s, (keep, i) :: run =>
    (keep = false → Silent s i) ∧ LeavesOut step Silent (step s i).2 run

/-- Every input is allowed after the ones before it. -/
def AllowedRun (Allowed : κ → ι → Prop) (after : κ → ι → κ) : κ → List ι → Prop
  | _, [] => True
  | k, i :: inputs => Allowed k i ∧ AllowedRun Allowed after (after k i) inputs

/-- No allowed input tells related states apart, and a silent one leads to a state related to
    the same states. -/
structure Unobservable (step : σ → ι → ο × σ) (Silent : σ → ι → Prop) (Allowed : κ → ι → Prop)
    (after : κ → ι → κ) (R : κ → σ → σ → Prop) : Prop where
  output : ∀ {k i s t}, Allowed k i → R k s t → (step s i).1 = (step t i).1
  state : ∀ {k i s t}, Allowed k i → R k s t → R (after k i) (step s i).2 (step t i).2
  silent : ∀ {k i s t}, Allowed k i → R k s t → Silent s i → R (after k i) (step s i).2 t

variable {step : σ → ι → ο × σ} {Silent : σ → ι → Prop} {Allowed : κ → ι → Prop}
  {after : κ → ι → κ} {R : κ → σ → σ → Prop}

/-- Without the inputs that are not kept the outputs are the same. -/
theorem keptOutputs_eq (h : Unobservable step Silent Allowed after R) {k : κ} {s t : σ}
    {run : List (Bool × ι)} (hst : R k s t)
    (hallowed : AllowedRun Allowed after k (run.map Prod.snd))
    (hsilent : LeavesOut step Silent s run) :
    keptOutputs step s run = (runTotal step t (kept run)).1 := by
  induction run generalizing k s t with
  | nil => rfl
  | cons x run ih =>
    obtain ⟨keep, i⟩ := x
    obtain ⟨hi, hrun⟩ := hallowed
    cases keep with
    | true =>
      show (step s i).1 :: keptOutputs step (step s i).2 run =
        (step t i).1 :: (runTotal step (step t i).2 (kept run)).1
      rw [h.output hi hst, ih (h.state hi hst) hrun hsilent.2]
    | false => exact ih (h.silent hi hst (hsilent.1 rfl)) hrun hsilent.2

/-- Two runs that keep the same inputs have the same outputs for them. -/
theorem keptOutputs_congr (h : Unobservable step Silent Allowed after R) {k : κ} {s : σ}
    {run run' : List (Bool × ι)} (hs : R k s s)
    (hallowed : AllowedRun Allowed after k (run.map Prod.snd))
    (hallowed' : AllowedRun Allowed after k (run'.map Prod.snd))
    (hsilent : LeavesOut step Silent s run) (hsilent' : LeavesOut step Silent s run')
    (hkept : kept run = kept run') : keptOutputs step s run = keptOutputs step s run' := by
  rw [keptOutputs_eq h hs hallowed hsilent, keptOutputs_eq h hs hallowed' hsilent', hkept]

/-- An invariant of the machine holds behind every allowed run. -/
theorem runTotal_invariant {P : κ → σ → Prop}
    (hP : ∀ {k i s}, Allowed k i → P k s → P (after k i) (step s i).2) {k : κ} {s : σ}
    {inputs : List ι} (hs : P k s) (hallowed : AllowedRun Allowed after k inputs) :
    P (inputs.foldl after k) (runTotal step s inputs).2 := by
  induction inputs generalizing k s with
  | nil => exact hs
  | cons i inputs ih => exact ih (hP hallowed.1 hs) hallowed.2

end SilentInputs
