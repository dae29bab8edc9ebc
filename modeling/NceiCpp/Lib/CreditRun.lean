import Mathlib

/-!
# Counting grants by credit

Runs of a labelled transition system whose steps happen at times that do not fall. Some
steps are grants. Between steps credit grows by one for each unit of time; a step adds
none, and a grant takes `cost` of it and leaves at most `cap - cost`.

`CreditSystem.grants_le`: in a window of time without an exempt step, there are at most
as many grants as `cap` and the length of the window pay for.
-/

namespace CreditRun

variable {S L : Type*}

/-- The steps with the labels of the list, one after the other. -/
inductive Run (step : S → L → S → Prop) : S → List L → S → Prop
  | nil {s : S} : Run step s [] s
  | cons {s s' s'' : S} {l : L} {tr : List L} : step s l s' → Run step s' tr s'' →
      Run step s (l :: tr) s''

theorem Run.invariant {step : S → L → S → Prop} {Inv : S → Prop}
    (hstep : ∀ s l s', Inv s → step s l s' → Inv s') {s s' : S} {tr : List L}
    (h : Run step s tr s') (hs : Inv s) : Inv s' := by
  induction h with
  | nil => exact hs
  | cons h1 _ ih => exact ih (hstep _ _ _ hs h1)

theorem Run.mono {step step' : S → L → S → Prop} (hstep : ∀ s l s', step s l s' → step' s l s')
    {s s' : S} {tr : List L} (h : Run step s tr s') : Run step' s tr s' := by
  induction h with
  | nil => exact .nil
  | cons h1 _ ih => exact .cons (hstep _ _ _ h1) ih

theorem Run.map {L' : Type*} {step : S → L → S → Prop} {step' : S → L' → S → Prop} {f : L → L'}
    (hstep : ∀ s l s', step s l s' → step' s (f l) s') {s s' : S} {tr : List L}
    (h : Run step s tr s') : Run step' s (tr.map f) s' := by
  induction h with
  | nil => exact .nil
  | cons h1 _ ih => exact .cons (hstep _ _ _ h1) ih

theorem Run.snoc {step : S → L → S → Prop} {s s' s'' : S} {l : L} {tr : List L}
    (h : Run step s tr s') (hlast : step s' l s'') : Run step s (tr ++ [l]) s'' := by
  induction h with
  | nil => exact .cons hlast .nil
  | cons h1 _ ih => exact .cons h1 (ih hlast)

/-- A run of two parts passes through a state between them. -/
theorem Run.split {step : S → L → S → Prop} {s s'' : S} {tr tr' : List L}
    (h : Run step s (tr ++ tr') s'') : ∃ s', Run step s tr s' ∧ Run step s' tr' s'' := by
  induction tr generalizing s with
  | nil => exact ⟨s, .nil, h⟩
  | cons l tr ih =>
    rw [List.cons_append] at h
    cases h with
    | cons h1 h2 =>
      obtain ⟨s', h3, h4⟩ := ih h2
      exact ⟨s', .cons h1 h3, h4⟩

/-- An invariant that speaks about the labels so far. -/
theorem Run.history {step : S → L → S → Prop} {Inv : List L → S → Prop}
    (hstep : ∀ past s l s', Inv past s → step s l s' → Inv (past ++ [l]) s') {past : List L}
    {s s' : S} {tr : List L} (h : Run step s tr s') (hs : Inv past s) : Inv (past ++ tr) s' := by
  induction h generalizing past with
  | nil => simpa using hs
  | cons h1 _ ih =>
    have := ih (hstep _ _ _ _ hs h1)
    rwa [List.append_assoc, List.singleton_append] at this

/-- What a transition system has to satisfy for its grants to be counted: `credit s t` is
    the credit of the state `s` at the time `t`, `clock s` the time of the last step. -/
structure CreditSystem (step : S → L → S → Prop) (time : L → ℤ) (granted exempt : L → Prop)
    (Inv : S → Prop) (credit : S → ℤ → ℤ) (clock : S → ℤ) (cost cap : ℤ) : Prop where
  cap_nonneg : 0 ≤ cap
  credit_add : ∀ s t t', credit s t' = credit s t + (t' - t)
  credit_nonneg : ∀ s, Inv s → 0 ≤ credit s (clock s)
  inv_step : ∀ s l s', Inv s → step s l s' → Inv s'
  clock_step : ∀ s l s', step s l s' → clock s ≤ time l ∧ clock s' = time l
  credit_step : ∀ s l s', Inv s → step s l s' → ¬ exempt l →
    credit s' (time l) ≤ credit s (time l)
  credit_grant : ∀ s l s', Inv s → step s l s' → granted l → ¬ exempt l →
    credit s' (time l) + cost ≤ credit s (time l) ∧ credit s' (time l) + cost ≤ cap

namespace CreditSystem

variable {step : S → L → S → Prop} {time : L → ℤ} {granted exempt : L → Prop} {Inv : S → Prop}
  {credit : S → ℤ → ℤ} {clock : S → ℤ} {cost cap : ℤ}

/-- The grants at times from `t1` to `t2`. -/
def grants (time : L → ℤ) (granted : L → Prop) [DecidablePred granted] (t1 t2 : ℤ)
    (tr : List L) : ℕ :=
  tr.countP fun l => granted l ∧ t1 ≤ time l ∧ time l ≤ t2

variable (sys : CreditSystem step time granted exempt Inv credit clock cost cap)

include sys in
theorem clock_le {s s' : S} {tr : List L} (h : Run step s tr s') : ∀ l ∈ tr, clock s ≤ time l := by
  induction h with
  | nil => simp
  | cons h1 _ ih =>
    obtain ⟨hle, heq⟩ := sys.clock_step _ _ _ h1
    refine List.forall_mem_cons.mpr ⟨hle, fun l hl => ?_⟩
    have := ih l hl
    omega

variable [DecidablePred granted]

include sys in
/-- No grants in a window that has passed. -/
theorem grants_eq_zero {s s' : S} {tr : List L} (h : Run step s tr s') {t1 t2 : ℤ}
    (ht : t2 < clock s) : grants time granted t1 t2 tr = 0 := by
  rw [grants, List.countP_eq_zero]
  intro l hl
  have := sys.clock_le h l hl
  rw [decide_eq_true_eq]
  omega

include sys in
/-- The grants up to `t2` are paid for by the credit at that time. -/
theorem grants_le_credit {s s' : S} {tr : List L} (h : Run step s tr s') (hs : Inv s) {t1 t2 : ℤ}
    (ht : clock s ≤ t2) (h1 : t1 ≤ clock s)
    (hex : ∀ l ∈ tr, t1 ≤ time l → time l ≤ t2 → ¬ exempt l) :
    cost * grants time granted t1 t2 tr ≤ credit s t2 := by
  induction h with
  | @nil s =>
    have := sys.credit_nonneg s hs
    rw [sys.credit_add s (clock s) t2]
    simp only [grants, List.countP_nil, Nat.cast_zero, mul_zero]
    omega
  | @cons s s' s'' l tr hstep hrun ih =>
    obtain ⟨hle, heq⟩ := sys.clock_step s l s' hstep
    have hrest := fun l' hl' => hex l' (List.mem_cons_of_mem l hl')
    by_cases hlate : t2 < time l
    · -- this step and all later ones are behind the window
      have hzero : grants time granted t1 t2 tr = 0 := sys.grants_eq_zero hrun (by omega)
      have := sys.credit_nonneg s hs
      rw [grants, List.countP_cons_of_neg (by simp; omega), ← grants, hzero,
        sys.credit_add s (clock s) t2]
      simp only [Nat.cast_zero, mul_zero]
      omega
    · have hnot := hex l List.mem_cons_self (by omega) (by omega)
      have ih := ih (sys.inv_step s l s' hs hstep) (by omega) (by omega) hrest
      rw [sys.credit_add s' (time l) t2] at ih
      rw [sys.credit_add s (time l) t2]
      by_cases hg : granted l
      · obtain ⟨hpaid, -⟩ := sys.credit_grant s l s' hs hstep hg hnot
        rw [grants, List.countP_cons_of_pos (by simp [hg]; omega), ← grants]
        push_cast
        linarith
      · have hkept := sys.credit_step s l s' hs hstep hnot
        rw [grants, List.countP_cons_of_neg (by simp [hg]), ← grants]
        omega

include sys in
/-- The grants of a window are paid for by `cap` and the length of the window. -/
theorem grants_le {s s' : S} {tr : List L} (h : Run step s tr s') (hs : Inv s) {t1 t2 : ℤ}
    (ht : t1 ≤ t2) (hex : ∀ l ∈ tr, t1 ≤ time l → time l ≤ t2 → ¬ exempt l) :
    cost * grants time granted t1 t2 tr ≤ cap + (t2 - t1) := by
  have hcap := sys.cap_nonneg
  induction h with
  | nil =>
    simp only [grants, List.countP_nil, Nat.cast_zero, mul_zero]
    omega
  | @cons s s' s'' l tr hstep hrun ih =>
    obtain ⟨hle, heq⟩ := sys.clock_step s l s' hstep
    have hrest := fun l' hl' => hex l' (List.mem_cons_of_mem l hl')
    have hs' := sys.inv_step s l s' hs hstep
    by_cases hfirst : granted l ∧ t1 ≤ time l ∧ time l ≤ t2
    · -- the first grant of the window leaves at most `cap - cost`
      obtain ⟨hg, hl1, hl2⟩ := hfirst
      obtain ⟨-, hleft⟩ :=
        sys.credit_grant s l s' hs hstep hg (hex l List.mem_cons_self hl1 hl2)
      have hafter : cost * grants time granted t1 t2 tr ≤ credit s' t2 :=
        sys.grants_le_credit hrun hs' (by omega) (by omega) hrest
      rw [sys.credit_add s' (time l) t2] at hafter
      rw [grants, List.countP_cons_of_pos (by simp [hg, hl1, hl2]), ← grants]
      push_cast
      linarith
    · rw [grants, List.countP_cons_of_neg (by simpa using hfirst), ← grants]
      exact ih hs' hrest

end CreditSystem

end CreditRun
