import NceiCpp.Lib.CreditRun

/-!
# Credit that is not lost

The converse of the count in `CreditRun`. A step takes exactly what it grants, unless the
credit was above `cap` and is cut; an exempt step leaves the credit `fresh`. So at every time
there is a window, which starts where the credit was cut or was fresh, in which the credit of
the start and of the time since is there, but for what was granted.
-/

namespace CreditRun

variable {S L : Type*}

/-- What a step takes of the credit. -/
def taken (granted : L → Prop) [DecidablePred granted] (cost : ℤ) (l : L) : ℤ :=
  if granted l then cost else 0

/-- A transition system that loses credit above `cap` only. -/
structure TightSystem (step : S → L → S → Prop) (time : L → ℤ) (granted exempt : L → Prop)
    [DecidablePred granted] (Inv : S → Prop) (credit : S → ℤ → ℤ) (clock : S → ℤ)
    (cost cap fresh : ℤ) : Prop where
  cost_nonneg : 0 ≤ cost
  credit_add : ∀ s t t', credit s t' = credit s t + (t' - t)
  inv_step : ∀ s l s', Inv s → step s l s' → Inv s'
  clock_step : ∀ s l s', step s l s' → clock s ≤ time l ∧ clock s' = time l
  credit_exact : ∀ s l s', Inv s → step s l s' → ¬ exempt l →
    credit s' (time l) = credit s (time l) - taken granted cost l ∨
      credit s' (time l) = cap - taken granted cost l
  credit_exempt : ∀ s l s', Inv s → step s l s' → exempt l → credit s' (time l) = fresh

/-- The window starts at `t1` with the credit `n`; the steps `since` are in it. -/
structure Window (time : L → ℤ) (exempt : L → Prop) (cap fresh t0 : ℤ) (tr since : List L)
    (t1 n : ℤ) : Prop where
  suffix : ∃ before, tr = before ++ since ∧
    (n = cap ∨ n = fresh ∧ (t1 = t0 ∨ ∃ l ∈ before, exempt l ∧ time l = t1))
  le_time : ∀ l ∈ since, t1 ≤ time l

theorem Window.snoc {time : L → ℤ} {exempt : L → Prop} {cap fresh t0 t1 n : ℤ}
    {tr since : List L} (h : Window time exempt cap fresh t0 tr since t1 n) {l : L}
    (hl : t1 ≤ time l) : Window time exempt cap fresh t0 (tr ++ [l]) (since ++ [l]) t1 n := by
  obtain ⟨⟨before, rfl, hstart⟩, htime⟩ := h
  refine ⟨⟨before, List.append_assoc _ _ _, hstart⟩, fun l' hl' => ?_⟩
  rcases List.mem_append.mp hl' with hl' | hl'
  · exact htime l' hl'
  · rwa [List.mem_singleton.mp hl']

namespace TightSystem

variable {step : S → L → S → Prop} {time : L → ℤ} {granted exempt : L → Prop}
  [DecidablePred granted] {Inv : S → Prop} {credit : S → ℤ → ℤ} {clock : S → ℤ}
  {cost cap fresh : ℤ} (sys : TightSystem step time granted exempt Inv credit clock cost cap fresh)

theorem cost_mul_countP_singleton (cost : ℤ) (l : L) :
    cost * ([l].countP granted : ℤ) = taken granted cost l := by
  rw [taken, List.countP_singleton]
  split_ifs with h1 h2 h2 <;> simp_all

include sys in
/-- A step continues the window, or starts a new one. -/
theorem step_window {t0 : ℤ} {tr : List L} {s s' : S} {l : L} (hs : Inv s) (hstep : step s l s')
    (hpaid : ∃ since t1 n, Window time exempt cap fresh t0 tr since t1 n ∧
      (t1 ≤ clock s ∧ ∀ l ∈ since, time l ≤ clock s) ∧
      credit s (clock s) = n + (clock s - t1) - cost * since.countP granted) :
    ∃ since t1 n, Window time exempt cap fresh t0 (tr ++ [l]) since t1 n ∧
      (t1 ≤ clock s' ∧ ∀ l ∈ since, time l ≤ clock s') ∧
      credit s' (clock s') = n + (clock s' - t1) - cost * since.countP granted := by
  obtain ⟨since, t1, n, hwindow, ⟨ht1, hclock⟩, hcredit⟩ := hpaid
  obtain ⟨hle, heq⟩ := sys.clock_step s l s' hstep
  rw [heq]
  by_cases hexempt : exempt l
  · -- the credit is fresh
    refine ⟨[], time l, fresh, ⟨⟨tr ++ [l], (List.append_nil _).symm, ?_⟩, by simp⟩,
      ⟨le_rfl, by simp⟩, by simp [sys.credit_exempt s l s' hs hstep hexempt]⟩
    exact .inr ⟨rfl, .inr ⟨l, by simp, hexempt, rfl⟩⟩
  · rcases sys.credit_exact s l s' hs hstep hexempt with hkept | hcut
    · refine ⟨since ++ [l], t1, n, hwindow.snoc (ht1.trans hle), ⟨ht1.trans hle, ?_⟩, ?_⟩
      · refine fun l' hl' => ?_
        rcases List.mem_append.mp hl' with hl' | hl'
        · exact (hclock l' hl').trans hle
        · rw [List.mem_singleton.mp hl']
      · rw [hkept, sys.credit_add s (clock s) (time l), hcredit, List.countP_append,
          Nat.cast_add, mul_add, cost_mul_countP_singleton]
        ring
    · -- the credit is cut
      refine ⟨[l], time l, cap, ⟨⟨tr, rfl, .inl rfl⟩, by simp⟩, ⟨le_rfl, by simp⟩, ?_⟩
      rw [hcut, cost_mul_countP_singleton]
      ring

include sys in
/-- Behind every run there is a window whose credit was not lost. -/
theorem exists_window {s0 s : S} {tr past : List L} {t0 : ℤ} (h : Run step s0 tr s) (hs : Inv s0)
    (hpaid : ∃ since t1 n, Window time exempt cap fresh t0 past since t1 n ∧
      (t1 ≤ clock s0 ∧ ∀ l ∈ since, time l ≤ clock s0) ∧
      credit s0 (clock s0) = n + (clock s0 - t1) - cost * since.countP granted) :
    ∃ since t1 n, Window time exempt cap fresh t0 (past ++ tr) since t1 n ∧
      (t1 ≤ clock s ∧ ∀ l ∈ since, time l ≤ clock s) ∧
      credit s (clock s) = n + (clock s - t1) - cost * since.countP granted := by
  induction h generalizing past with
  | nil => simpa using hpaid
  | @cons s s' s'' l tr hstep _ ih =>
    have hnext := ih (sys.inv_step s l s' hs hstep) (sys.step_window hs hstep hpaid)
    rwa [List.append_assoc, List.singleton_append] at hnext

include sys in
/-- Less credit than `cost` is left only where the window paid for its grants: there are as
    many as its credit at the start and its length pay for. -/
theorem grants_ge {s0 s : S} {tr : List L} (h : Run step s0 tr s) (hs : Inv s0)
    (hfresh : credit s0 (clock s0) = fresh) {t : ℤ} (ht : clock s ≤ t)
    (hlow : credit s t < cost) :
    ∃ t1 n, t1 ≤ t ∧ (n = cap ∨ n = fresh ∧ (t1 = clock s0 ∨ ∃ l ∈ tr, exempt l ∧ time l = t1)) ∧
      n + (t - t1) < cost * (CreditSystem.grants time granted t1 t tr + 1) := by
  have hempty : Window time exempt cap fresh (clock s0) [] [] (clock s0) fresh :=
    ⟨⟨[], rfl, .inr ⟨rfl, .inl rfl⟩⟩, by simp⟩
  obtain ⟨since, t1, n, ⟨⟨before, htr, hstart⟩, htime⟩, ⟨ht1, hclock⟩, hcredit⟩ :=
    sys.exists_window h hs ⟨[], _, _, hempty, ⟨le_rfl, by simp⟩, by simp [hfresh]⟩
  obtain rfl : tr = before ++ since := htr
  refine ⟨t1, n, ht1.trans ht, ?_, ?_⟩
  · refine hstart.imp_right fun ⟨hn, hfrom⟩ => ⟨hn, hfrom.imp_right fun ⟨l, hl, h⟩ => ?_⟩
    exact ⟨l, List.mem_append_left _ hl, h⟩
  · have hcount : since.countP granted ≤
        CreditSystem.grants time granted t1 t (before ++ since) := by
      rw [CreditSystem.grants, List.countP_append]
      refine le_add_left (List.countP_mono_left fun l hl hg => ?_)
      simp only [decide_eq_true_eq] at hg ⊢
      exact ⟨hg, htime l hl, (hclock l hl).trans ht⟩
    have hpaid := mul_le_mul_of_nonneg_left (Int.ofNat_le.mpr hcount) sys.cost_nonneg
    rw [sys.credit_add s (clock s) t, hcredit] at hlow
    linarith

end TightSystem

end CreditRun
