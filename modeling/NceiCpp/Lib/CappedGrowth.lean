import Mathlib

/-!
# Capped growth

A quantity is multiplied by the same factor again and again and cut off at a cap each time.
Cutting it off once at the end gives the same: a factor of at least one never leads back
below the cap, and with a smaller one a start below the cap stays there.

* `iterate_growth`: the closed form.
* `capped_mono`: with a factor of at least one the quantity never falls.
-/

namespace CappedGrowth

variable {α : Type*} [Semiring α] [LinearOrder α] [IsStrictOrderedRing α] {factor cap start : α}

/-- One step. -/
def growth (factor cap x : α) : α := min (x * factor) cap

/-- The quantity after `n` steps without a cap, cut off once. -/
def capped (factor cap start : α) (n : ℕ) : α := min (start * factor ^ n) cap

omit [IsStrictOrderedRing α] in
theorem capped_zero (hcap : start ≤ cap) : capped factor cap start 0 = start := by
  rw [capped, pow_zero, mul_one, min_eq_left hcap]

theorem growth_capped (hfactor : 0 ≤ factor) (hstart : 0 ≤ start) (hcap : start ≤ cap) (n : ℕ) :
    growth factor cap (capped factor cap start n) = capped factor cap start (n + 1) := by
  have h0 : 0 ≤ cap := hstart.trans hcap
  rw [growth, capped, capped, min_mul_of_nonneg _ _ hfactor, mul_assoc, ← pow_succ, min_assoc]
  rcases le_total 1 factor with h1 | h1
  · rw [min_eq_right (le_mul_of_one_le_right h0 h1)]
  · -- neither cap takes effect
    have hle : start * factor ^ (n + 1) ≤ cap * factor := by
      have hpow : start * factor ^ n ≤ cap :=
        (mul_le_of_le_one_right hstart (pow_le_one₀ hfactor h1)).trans hcap
      rw [pow_succ, ← mul_assoc]
      exact mul_le_mul_of_nonneg_right hpow hfactor
    have hcap' : cap * factor ≤ cap := mul_le_of_le_one_right h0 h1
    rw [min_eq_left hcap', min_eq_left hle, min_eq_left (hle.trans hcap')]

/-- Cutting off in each step is cutting off once. -/
theorem iterate_growth (hfactor : 0 ≤ factor) (hstart : 0 ≤ start) (hcap : start ≤ cap) (n : ℕ) :
    (growth factor cap)^[n] start = capped factor cap start n := by
  induction n with
  | zero => rw [Function.iterate_zero_apply, capped_zero hcap]
  | succ n ih => rw [Function.iterate_succ_apply', ih, growth_capped hfactor hstart hcap]

theorem capped_nonneg (hfactor : 0 ≤ factor) (hstart : 0 ≤ start) (hcap : start ≤ cap) (n : ℕ) :
    0 ≤ capped factor cap start n :=
  le_min (mul_nonneg hstart (pow_nonneg hfactor n)) (hstart.trans hcap)

theorem capped_mono (hfactor : 1 ≤ factor) (hstart : 0 ≤ start) :
    Monotone (capped factor cap start) := by
  intro n n' hn
  exact min_le_min_right cap (mul_le_mul_of_nonneg_left (pow_le_pow_right₀ hfactor hn) hstart)

end CappedGrowth
