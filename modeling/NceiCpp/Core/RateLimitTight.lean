import NceiCpp.Core.RateLimitQuota
import NceiCpp.Lib.CreditTight

/-!
# No token is lost

The bound on the acquisitions of `RateLimitCallers` is reached: the limiter refuses an attempt,
while there is quota left, only where one more acquisition would break the bound. The only
credit it loses is what a full bucket earns, so a refusal has a window, from where the bucket
was last full, in which everything that was earned was granted.

* `tryAcquire_credit`: an attempt takes exactly one token, or leaves the bucket full but for it.
* `refusal_forced`: what a refused attempt says about the acquisitions before it.
-/

namespace NceiCpp.Core.RateLimitCallers

open CreditRun RateLimiter

/-! ## The credit of one attempt -/

/-- What an attempt takes. -/
def price (s : RateLimiter) (granted : Bool) : ℤ := if granted then s.interval else 0

/-- A refill keeps the credit, or it leaves the bucket full. Where it leaves no token, the
    credit is not enough for one. -/
theorem refill_credit {s : RateLimiter} {now : ℤ} (h : s.WellFormed) (hnow : s.lastRefill ≤ now) :
    ((s.refill now).credit now = s.credit now ∨
      (s.refill now).credit now = s.config.maxTokens.toNat * s.interval) ∧
    ((s.refill now).tokens.toNat = 0 → s.credit now < s.interval) := by
  rcases refill_cases h hnow with ⟨heq, -⟩ | ⟨n, k, heq, hn, -, -, hk⟩
  · have hpos := h.sane.maxTokens_pos
    rw [heq]
    refine ⟨.inr (by simp [credit, interval]), fun hzero => ?_⟩
    dsimp only at hzero
    omega
  · have hcredit : (s.refill now).credit now = s.credit now := by
      simp only [heq, credit, interval] at hn ⊢
      rw [hn]
      ring
    refine ⟨.inl hcredit, fun hzero => ?_⟩
    rw [heq] at hzero
    dsimp only at hzero
    have htokens : (s.tokens.toNat : ℤ) = -k := by omega
    rw [credit, htokens]
    linarith

theorem credit_take {s : RateLimiter} (h : 0 < s.tokens.toNat) (now : ℤ) :
    s.take.credit now = s.credit now - s.interval := by
  have hcast : ((s.tokens.toNat - 1 : ℕ) : ℤ) = s.tokens.toNat - 1 := by omega
  rw [credit, credit, toNat_tokens_take h, hcast]
  show (s.tokens.toNat - 1 : ℤ) * s.interval + (now - s.lastRefill) = _
  ring

/-- An attempt takes exactly one token or none, or the bucket was full before it. Where it
    fails with quota left, the credit is not enough for a token. -/
theorem tryAcquire_credit {s : RateLimiter} {now : ℤ} (h : s.WellFormed)
    (hnow : s.lastRefill ≤ now) (sys : ℤ) :
    ((s.tryAcquire sys now).2.credit now = s.credit now - price s (s.tryAcquire sys now).1 ∨
      (s.tryAcquire sys now).2.credit now =
        s.config.maxTokens.toNat * s.interval - price s (s.tryAcquire sys now).1) ∧
    ((s.tryAcquire sys now).1 = false → ¬ (s.checkDailyReset sys).QuotaReached →
      s.credit now < s.interval) := by
  have hcredit := credit_checkDailyReset s sys now
  have hinterval : (s.checkDailyReset sys).interval = s.interval := by
    simp only [interval, checkDailyReset_config]
  obtain ⟨hrefill, hlow⟩ := refill_credit (h.checkDailyReset sys)
    (show (s.checkDailyReset sys).lastRefill ≤ now by rwa [checkDailyReset_lastRefill])
  rw [hcredit, hinterval] at hrefill hlow
  rw [checkDailyReset_config] at hrefill
  have hzero : (0 : UInt16).toNat = 0 := rfl
  rw [tryAcquire_eq]
  split_ifs with hquota htoken
  · exact ⟨.inl (by simp [hcredit, price]), fun _ hnot => absurd hquota hnot⟩
  · rw [gt_iff_lt, UInt16.lt_iff_toNat_lt] at htoken
    have htake := credit_take htoken now
    rw [show ((s.checkDailyReset sys).refill now).interval = s.interval by
      simp only [interval, refill_config, checkDailyReset_config]] at htake
    refine ⟨?_, fun h => by cases h⟩
    simp only [htake, price, if_true]
    omega
  · rw [gt_iff_lt, UInt16.lt_iff_toNat_lt, hzero, not_lt] at htoken
    refine ⟨?_, fun _ _ => hlow (by omega)⟩
    simp only [price, Bool.false_eq_true, if_false, sub_zero]
    exact hrefill

/-! ## Runs -/

variable {ι : Type} [DecidableEq ι]

/-- The limiter loses the credit of a full bucket only. -/
theorem tightSystem (config : RateLimiter.Config) (hsane : config.Sane) :
    TightSystem (StepAt (ι := ι)) (fun x => x.1.now) (fun x => Granted x.1)
      (fun x => x.1.op = .reset) (Invariant config) (fun s => s.limiter.credit) System.clock
      (config.refillInterval * nsPerMs)
      (config.maxTokens.toNat * (config.refillInterval * nsPerMs))
      (config.initialTokens.toNat * (config.refillInterval * nsPerMs)) where
  cost_nonneg := by
    have := hsane.refillInterval_pos
    exact mul_nonneg this.le (by decide)
  credit_add := by
    intro s t t'
    simp only [credit]
    ring
  inv_step := fun _ _ _ hs h => h.step.invariant hs
  clock_step := fun _ _ _ h => ⟨h.step.limiter_cases.1, h.step.limiter_cases.2.1⟩
  credit_exact := by
    intro s x s' hs h hreset
    obtain ⟨hclock, -, -⟩ := h.step.limiter_cases
    have hpast : s.limiter.lastRefill ≤ x.1.now := hs.lastRefill_le.trans hclock
    have hcost : s.limiter.interval = config.refillInterval * nsPerMs := by
      rw [interval, hs.config_eq]
    rcases h.cases with ⟨hop, -⟩ | ⟨-, hattempted, heq⟩ | ⟨-, hattempted, heq⟩
    · exact absurd hop hreset
    · have hprice : taken (fun x : Event ι × ℤ => Granted x.1) (config.refillInterval * nsPerMs) x =
          price s.limiter (s.limiter.tryAcquire x.2 x.1.now).1 := by
        rw [taken, price, hcost]
        simp only [granted_iff_attempted, hattempted, Option.some.injEq]
      have hcredit := (tryAcquire_credit hs.wellFormed hpast x.2).1
      rw [hcost, hs.config_eq, ← hprice, ← heq] at hcredit
      exact hcredit
    · have hnone : taken (fun x : Event ι × ℤ => Granted x.1) (config.refillInterval * nsPerMs) x =
          0 := by
        rw [taken]
        simp [granted_iff_attempted, hattempted]
      left
      rw [heq, hnone, sub_zero]
  credit_exempt := by
    intro s x s' hs h hreset
    rcases h.cases with ⟨-, heq⟩ | ⟨hop, -⟩ | ⟨hop, -⟩
    · simp [heq, credit, reset, interval, hs.config_eq]
    · exact absurd hreset hop
    · exact absurd hreset hop

/-- `n` tokens are paid for by the credit of a window, if `m` and its length are. -/
theorem add_ediv_le {I m d : ℤ} {g : ℕ} (hI : 0 < I) (h : m * I + d < I * (g + 1)) :
    m + d / I ≤ g := by
  have hlt : d / I < g + 1 - m := by
    refine Int.ediv_lt_of_lt_mul hI ?_
    linarith
  omega

/-- In every run of any number of callers: where an attempt fails with quota left, one more
    acquisition would break the rate. There is a window up to the attempt with `max_tokens`
    acquisitions and one more for each `refill_interval` of it; or it starts at the
    constructor or a `reset`, and there are those that `initial_tokens` allow. -/
theorem refusal_forced (config : RateLimiter.Config) {now sys : ℤ} {tr : List (Event ι × ℤ)}
    {s s' : System ι} (h : Run StepAt (start config now sys) tr s) {x : Event ι × ℤ}
    (hx : StepAt s x s') (hrefused : x.1.op.attempted = some false)
    (hquota : 0 < s.limiter.dailyRequestsRemaining x.2) :
    ∃ t1 ≤ x.1.now,
      ((sanitized config).maxTokens.toNat +
          (x.1.now - t1) / ((sanitized config).refillInterval * nsPerMs) ≤
        (acquisitions t1 x.1.now (tr.map Prod.fst) : ℤ)) ∨
      ((t1 = now ∨ ∃ y ∈ tr, y.1.op = .reset ∧ y.1.now = t1) ∧
        (sanitized config).initialTokens.toNat +
            (x.1.now - t1) / ((sanitized config).refillInterval * nsPerMs) ≤
          (acquisitions t1 x.1.now (tr.map Prod.fst) : ℤ)) := by
  have hsane := sanitized_sane config
  have hI : 0 < (sanitized config).refillInterval * nsPerMs :=
    mul_pos hsane.refillInterval_pos (by decide)
  have hstart := start_invariant (ι := ι) config now sys
  have hinv : Invariant (sanitized config) s :=
    h.invariant (fun _ _ _ hs h => h.step.invariant hs) hstart
  obtain ⟨hclock, -, -⟩ := hx.step.limiter_cases
  have hlow : s.limiter.credit x.1.now < (sanitized config).refillInterval * nsPerMs := by
    have hfalse : (s.limiter.tryAcquire x.2 x.1.now).1 = false := by
      rcases hx.cases with ⟨hop, -⟩ | ⟨-, hattempted, -⟩ | ⟨-, hnone, -⟩
      · rw [hop] at hrefused
        cases hrefused
      · exact Option.some.inj (hattempted.symm.trans hrefused)
      · rw [hnone] at hrefused
        cases hrefused
    have hnot : ¬ (s.limiter.checkDailyReset x.2).QuotaReached := by
      rw [quotaReached_iff, quotaLeft, checkDailyReset_config, ← dailyRequestsRemaining_eq]
      exact hquota.ne'
    have := (tryAcquire_credit hinv.wellFormed (hinv.lastRefill_le.trans hclock) x.2).2 hfalse hnot
    rwa [interval, hinv.config_eq] at this
  have hfresh : (start config now sys : System ι).limiter.credit now =
      (sanitized config).initialTokens.toNat * ((sanitized config).refillInterval * nsPerMs) := by
    simp [start, RateLimiter.new, credit, interval]
  obtain ⟨t1, n, ht1, hn, hpaid⟩ :=
    (tightSystem (sanitized config) hsane).grants_ge h hstart hfresh hclock hlow
  have hgrants : CreditSystem.grants (fun x : Event ι × ℤ => x.1.now) (fun x => Granted x.1) t1
      x.1.now tr = acquisitions t1 x.1.now (tr.map Prod.fst) := by
    rw [acquisitions, CreditSystem.grants, CreditSystem.grants, List.countP_map]
    rfl
  rw [hgrants] at hpaid
  refine ⟨t1, ht1, ?_⟩
  rcases hn with rfl | ⟨rfl, hfrom⟩
  · exact .inl (add_ediv_le hI hpaid)
  · exact .inr ⟨hfrom, add_ediv_le hI hpaid⟩

/-- Of two callers within 200 ms the second one is refused. -/
theorem refusal_forced_oneToken :
    ∃ t1 ≤ (100000000 : ℤ), (sanitized oneToken).maxTokens.toNat + (100000000 - t1) /
        ((sanitized oneToken).refillInterval * nsPerMs) ≤
      (acquisitions t1 100000000 [(⟨false, .tryAcquire true, 0⟩ : Event Bool)] : ℤ) := by
  have h1 : (RateLimiter.new oneToken 0 0).tryAcquire 0 0 =
      (true, ⟨oneToken, 0, 0, 1, 0⟩) := by decide
  have h2 : (⟨oneToken, 0, 0, 1, 0⟩ : RateLimiter).tryAcquire 0 100000000 =
      (false, ⟨oneToken, 0, 0, 1, 0⟩) := by decide
  have hquota : 0 < (⟨oneToken, 0, 0, 1, 0⟩ : RateLimiter).dailyRequestsRemaining 0 := by decide
  have hrun : Run StepAt (start oneToken 0 0) [((⟨false, .tryAcquire true, 0⟩ : Event Bool), 0)]
      ⟨⟨oneToken, 0, 0, 1, 0⟩, fun _ => .idle, 0⟩ :=
    .cons ⟨.tryAcquire 0 le_rfl rfl h1, (congrArg Prod.snd h1).symm, congrArg Prod.fst h1⟩ .nil
  have hnext : StepAt ⟨⟨oneToken, 0, 0, 1, 0⟩, fun _ => .idle, 0⟩
      ((⟨true, .tryAcquire false, 100000000⟩ : Event Bool), 0)
      ⟨⟨oneToken, 0, 0, 1, 0⟩, fun _ => .idle, 100000000⟩ :=
    ⟨.tryAcquire 0 (by norm_num) rfl h2, (congrArg Prod.snd h2).symm, congrArg Prod.fst h2⟩
  obtain ⟨t1, ht1, hfull | ⟨-, hstart⟩⟩ := refusal_forced oneToken hrun hnext rfl hquota
  · exact ⟨t1, ht1, hfull⟩
  · exact ⟨t1, ht1, hstart⟩

end NceiCpp.Core.RateLimitCallers
