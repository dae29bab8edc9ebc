import NceiCpp.Common.Bytes

/-!
# The rate limiter

Model of `include/ncei/rate_limit.hpp` and `src/core/rate_limit.cpp`. A member function
is a function of the limiter and of the clock readings it makes, in their order: `sys`
is a reading of `std::chrono::system_clock` and `now` one of `std::chrono::steady_clock`,
both in nanoseconds. `std::chrono::milliseconds` values are integers. The members that
are `std::uint16_t` are `UInt16`; `daily_requests_used_` stays within `std::int32_t` by
the guard of the source, so it is an integer.

* `WellFormed`: what the constructor establishes and every member function keeps.
* `tryAcquire_eq`, `refill_cases`, `tryAcquire_cases`: what an attempt and a refill do.
* `refill_refill`, `checkDailyReset_checkDailyReset`: two of them in a row are one.
* `refill_refilled`, `tryAcquire_attempted`: the tokens and the time since the last refill
  are a credit, which a refill does not increase and an acquisition spends.
-/

namespace NceiCpp.Core

/-- Nanoseconds in a `std::chrono::milliseconds{1}`. -/
def nsPerMs : ℤ := 1000000

/-- Nanoseconds in a `std::chrono::days{1}`. -/
def nsPerDay : ℤ := 86400000000000

/-- `std::chrono::floor<std::chrono::days>`, as the number of the day. -/
def floorDays (sys : ℤ) : ℤ := sys / nsPerDay

namespace RateLimiter

structure Config where
  maxTokens : UInt16 := 5
  refillInterval : ℤ := 200
  initialTokens : UInt16 := 5
  maxWait : Option ℤ := none
  dailyLimit : Int32 := 10000
  deriving DecidableEq

/-- What `sanitized` makes sure of. -/
structure Config.Sane (config : Config) : Prop where
  maxTokens_pos : 0 < config.maxTokens.toNat
  initialTokens_le : config.initialTokens.toNat ≤ config.maxTokens.toNat
  refillInterval_pos : 0 < config.refillInterval

/-- `sanitized` (lines 8–15). -/
def sanitized (config : Config) : Config :=
  let maxTokens := if config.maxTokens < 1 then 1 else config.maxTokens
  { config with
    maxTokens := maxTokens
    initialTokens :=
      if maxTokens < config.initialTokens then maxTokens else config.initialTokens
    refillInterval := if config.refillInterval ≤ 0 then 200 else config.refillInterval }

theorem sanitized_sane (config : Config) : (sanitized config).Sane := by
  constructor
  · show 0 < (if config.maxTokens < 1 then (1 : UInt16) else config.maxTokens).toNat
    split_ifs with h
    · decide
    · rw [UInt16.lt_iff_toNat_lt] at h
      have : (1 : UInt16).toNat = 1 := rfl
      omega
  · simp only [sanitized]
    generalize (if config.maxTokens < 1 then (1 : UInt16) else config.maxTokens) = m
    split_ifs with h
    · exact le_rfl
    · rw [UInt16.lt_iff_toNat_lt] at h
      omega
  · show 0 < if config.refillInterval ≤ 0 then (200 : ℤ) else config.refillInterval
    split_ifs with h
    · norm_num
    · omega

end RateLimiter

/-- `RateLimiter`; `lastRefill` is in nanoseconds, `dayStart` the number of a day. -/
structure RateLimiter where
  config : RateLimiter.Config
  tokens : UInt16
  lastRefill : ℤ
  dailyRequestsUsed : ℤ := 0
  dayStart : ℤ
  deriving DecidableEq

namespace RateLimiter

/-- The constructor (lines 18–21). -/
def new (config : Config) (now sys : ℤ) : RateLimiter where
  config := sanitized config
  tokens := (sanitized config).initialTokens
  lastRefill := now
  dayStart := floorDays sys

/-- `check_daily_reset` (lines 23–30). -/
def checkDailyReset (s : RateLimiter) (sys : ℤ) : RateLimiter :=
  let currentDay := floorDays sys
  if currentDay > s.dayStart then { s with dailyRequestsUsed := 0, dayStart := currentDay } else s

/-- The tokens earned from `lastRefill` to `now`: `duration_cast` and the division both
    truncate. -/
def earned (s : RateLimiter) (now : ℤ) : ℤ :=
  ((now - s.lastRefill).tdiv nsPerMs).tdiv s.config.refillInterval

/-- `refill` (lines 32–53). -/
def refill (s : RateLimiter) (now : ℤ) : RateLimiter :=
  if s.tokens ≥ s.config.maxTokens then { s with lastRefill := now }
  else
    let earned := s.earned now
    if earned ≤ 0 then s
    else
      let total := (s.tokens.toNat : ℤ) + earned
      if total ≥ s.config.maxTokens.toNat then
        { s with tokens := s.config.maxTokens, lastRefill := now }
      else
        { s with
          tokens := UInt16.ofNat total.toNat
          lastRefill := s.lastRefill + earned * (s.config.refillInterval * nsPerMs) }

/-- `try_acquire` (lines 55–72). -/
def tryAcquire (s : RateLimiter) (sys now : ℤ) : Bool × RateLimiter :=
  let s := s.checkDailyReset sys
  if s.config.dailyLimit > 0 ∧ s.dailyRequestsUsed ≥ s.config.dailyLimit.toInt then (false, s)
  else
    let s := s.refill now
    if s.tokens > 0 then
      let s := { s with tokens := s.tokens - 1 }
      if s.dailyRequestsUsed < int32Max then
        (true, { s with dailyRequestsUsed := s.dailyRequestsUsed + 1 })
      else (true, s)
    else (false, s)

/-- The daily quota is used up. -/
def QuotaReached (s : RateLimiter) : Prop :=
  s.config.dailyLimit > 0 ∧ s.dailyRequestsUsed ≥ s.config.dailyLimit.toInt

instance (s : RateLimiter) : Decidable s.QuotaReached := by
  unfold QuotaReached
  infer_instance

/-- The limiter after a token is taken. -/
def take (s : RateLimiter) : RateLimiter :=
  { s with
    tokens := s.tokens - 1
    dailyRequestsUsed :=
      if s.dailyRequestsUsed < int32Max then s.dailyRequestsUsed + 1 else s.dailyRequestsUsed }

theorem tryAcquire_eq (s : RateLimiter) (sys now : ℤ) :
    s.tryAcquire sys now =
      if (s.checkDailyReset sys).QuotaReached then (false, s.checkDailyReset sys)
      else if ((s.checkDailyReset sys).refill now).tokens > 0 then
        (true, ((s.checkDailyReset sys).refill now).take)
      else (false, (s.checkDailyReset sys).refill now) := by
  by_cases hquota : (s.checkDailyReset sys).QuotaReached
  · rw [if_pos hquota]
    unfold QuotaReached at hquota
    rw [tryAcquire, if_pos hquota]
  · rw [if_neg hquota]
    unfold QuotaReached at hquota
    rw [tryAcquire, if_neg hquota]
    unfold take
    dsimp only
    split_ifs <;> rfl

/-- `Clock::time_point::max()`. -/
def timePointMax : ℤ := 2 ^ 63 - 1

/-- `deadline` of `acquire_for` (lines 90–95). -/
def deadline (now maxWait : ℤ) : ℤ :=
  let remaining := (timePointMax - now).tdiv nsPerMs
  if maxWait ≤ 0 then now
  else if maxWait ≥ remaining then timePointMax
  else now + maxWait * nsPerMs

/-- `available_tokens` (lines 110–119). -/
def availableTokens (s : RateLimiter) (now : ℤ) : UInt16 :=
  UInt16.ofNat (min ((s.tokens.toNat : ℤ) + max (s.earned now) 0) s.config.maxTokens.toNat).toNat

/-- `daily_requests_remaining` (lines 121–134). -/
def dailyRequestsRemaining (s : RateLimiter) (sys : ℤ) : ℤ :=
  if s.config.dailyLimit ≤ 0 then int32Max
  else if floorDays sys > s.dayStart then s.config.dailyLimit.toInt
  else max (s.config.dailyLimit.toInt - s.dailyRequestsUsed) 0

/-- `reset` (lines 136–142). -/
def reset (s : RateLimiter) (now sys : ℤ) : RateLimiter :=
  { s with
    tokens := s.config.initialTokens
    lastRefill := now
    dailyRequestsUsed := 0
    dayStart := floorDays sys }

/-! ## What the member functions keep -/

/-- The configuration is sane and the tokens are within it. -/
structure WellFormed (s : RateLimiter) : Prop where
  sane : s.config.Sane
  tokens_le : s.tokens.toNat ≤ s.config.maxTokens.toNat

theorem new_wellFormed (config : Config) (now sys : ℤ) : (new config now sys).WellFormed :=
  ⟨sanitized_sane config, (sanitized_sane config).initialTokens_le⟩

theorem reset_wellFormed {s : RateLimiter} (h : s.WellFormed) (now sys : ℤ) :
    (s.reset now sys).WellFormed := ⟨h.sane, h.sane.initialTokens_le⟩

@[simp] theorem checkDailyReset_config (s : RateLimiter) (sys : ℤ) :
    (s.checkDailyReset sys).config = s.config := by
  unfold checkDailyReset
  dsimp only
  split_ifs <;> rfl

@[simp] theorem checkDailyReset_tokens (s : RateLimiter) (sys : ℤ) :
    (s.checkDailyReset sys).tokens = s.tokens := by
  unfold checkDailyReset
  dsimp only
  split_ifs <;> rfl

@[simp] theorem checkDailyReset_lastRefill (s : RateLimiter) (sys : ℤ) :
    (s.checkDailyReset sys).lastRefill = s.lastRefill := by
  unfold checkDailyReset
  dsimp only
  split_ifs <;> rfl

theorem checkDailyReset_of_lt {s : RateLimiter} {sys : ℤ} (h : s.dayStart < floorDays sys) :
    s.checkDailyReset sys = { s with dailyRequestsUsed := 0, dayStart := floorDays sys } :=
  if_pos h

theorem checkDailyReset_of_le {s : RateLimiter} {sys : ℤ} (h : floorDays sys ≤ s.dayStart) :
    s.checkDailyReset sys = s := if_neg (not_lt.mpr h)

/-- Two checks of the day are one at the later time. -/
theorem checkDailyReset_checkDailyReset (s : RateLimiter) {sys1 sys2 : ℤ} (h : sys1 ≤ sys2) :
    (s.checkDailyReset sys1).checkDailyReset sys2 = s.checkDailyReset sys2 := by
  have hday : floorDays sys1 ≤ floorDays sys2 := Int.ediv_le_ediv (by decide) h
  rcases lt_or_ge s.dayStart (floorDays sys1) with h1 | h1
  · rw [checkDailyReset_of_lt h1, checkDailyReset_of_lt (h1.trans_le hday)]
    rcases hday.lt_or_eq with h2 | h2
    · exact checkDailyReset_of_lt h2
    · rw [h2]
      exact checkDailyReset_of_le le_rfl
  · rw [checkDailyReset_of_le h1]

@[simp] theorem refill_config (s : RateLimiter) (now : ℤ) : (s.refill now).config = s.config := by
  unfold refill
  dsimp only
  split_ifs <;> rfl

@[simp] theorem refill_dailyRequestsUsed (s : RateLimiter) (now : ℤ) :
    (s.refill now).dailyRequestsUsed = s.dailyRequestsUsed := by
  unfold refill
  dsimp only
  split_ifs <;> rfl

@[simp] theorem refill_dayStart (s : RateLimiter) (now : ℤ) :
    (s.refill now).dayStart = s.dayStart := by
  unfold refill
  dsimp only
  split_ifs <;> rfl

/-- The time one token takes, in nanoseconds. -/
def interval (s : RateLimiter) : ℤ := s.config.refillInterval * nsPerMs

theorem WellFormed.interval_pos {s : RateLimiter} (h : s.WellFormed) : 0 < s.interval :=
  mul_pos h.sane.refillInterval_pos (by decide)

/-- Two truncating divisions of a nonnegative time are one floor division. -/
theorem earned_eq {s : RateLimiter} {now : ℤ} (hnow : s.lastRefill ≤ now) :
    s.earned now = (now - s.lastRefill) / s.interval := by
  have hms : (0 : ℤ) ≤ nsPerMs := by decide
  have hdiff : 0 ≤ now - s.lastRefill := by omega
  rw [earned, Int.tdiv_eq_ediv_of_nonneg hdiff,
    Int.tdiv_eq_ediv_of_nonneg (Int.ediv_nonneg hdiff hms), Int.ediv_ediv_of_nonneg hms,
    interval, mul_comm]

/-- The tokens of a limiter and the time since the last refill, in nanoseconds. -/
def credit (s : RateLimiter) (now : ℤ) : ℤ :=
  s.tokens.toNat * s.interval + (now - s.lastRefill)

/-- A refill either fills the bucket, which the credit pays for, or adds the tokens of the
    whole intervals that have passed. -/
theorem refill_cases {s : RateLimiter} {now : ℤ} (h : s.WellFormed) (hnow : s.lastRefill ≤ now) :
    (s.refill now = { s with tokens := s.config.maxTokens, lastRefill := now } ∧
      s.config.maxTokens.toNat * s.interval ≤ s.credit now) ∨
    ∃ (n : UInt16) (k : ℤ),
      s.refill now = { s with tokens := n, lastRefill := s.lastRefill + k * s.interval } ∧
      (n.toNat : ℤ) = s.tokens.toNat + k ∧ n.toNat < s.config.maxTokens.toNat ∧
      k * s.interval ≤ now - s.lastRefill ∧ now - s.lastRefill < (k + 1) * s.interval := by
  have hI := h.interval_pos
  have hle := h.tokens_le
  have hk1 := Int.ediv_mul_le (now - s.lastRefill) hI.ne'
  have hk2 := Int.lt_ediv_add_one_mul_self (now - s.lastRefill) hI
  have hk0 : 0 ≤ (now - s.lastRefill) / s.interval := Int.ediv_nonneg (by omega) hI.le
  unfold refill
  rw [earned_eq hnow]
  generalize (now - s.lastRefill) / s.interval = k at *
  dsimp only
  split_ifs with hfull hnone htotal
  · -- the bucket is full
    rw [ge_iff_le, UInt16.le_iff_toNat_le] at hfull
    have heq : s.tokens = s.config.maxTokens := UInt16.toNat_inj.mp (by omega)
    refine .inl ⟨by rw [heq], ?_⟩
    rw [credit, heq]
    omega
  · -- no interval has passed
    rw [ge_iff_le, UInt16.le_iff_toNat_le] at hfull
    have hk : k = 0 := by omega
    refine .inr ⟨s.tokens, k, ?_, by omega, by omega, hk1, hk2⟩
    simp [hk]
  · -- the tokens earned fill the bucket
    refine .inl ⟨rfl, ?_⟩
    have := mul_le_mul_of_nonneg_right htotal hI.le
    rw [credit]
    linarith
  · have hlt : (s.tokens.toNat + k).toNat < 2 ^ 16 := by
      have := s.config.maxTokens.toNat_lt
      omega
    have hn : (UInt16.ofNat (s.tokens.toNat + k).toNat).toNat = (s.tokens.toNat + k).toNat :=
      UInt16.toNat_ofNat_of_lt hlt
    refine .inr ⟨_, k, rfl, by omega, by omega, hk1, hk2⟩

/-- A refill depends on the tokens and the time of the last refill through the credit only. -/
theorem refill_eq {s : RateLimiter} {now : ℤ} (h : s.WellFormed) (hnow : s.lastRefill ≤ now) :
    s.refill now =
      if s.config.maxTokens.toNat * s.interval ≤ s.credit now then
        { s with tokens := s.config.maxTokens, lastRefill := now }
      else
        { s with
          tokens := UInt16.ofNat (s.credit now / s.interval).toNat
          lastRefill := now - s.credit now % s.interval } := by
  have hI := h.interval_pos
  rcases refill_cases h hnow with ⟨heq, hcredit⟩ | ⟨n, k, heq, hn, hlt, hk1, hk2⟩
  · rw [heq, if_pos hcredit]
  · have hcredit : s.credit now = (now - s.lastRefill - k * s.interval) + n.toNat * s.interval := by
      rw [credit, hn]
      ring
    have h0 : 0 ≤ now - s.lastRefill - k * s.interval := by omega
    have h1 : now - s.lastRefill - k * s.interval < s.interval := by linarith
    have hroom : ((n.toNat : ℤ) + 1) * s.interval ≤ s.config.maxTokens.toNat * s.interval :=
      mul_le_mul_of_nonneg_right (by omega) hI.le
    have hdiv : s.credit now / s.interval = n.toNat := by
      rw [hcredit, Int.add_mul_ediv_right _ _ hI.ne', Int.ediv_eq_zero_of_lt h0 h1, zero_add]
    have hmod : s.credit now % s.interval = now - s.lastRefill - k * s.interval := by
      rw [hcredit, Int.add_mul_emod_self_right, Int.emod_eq_of_lt h0 h1]
    rw [heq, if_neg (by linarith), hdiv, hmod, Int.toNat_natCast, UInt16.ofNat_toNat]
    congr 1
    omega

/-- A full bucket stays full. -/
theorem refill_of_full {s : RateLimiter} (h : s.config.maxTokens ≤ s.tokens) (now : ℤ) :
    s.refill now = { s with lastRefill := now } := if_pos h

/-- The observer of the tokens agrees with the refill. -/
theorem availableTokens_eq {s : RateLimiter} (h : s.WellFormed) (now : ℤ) :
    s.availableTokens now = (s.refill now).tokens := by
  have hle := h.tokens_le
  have hmax := s.config.maxTokens.toNat_lt
  have hcast : ∀ n : UInt16, UInt16.ofNat ((n.toNat : ℤ)).toNat = n := fun n => by
    rw [Int.toNat_natCast, UInt16.ofNat_toNat]
  unfold availableTokens refill
  dsimp only
  split_ifs with hfull hnone htotal
  · rw [ge_iff_le, UInt16.le_iff_toNat_le] at hfull
    have heq : s.tokens = s.config.maxTokens := UInt16.toNat_inj.mp (by omega)
    rw [heq, min_eq_right (by omega), hcast]
  · rw [max_eq_right hnone, add_zero, min_eq_left (by omega), hcast]
  · rw [max_eq_left (by omega), min_eq_right htotal, hcast]
  · rw [max_eq_left (by omega), min_eq_left (by omega)]

/-- Two refills are one at the later time. -/
theorem refill_refill {s : RateLimiter} {t1 t2 : ℤ} (h : s.WellFormed) (h1 : s.lastRefill ≤ t1)
    (h12 : t1 ≤ t2) : (s.refill t1).refill t2 = s.refill t2 := by
  have hI := h.interval_pos
  have hlater : s.credit t2 = s.credit t1 + (t2 - t1) := by
    unfold credit
    ring
  rcases refill_cases h h1 with ⟨heq, hcredit⟩ | ⟨n, k, heq, hn, hlt, hk1, hk2⟩
  · rw [heq, refill_eq h (h1.trans h12), if_pos (by omega)]
    exact refill_of_full (UInt16.le_refl _) t2
  · have hcredit : (s.refill t1).credit t2 = s.credit t2 := by
      simp only [heq, credit, interval] at hn ⊢
      rw [hn]
      ring
    have hwf : (s.refill t1).WellFormed := by
      rw [heq]
      exact ⟨h.sane, hlt.le⟩
    have hlast : (s.refill t1).lastRefill ≤ t2 := by
      rw [heq]
      show s.lastRefill + k * s.interval ≤ t2
      omega
    rw [refill_eq hwf hlast, refill_eq h (h1.trans h12), hcredit, heq]
    rfl

/-- A refill changes the tokens and the time of the last refill only. It leaves the limiter
    well formed, creates no credit, and leaves no more credit than a full bucket. -/
structure Refilled (s s' : RateLimiter) (now : ℤ) : Prop where
  config : s'.config = s.config
  dailyRequestsUsed : s'.dailyRequestsUsed = s.dailyRequestsUsed
  dayStart : s'.dayStart = s.dayStart
  wellFormed : s'.WellFormed
  lastRefill_le : s'.lastRefill ≤ now
  credit_le : s'.credit now ≤ s.credit now
  credit_le_full : s'.credit now ≤ s.config.maxTokens.toNat * s.interval

theorem refill_refilled {s : RateLimiter} {now : ℤ} (h : s.WellFormed)
    (hnow : s.lastRefill ≤ now) : Refilled s (s.refill now) now := by
  have hI := h.interval_pos
  rcases refill_cases h hnow with ⟨heq, hcredit⟩ | ⟨n, k, heq, hn, hlt, hk1, hk2⟩
  · have hfull : (s.refill now).credit now = s.config.maxTokens.toNat * s.interval := by
      simp [heq, credit, interval]
    rw [heq] at hfull ⊢
    exact ⟨rfl, rfl, rfl, ⟨h.sane, le_rfl⟩, le_rfl, hfull.trans_le hcredit, hfull.le⟩
  · have hsame : (s.refill now).credit now = s.credit now := by
      simp only [heq, credit, interval] at hn ⊢
      rw [hn]
      ring
    have hroom : ((n.toNat : ℤ) + 1) * s.interval ≤ s.config.maxTokens.toNat * s.interval :=
      mul_le_mul_of_nonneg_right (by omega) hI.le
    rw [heq] at hsame ⊢
    refine ⟨rfl, rfl, rfl, ⟨h.sane, hlt.le⟩, by show s.lastRefill + k * s.interval ≤ now; omega,
      hsame.le, ?_⟩
    rw [hsame, credit]
    rw [hn] at hroom
    linarith

/-! ## Attempts -/

/-- What an attempt that the quota allows does to the daily counter. -/
theorem tryAcquire_counts {s : RateLimiter} {sys : ℤ}
    (h : ¬ (s.checkDailyReset sys).QuotaReached) (now : ℤ) :
    (s.tryAcquire sys now).2.config = s.config ∧
      (s.tryAcquire sys now).2.dayStart = (s.checkDailyReset sys).dayStart ∧
      ((s.tryAcquire sys now).1 = false → (s.tryAcquire sys now).2.dailyRequestsUsed =
        (s.checkDailyReset sys).dailyRequestsUsed) ∧
      ((s.tryAcquire sys now).1 = true → (s.checkDailyReset sys).dailyRequestsUsed < int32Max →
        (s.tryAcquire sys now).2.dailyRequestsUsed =
          (s.checkDailyReset sys).dailyRequestsUsed + 1) := by
  rw [tryAcquire_eq, if_neg h]
  split_ifs with htoken
  · refine ⟨by simp [take], by simp [take], ?_, ?_⟩
    · intro h
      simp at h
    · intro _ hlt
      simp [take, hlt]
  · refine ⟨by simp, by simp, by simp, ?_⟩
    intro h
    simp at h

/-- An attempt that the quota allows fails for lack of a token only. -/
theorem tokens_eq_zero_of_not {s : RateLimiter} {sys now : ℤ}
    (h : ¬ (s.checkDailyReset sys).QuotaReached) (hfalse : (s.tryAcquire sys now).1 = false) :
    ((s.checkDailyReset sys).refill now).tokens = 0 := by
  rw [tryAcquire_eq, if_neg h] at hfalse
  split_ifs at hfalse with htoken
  rw [gt_iff_lt, UInt16.lt_iff_toNat_lt, not_lt] at htoken
  exact UInt16.toNat_inj.mp (Nat.le_zero.mp htoken)

theorem WellFormed.checkDailyReset {s : RateLimiter} (h : s.WellFormed) (sys : ℤ) :
    (s.checkDailyReset sys).WellFormed := by
  refine ⟨?_, ?_⟩
  · rw [checkDailyReset_config]
    exact h.sane
  · rw [checkDailyReset_config, checkDailyReset_tokens]
    exact h.tokens_le

theorem credit_checkDailyReset (s : RateLimiter) (sys now : ℤ) :
    (s.checkDailyReset sys).credit now = s.credit now := by
  simp only [credit, interval, checkDailyReset_config, checkDailyReset_tokens,
    checkDailyReset_lastRefill]

/-- An attempt fails on the quota, or it refills and takes a token, or it refills and there
    is none. -/
theorem tryAcquire_cases {s : RateLimiter} {now : ℤ} (h : s.WellFormed)
    (hnow : s.lastRefill ≤ now) (sys : ℤ) :
    ((s.checkDailyReset sys).QuotaReached ∧
      s.tryAcquire sys now = (false, s.checkDailyReset sys)) ∨
    (¬ (s.checkDailyReset sys).QuotaReached ∧
      ∃ s', Refilled (s.checkDailyReset sys) s' now ∧
        ((0 < s'.tokens.toNat ∧ s.tryAcquire sys now = (true, s'.take)) ∨
          (s'.tokens.toNat = 0 ∧ s.tryAcquire sys now = (false, s')))) := by
  have hrefill := refill_refilled (h.checkDailyReset sys)
    (show (s.checkDailyReset sys).lastRefill ≤ now by rwa [checkDailyReset_lastRefill])
  have hzero : (0 : UInt16).toNat = 0 := rfl
  rw [tryAcquire_eq]
  split_ifs with hquota htoken
  · exact .inl ⟨hquota, rfl⟩
  · rw [gt_iff_lt, UInt16.lt_iff_toNat_lt] at htoken
    exact .inr ⟨hquota, _, hrefill, .inl ⟨htoken, rfl⟩⟩
  · rw [gt_iff_lt, UInt16.lt_iff_toNat_lt] at htoken
    exact .inr ⟨hquota, _, hrefill, .inr ⟨by omega, rfl⟩⟩

/-- A failing attempt checks the day and does nothing else: a refill that earns a token leaves
    one to take. -/
theorem tryAcquire_of_false {s : RateLimiter} {sys now : ℤ} (h : s.WellFormed)
    (hfalse : (s.tryAcquire sys now).1 = false) :
    s.tryAcquire sys now = (false, s.checkDailyReset sys) := by
  have hpos := (h.checkDailyReset sys).sane.maxTokens_pos
  have hle := (h.checkDailyReset sys).tokens_le
  rw [tryAcquire_eq] at hfalse ⊢
  split_ifs at hfalse ⊢ with hquota htoken
  · rfl
  · generalize s.checkDailyReset sys = s at *
    have hzero : (0 : UInt16).toNat = 0 := rfl
    have hmax := s.config.maxTokens.toNat_lt
    rw [gt_iff_lt, UInt16.lt_iff_toNat_lt, not_lt, hzero] at htoken
    unfold refill at htoken ⊢
    dsimp only at htoken ⊢
    split_ifs at htoken ⊢ with hfull hnone htotal
    · rw [ge_iff_le, UInt16.le_iff_toNat_le] at hfull
      dsimp only at htoken
      omega
    · rfl
    · dsimp only at htoken
      omega
    · have hlt : (s.tokens.toNat + s.earned now).toNat < 2 ^ 16 := by omega
      have hn : (UInt16.ofNat (s.tokens.toNat + s.earned now).toNat).toNat =
          (s.tokens.toNat + s.earned now).toNat := UInt16.toNat_ofNat_of_lt hlt
      dsimp only at htoken
      omega

theorem toNat_tokens_take {s : RateLimiter} (h : 0 < s.tokens.toNat) :
    s.take.tokens.toNat = s.tokens.toNat - 1 := by
  have hone : (1 : UInt16).toNat = 1 := rfl
  rw [take, UInt16.toNat_sub_of_le _ _ (UInt16.le_iff_toNat_le.mpr (by omega)), hone]

theorem Refilled.take {s s' : RateLimiter} {now : ℤ} (h : Refilled s s' now)
    (htoken : 0 < s'.tokens.toNat) :
    s'.take.WellFormed ∧ s'.take.credit now + s'.interval = s'.credit now := by
  have htokens := toNat_tokens_take htoken
  constructor
  · refine ⟨h.wellFormed.sane, ?_⟩
    have := h.wellFormed.tokens_le
    show s'.take.tokens.toNat ≤ s'.config.maxTokens.toNat
    omega
  · have hcast : ((s'.tokens.toNat - 1 : ℕ) : ℤ) = s'.tokens.toNat - 1 := by omega
    rw [credit, credit, htokens, hcast]
    show (s'.tokens.toNat - 1 : ℤ) * s'.interval + (now - s'.lastRefill) + s'.interval = _
    ring

/-- What an attempt does to the bucket: it leaves the limiter well formed, creates no
    credit, and if it succeeds the credit of one token goes, from a full bucket at most. -/
structure Attempted (s s' : RateLimiter) (granted : Bool) (now : ℤ) : Prop where
  config : s'.config = s.config
  wellFormed : s'.WellFormed
  lastRefill_le : s'.lastRefill ≤ now
  credit_le : s'.credit now ≤ s.credit now
  credit_granted : granted = true → s'.credit now + s.interval ≤ s.credit now ∧
    s'.credit now + s.interval ≤ s.config.maxTokens.toNat * s.interval

theorem tryAcquire_attempted {s : RateLimiter} {now : ℤ} (h : s.WellFormed)
    (hnow : s.lastRefill ≤ now) (sys : ℤ) :
    Attempted s (s.tryAcquire sys now).2 (s.tryAcquire sys now).1 now := by
  have hI := h.interval_pos
  have hconfig := checkDailyReset_config s sys
  have hcredit := credit_checkDailyReset s sys now
  have hinterval : (s.checkDailyReset sys).interval = s.interval := by
    simp only [interval, hconfig]
  rcases tryAcquire_cases h hnow sys with ⟨-, heq⟩ | ⟨-, s', hr, ⟨htoken, heq⟩ | ⟨-, heq⟩⟩
  · rw [heq]
    exact ⟨hconfig, h.checkDailyReset sys, by rwa [checkDailyReset_lastRefill], hcredit.le,
      fun h => by cases h⟩
  · rw [heq]
    obtain ⟨hwf, hpaid⟩ := hr.take htoken
    have hs' : s'.interval = s.interval := by simp only [interval, hr.config, hconfig]
    have h1 := hr.credit_le
    have h2 := hr.credit_le_full
    rw [hinterval, hconfig] at h2
    rw [hs'] at hpaid
    refine ⟨hr.config.trans hconfig, hwf, hr.lastRefill_le, ?_, fun _ => ⟨?_, ?_⟩⟩ <;>
      · simp only
        omega
  · rw [heq]
    have h1 := hr.credit_le
    exact ⟨hr.config.trans hconfig, hr.wellFormed, hr.lastRefill_le, by rwa [hcredit] at h1,
      fun h => by cases h⟩

end RateLimiter

end NceiCpp.Core
