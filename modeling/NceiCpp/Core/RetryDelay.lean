import NceiCpp.Common.Number
import NceiCpp.Core.Retry
import NceiCpp.Lib.CappedGrowth

/-!
# Retry delays

Model of `calculate_retry_delay` (`include/ncei/retry.hpp`, lines 59–83) with exact numbers
in place of `double`. `std::chrono::milliseconds` values are integers. The distribution
`std::uniform_real_distribution` is a parameter, on a random generator with states `ρ`; it
draws from the interval it is given.

* `backoffDelay_eq`: the loop computes a capped power.
* `calculateRetryDelay_eq`: what is returned for a jitter drawn.
* `withRetry_slept`: what one call of `with_retry` sleeps.
-/

namespace NceiCpp.Core

open CappedGrowth Exec

/-- `RetryPolicy` with the fields that the delay depends on. -/
structure DelayPolicy extends RetryPolicy where
  initialDelay : ℤ := 200
  maxDelay : ℤ := 30000
  backoffMultiplier : Double := .finite 2
  jitterFactor : Double := .finite (1 / 10)
  deriving DecidableEq

/-- `std::clamp`. -/
def clamp {α : Type} [LinearOrder α] (v lo hi : α) : α :=
  if v < lo then lo else if hi < v then hi else v

/-- `static_cast<std::int64_t>` of a `double` in its range. -/
def truncate (v : ℚ) : ℤ := v.num.tdiv v.den

namespace DelayPolicy

/-- `maximum` (lines 61–62). -/
def maximum (policy : DelayPolicy) : ℤ := max policy.maxDelay 0

/-- `delay_ms` before the loop (lines 64–65). -/
def firstDelay (policy : DelayPolicy) : ℤ := clamp policy.initialDelay 0 policy.maximum

/-- `multiplier` (lines 66–67). -/
def multiplier (policy : DelayPolicy) : ℚ :=
  match policy.backoffMultiplier with
  | .finite v => max v 0
  | _ => 1

/-- `spread` (lines 71–72). -/
def spread (policy : DelayPolicy) : ℚ :=
  match policy.jitterFactor with
  | .finite v => clamp v 0 1
  | _ => 0

end DelayPolicy

/-- The loop from `i` on (lines 68–70). `++i` runs behind `i < attempt` only, so it does not
    wrap around. -/
def delayLoop (multiplier maxMs : ℚ) (attempt i : UInt8) (delayMs : ℚ) : ℚ :=
  if _h : i < attempt then
    delayLoop multiplier maxMs attempt (i + 1) (min (delayMs * multiplier) maxMs)
  else delayMs
termination_by attempt.toNat - i.toNat
decreasing_by
  have hlt := UInt8.lt_iff_toNat_lt.mp _h
  have hsucc := toNat_succ _h
  omega

/-- `delay_ms` behind the loop (lines 61–70). -/
def backoffDelay (attempt : UInt8) (policy : DelayPolicy) : ℚ :=
  delayLoop policy.multiplier policy.maximum attempt 1 policy.firstDelay

variable {ω ρ : Type}

/-- `calculate_retry_delay` (lines 59–83), with the next state of the generator. An exact
    `delay_ms` is finite. -/
def calculateRetryDelay (uniform : ℚ → ℚ → ρ → ℚ × ρ) (attempt : UInt8) (policy : DelayPolicy)
    (rng : ρ) : ℤ × ρ :=
  let spread := policy.spread
  let delay :=
    if spread > 0 then
      let jitter := uniform (1 - spread) (1 + spread) rng
      (backoffDelay attempt policy * jitter.1, jitter.2)
    else (backoffDelay attempt policy, rng)
  (if delay.1 ≥ policy.maximum then policy.maximum else truncate delay.1, delay.2)

/-! ## The loop -/

theorem clamp_eq {α : Type} [LinearOrder α] {lo hi : α} (h : lo ≤ hi) (v : α) :
    clamp v lo hi = max lo (min v hi) := by
  unfold clamp
  split_ifs with h1 h2
  · rw [max_eq_left ((min_le_left v hi).trans h1.le)]
  · rw [min_eq_right h2.le, max_eq_right h]
  · rw [min_eq_left (not_lt.mp h2), max_eq_right (not_lt.mp h1)]

theorem delayLoop_eq (multiplier maxMs : ℚ) (attempt i : UInt8) (delayMs : ℚ) :
    delayLoop multiplier maxMs attempt i delayMs =
      (growth multiplier maxMs)^[attempt.toNat - i.toNat] delayMs := by
  induction i, delayMs using delayLoop.induct multiplier maxMs attempt with
  | case1 i delayMs h ih =>
    have hlt := UInt8.lt_iff_toNat_lt.mp h
    have hsucc := toNat_succ h
    rw [delayLoop, dif_pos h, ih, show attempt.toNat - i.toNat = attempt.toNat - (i + 1).toNat + 1
      by omega, Function.iterate_succ_apply]
    rfl
  | case2 i delayMs h =>
    rw [UInt8.lt_iff_toNat_lt, not_lt] at h
    rw [delayLoop, dif_neg (by rwa [UInt8.lt_iff_toNat_lt, not_lt]), Nat.sub_eq_zero_of_le h,
      Function.iterate_zero_apply]

namespace DelayPolicy

theorem maximum_nonneg (policy : DelayPolicy) : 0 ≤ policy.maximum := le_max_right _ _

theorem multiplier_nonneg (policy : DelayPolicy) : 0 ≤ policy.multiplier := by
  unfold multiplier
  split
  · exact le_max_right _ _
  · exact zero_le_one

theorem spread_mem (policy : DelayPolicy) : 0 ≤ policy.spread ∧ policy.spread ≤ 1 := by
  unfold spread
  split
  · rw [clamp_eq zero_le_one]
    exact ⟨le_max_left _ _, max_le zero_le_one (min_le_right _ _)⟩
  · exact ⟨le_rfl, zero_le_one⟩

theorem firstDelay_mem (policy : DelayPolicy) :
    0 ≤ policy.firstDelay ∧ policy.firstDelay ≤ policy.maximum := by
  rw [firstDelay, clamp_eq policy.maximum_nonneg]
  exact ⟨le_max_left _ _, max_le policy.maximum_nonneg (min_le_right _ _)⟩

end DelayPolicy

/-- The loop, which caps the delay in each turn, computes a power that is capped once. -/
theorem backoffDelay_eq (attempt : UInt8) (policy : DelayPolicy) :
    backoffDelay attempt policy =
      capped policy.multiplier policy.maximum policy.firstDelay (attempt.toNat - 1) := by
  obtain ⟨h0, hmax⟩ := policy.firstDelay_mem
  have hone : (1 : UInt8).toNat = 1 := rfl
  rw [backoffDelay, delayLoop_eq, hone]
  exact iterate_growth policy.multiplier_nonneg (by exact_mod_cast h0) (by exact_mod_cast hmax) _

theorem backoffDelay_nonneg (attempt : UInt8) (policy : DelayPolicy) :
    0 ≤ backoffDelay attempt policy := by
  obtain ⟨h0, hmax⟩ := policy.firstDelay_mem
  rw [backoffDelay_eq]
  exact capped_nonneg policy.multiplier_nonneg (by exact_mod_cast h0) (by exact_mod_cast hmax) _

/-! ## The delay -/

theorem truncate_of_nonneg {v : ℚ} (h : 0 ≤ v) : truncate v = ⌊v⌋ := by
  rw [truncate, Int.tdiv_eq_ediv_of_nonneg (Rat.num_nonneg.mpr h), Rat.floor_def']

/-- The comparison with the maximum in front of the conversion is a minimum behind it. -/
theorem ite_truncate {v : ℚ} (h : 0 ≤ v) (maximum : ℤ) :
    (if v ≥ maximum then maximum else truncate v) = min ⌊v⌋ maximum := by
  rw [truncate_of_nonneg h]
  split_ifs with hmax
  · rw [min_eq_right (Int.le_floor.mpr hmax)]
  · rw [min_eq_left (Int.floor_lt.mpr (not_le.mp hmax)).le]

/-- The jitter that is drawn; 1 without jitter. -/
def jitterDraw (uniform : ℚ → ℚ → ρ → ℚ × ρ) (policy : DelayPolicy) (rng : ρ) : ℚ :=
  if policy.spread > 0 then (uniform (1 - policy.spread) (1 + policy.spread) rng).1 else 1

/-- The distribution draws from its interval. -/
def DrawsWithin (uniform : ℚ → ℚ → ρ → ℚ × ρ) : Prop :=
  ∀ a b rng, a ≤ b → a ≤ (uniform a b rng).1 ∧ (uniform a b rng).1 ≤ b

theorem jitterDraw_mem {uniform : ℚ → ℚ → ρ → ℚ × ρ} (huniform : DrawsWithin uniform)
    (policy : DelayPolicy) (rng : ρ) :
    1 - policy.spread ≤ jitterDraw uniform policy rng ∧
      jitterDraw uniform policy rng ≤ 1 + policy.spread := by
  obtain ⟨h0, -⟩ := policy.spread_mem
  unfold jitterDraw
  split_ifs
  · exact huniform _ _ rng (by linarith)
  · exact ⟨by linarith, by linarith⟩

theorem calculateRetryDelay_eq {uniform : ℚ → ℚ → ρ → ℚ × ρ} (huniform : DrawsWithin uniform)
    (attempt : UInt8) (policy : DelayPolicy) (rng : ρ) :
    (calculateRetryDelay uniform attempt policy rng).1 =
      min ⌊backoffDelay attempt policy * jitterDraw uniform policy rng⌋ policy.maximum := by
  have hdraw := (jitterDraw_mem huniform policy rng).1
  have hspread := policy.spread_mem.2
  rw [← ite_truncate (mul_nonneg (backoffDelay_nonneg attempt policy) (by linarith))]
  unfold calculateRetryDelay jitterDraw
  by_cases hjitter : policy.spread > 0
  · simp only [if_pos hjitter]
  · simp only [if_neg hjitter, mul_one]

/-- No delay is negative or above the maximum. -/
theorem calculateRetryDelay_mem {uniform : ℚ → ℚ → ρ → ℚ × ρ} (huniform : DrawsWithin uniform)
    (attempt : UInt8) (policy : DelayPolicy) (rng : ρ) :
    0 ≤ (calculateRetryDelay uniform attempt policy rng).1 ∧
      (calculateRetryDelay uniform attempt policy rng).1 ≤ policy.maximum := by
  have hdraw := (jitterDraw_mem huniform policy rng).1
  have hspread := policy.spread_mem.2
  rw [calculateRetryDelay_eq huniform]
  refine ⟨le_min ?_ policy.maximum_nonneg, min_le_right _ _⟩
  exact Int.floor_nonneg.mpr (mul_nonneg (backoffDelay_nonneg attempt policy) (by linarith))

/-- Without jitter and with a multiplier of at least one the delay never decreases. -/
theorem calculateRetryDelay_mono {uniform : ℚ → ℚ → ρ → ℚ × ρ} (huniform : DrawsWithin uniform)
    {policy : DelayPolicy} (hspread : policy.spread = 0) (hmultiplier : 1 ≤ policy.multiplier)
    {attempt attempt' : UInt8} (h : attempt ≤ attempt') (rng rng' : ρ) :
    (calculateRetryDelay uniform attempt policy rng).1 ≤
      (calculateRetryDelay uniform attempt' policy rng').1 := by
  have hle := UInt8.le_iff_toNat_le.mp h
  have hfirst : (0 : ℚ) ≤ policy.firstDelay := by exact_mod_cast policy.firstDelay_mem.1
  have hdraw : ∀ rng, jitterDraw uniform policy rng = 1 := by
    intro rng
    rw [jitterDraw, if_neg (by rw [hspread]; exact lt_irrefl 0)]
  rw [calculateRetryDelay_eq huniform, calculateRetryDelay_eq huniform, hdraw, hdraw, mul_one,
    mul_one, backoffDelay_eq, backoffDelay_eq]
  apply min_le_min_right
  apply Int.floor_mono
  exact capped_mono hmultiplier hfirst (by omega)

/-! ## The sleeps of `with_retry` -/

/-- A call of `with_retry` so far: the state the operation works on, the generator, and the
    delays slept for. -/
structure RetryState (ω ρ : Type) where
  world : ω
  rng : ρ
  sleeps : List ℤ := []

/-- The operation, which may use the generator, too. -/
def runOperation (operation : Exec (ω × ρ) (Result HttpResponse)) :
    Exec (RetryState ω ρ) (Result HttpResponse) := fun s =>
  let after := operation (s.world, s.rng)
  (after.1, { s with world := after.2.1, rng := after.2.2 })

/-- `sleep_for(calculate_retry_delay(attempt, policy))`. -/
def sleepForDelay (uniform : ℚ → ℚ → ρ → ℚ × ρ) (policy : DelayPolicy) (attempt : UInt8) :
    Exec (RetryState ω ρ) Unit :=
  act fun s =>
    let delay := calculateRetryDelay uniform attempt policy s.rng
    ((), { s with rng := delay.2, sleeps := s.sleeps ++ [delay.1] })

/-- What the loop slept: each time for no less than nothing and no longer than the maximum,
    and never behind the last attempt. -/
structure Slept (policy : DelayPolicy) (s : RetryState ω ρ) : Prop where
  mem : ∀ delay ∈ s.sleeps, 0 ≤ delay ∧ delay ≤ policy.maximum
  length_le : s.sleeps.length ≤ policy.maxAttempts.toNat - 1

theorem runOperation_triple (operation : Exec (ω × ρ) (Result HttpResponse))
    {policy : DelayPolicy} {a : UInt8} :
    Triple (fun s => Slept policy s ∧ s.sleeps.length + 1 = a.toNat) (runOperation operation)
      fun _ s => Slept policy s ∧ s.sleeps.length + 1 = a.toNat :=
  fun _ hs => ⟨⟨hs.1.mem, hs.1.length_le⟩, hs.2⟩

theorem sleepForDelay_triple {uniform : ℚ → ℚ → ρ → ℚ × ρ} (huniform : DrawsWithin uniform)
    (policy : DelayPolicy) {a : UInt8} (h : a < policy.maxAttempts) :
    Triple (fun s : RetryState ω ρ => Slept policy s ∧ s.sleeps.length + 1 = a.toNat)
      (sleepForDelay uniform policy a)
      fun _ s => Slept policy s ∧ s.sleeps.length + 1 = (a + 1).toNat := by
  refine Triple.act fun s hs => ?_
  obtain ⟨hslept, hlen⟩ := hs
  have hlt := UInt8.lt_iff_toNat_lt.mp h
  have hlen' : (s.sleeps ++ [(calculateRetryDelay uniform a policy s.rng).1]).length = a.toNat := by
    rw [List.length_append, List.length_singleton, hlen]
  refine ⟨⟨?_, ?_⟩, ?_⟩
  · intro delay hdelay
    rcases List.mem_append.mp hdelay with hdelay | hdelay
    · exact hslept.mem delay hdelay
    · rw [List.mem_singleton.mp hdelay]
      exact calculateRetryDelay_mem huniform a policy s.rng
  · show (s.sleeps ++ [_]).length ≤ _
    omega
  · show (s.sleeps ++ [_]).length + 1 = _
    rw [hlen', toNat_succ h]

theorem withRetry_slept {uniform : ℚ → ℚ → ρ → ℚ × ρ} (huniform : DrawsWithin uniform)
    (policy : DelayPolicy) (operation : Exec (ω × ρ) (Result HttpResponse)) (world : ω) (rng : ρ) :
    Slept policy (withRetry (runOperation operation) (sleepForDelay uniform policy)
      policy.toRetryPolicy { world, rng }).2 := by
  have hstart : Slept policy ({ world, rng } : RetryState ω ρ) :=
    ⟨by simp, Nat.zero_le _⟩
  refine withRetryFrom_triple
    (P := fun a s => Slept policy s ∧ s.sleeps.length + 1 = a.toNat)
    (M := fun a s => a < policy.maxAttempts ∧ Slept policy s ∧ s.sleeps.length + 1 = a.toNat)
    (Q := fun _ s => Slept policy s) (fun a _ s hs => ?_) (fun a s hs => ?_)
    (fun _ _ _ hs => hs.1) 1 _ ⟨hstart, rfl⟩
  · have hop := runOperation_triple operation s hs
    exact ⟨fun _ _ _ hlt => ⟨hlt, hop⟩, fun _ => hop.1⟩
  · have hsleep := sleepForDelay_triple huniform policy hs.1 s hs.2
    exact ⟨fun _ => hsleep, fun _ => hsleep.1⟩

/-- The delays that one call sleeps for, together. -/
theorem Slept.sum_le {policy : DelayPolicy} {s : RetryState ω ρ} (h : Slept policy s) :
    s.sleeps.sum ≤ ((policy.maxAttempts.toNat - 1 : ℕ) : ℤ) * policy.maximum := by
  have hlen : (s.sleeps.length : ℤ) ≤ ((policy.maxAttempts.toNat - 1 : ℕ) : ℤ) := by
    exact_mod_cast h.length_le
  calc s.sleeps.sum
      ≤ s.sleeps.length • policy.maximum :=
        List.sum_le_card_nsmul _ _ fun delay hdelay => (h.mem delay hdelay).2
    _ = (s.sleeps.length : ℤ) * policy.maximum := nsmul_eq_mul _ _
    _ ≤ _ := mul_le_mul_of_nonneg_right hlen policy.maximum_nonneg

/-! ## The result -/

/-- The delays of a policy with finite multiplier and jitter, in its own terms: what the loop
    computes, what is returned for a jitter drawn, the bounds, the order, and what one call
    of `with_retry` sleeps, for every operation. -/
theorem retry_delays_within_policy {uniform : ℚ → ℚ → ρ → ℚ × ρ}
    (huniform : DrawsWithin uniform) (policy : DelayPolicy) {multiplier jitter : ℚ}
    (hmultiplier : policy.backoffMultiplier = .finite multiplier)
    (hjitter : policy.jitterFactor = .finite jitter) :
    let M : ℤ := max policy.maxDelay 0
    let m : ℚ := max multiplier 0
    let s : ℚ := max 0 (min jitter 1)
    let d : UInt8 → ℚ := fun n =>
      min ((max 0 (min policy.initialDelay M) : ℤ) * m ^ (n.toNat - 1)) M
    let delay : UInt8 → ρ → ℤ := fun n rng => (calculateRetryDelay uniform n policy rng).1
    (∀ n, backoffDelay n policy = d n) ∧
      (∀ n rng, ∃ j, 1 - s ≤ j ∧ j ≤ 1 + s ∧ (0 < s → j = (uniform (1 - s) (1 + s) rng).1) ∧
        delay n rng = min ⌊d n * j⌋ M) ∧
      (∀ n rng, 0 ≤ delay n rng ∧ delay n rng ≤ M) ∧
      (s = 0 → 1 ≤ m → ∀ n n' rng rng', n ≤ n' → delay n rng ≤ delay n' rng') ∧
      ∀ (operation : Exec (ω × ρ) (Result HttpResponse)) (world : ω) (rng : ρ),
        (withRetry (runOperation operation) (sleepForDelay uniform policy)
            policy.toRetryPolicy { world, rng }).2.sleeps.sum ≤
          ((policy.maxAttempts.toNat - 1 : ℕ) : ℤ) * M := by
  intro M m s d delay
  have hM : policy.maximum = M := rfl
  have hm : policy.multiplier = m := by rw [DelayPolicy.multiplier, hmultiplier]
  have hs : policy.spread = s := by
    rw [DelayPolicy.spread, hjitter]
    exact clamp_eq zero_le_one jitter
  have hd : ∀ n, backoffDelay n policy = d n := by
    intro n
    rw [backoffDelay_eq, DelayPolicy.firstDelay, clamp_eq policy.maximum_nonneg, hm]
    rfl
  refine ⟨hd, ?_, fun n rng => calculateRetryDelay_mem huniform n policy rng, ?_, ?_⟩
  · intro n rng
    obtain ⟨h1, h2⟩ := jitterDraw_mem huniform policy rng
    rw [hs] at h1 h2
    refine ⟨jitterDraw uniform policy rng, h1, h2, ?_, ?_⟩
    · intro hpos
      rw [jitterDraw, hs, if_pos hpos]
    · rw [← hd]
      exact calculateRetryDelay_eq huniform n policy rng
  · intro hzero hone n n' rng rng' hn
    exact calculateRetryDelay_mono huniform (hs.trans hzero) (hm ▸ hone) hn rng rng'
  · intro operation world rng
    exact (withRetry_slept huniform policy operation world rng).sum_le

/-- A generator with 32 bits, and the number that it draws from an interval. -/
def drawLcg (a b : ℚ) (rng : ℕ) : ℚ × ℕ :=
  (a + (b - a) * ((rng % 2 ^ 32 : ℕ) / 2 ^ 32), (69069 * rng + 1) % 2 ^ 32)

theorem drawLcg_within : DrawsWithin drawLcg := by
  intro a b rng hab
  have hlt : ((rng % 2 ^ 32 : ℕ) : ℚ) ≤ 2 ^ 32 := by
    exact_mod_cast (Nat.mod_lt rng (by norm_num)).le
  have h0 : (0 : ℚ) ≤ (rng % 2 ^ 32 : ℕ) / 2 ^ 32 := by positivity
  have h1 : ((rng % 2 ^ 32 : ℕ) / 2 ^ 32 : ℚ) ≤ 1 := by
    rw [div_le_one (by norm_num)]
    exact hlt
  have hlen : 0 ≤ b - a := by linarith
  have hlow := mul_nonneg hlen h0
  have hhigh := mul_le_of_le_one_right hlen h1
  constructor
  · show a ≤ a + (b - a) * _
    linarith
  · show a + (b - a) * _ ≤ b
    linarith

/-- A cap that the first delay reaches, and full jitter. -/
theorem retry_delays_within_policy_capped :
    (calculateRetryDelay drawLcg 2
      { initialDelay := 100, maxDelay := 100, jitterFactor := .finite 1 } 2463534242).1 ≤ 100 :=
  ((retry_delays_within_policy (ω := Unit) drawLcg_within
    { initialDelay := 100, maxDelay := 100, jitterFactor := .finite 1 } rfl rfl).2.2.1 2
      2463534242).2

end NceiCpp.Core
