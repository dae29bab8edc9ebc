import NceiCpp.Core.RateLimit
import NceiCpp.Lib.CreditRun

/-!
# Callers of one rate limiter

Any number of callers use one `RateLimiter`. `try_acquire`, `available_tokens`,
`daily_requests_remaining` and `reset` hold the mutex, so each is one step; `acquire` and
`acquire_for` are loops of attempts, between which other callers run. Every step reads a
steady clock that does not go back.

* `creditSystem`: the tokens and the time since the last refill are a credit in the sense
  of `CreditRun`.
* `acquisitions_le`: the rate bound, in every window of every run.
-/

namespace NceiCpp.Core.RateLimitCallers

open CreditRun RateLimiter

/-- Where a caller is: in no member function, or in the loop of `acquire` or
    `acquire_for`, before an attempt or behind a failed one. -/
inductive Caller
  | idle
  | attempting (deadline : Option ℤ)
  | failed (deadline : ℤ)
  deriving DecidableEq

/-- What a caller does in one step, with the result. -/
inductive Op
  | tryAcquire (granted : Bool)
  | acquire
  | acquireFor (maxWait : ℤ)
  | attempt (granted : Bool)
  | checkDeadline (expired : Bool)
  | availableTokens (result : UInt16)
  | dailyRequestsRemaining (result : ℤ)
  | reset
  deriving DecidableEq

/-- A step of the caller `caller`, which reads `now` from the steady clock. -/
structure Event (ι : Type) where
  caller : ι
  op : Op
  now : ℤ
  deriving DecidableEq

structure System (ι : Type) where
  limiter : RateLimiter
  callers : ι → Caller
  clock : ℤ

variable {ι : Type}

/-- `acquire_for(max_wait)` before its first attempt. -/
def acquireForStart (now maxWait : ℤ) : Caller := .attempting (some (deadline now maxWait))

/-- `acquire()` before its first attempt (lines 74–78). -/
def acquireStart (config : RateLimiter.Config) (now : ℤ) : Caller :=
  match config.maxWait with
  | some maxWait => acquireForStart now maxWait
  | none => .attempting none

/-- Behind an attempt of a loop: `return true`, the next turn of `acquire`, or the deadline
    check of `acquire_for`. -/
def afterAttempt (deadline : Option ℤ) (granted : Bool) : Caller :=
  if granted then .idle
  else
    match deadline with
    | none => .attempting none
    | some deadline => .failed deadline

/-- A new limiter, no caller in a member function. -/
def start (config : RateLimiter.Config) (now sys : ℤ) : System ι :=
  ⟨RateLimiter.new config now sys, fun _ => .idle, now⟩

variable [DecidableEq ι]

/-- One step of one caller; `sys` is what it reads from the system clock. -/
inductive Step : System ι → Event ι → System ι → Prop
  | tryAcquire {s : System ι} {i : ι} {now : ℤ} {granted : Bool} {limiter : RateLimiter}
      (sys : ℤ) : s.clock ≤ now → s.callers i = .idle →
      s.limiter.tryAcquire sys now = (granted, limiter) →
      Step s ⟨i, .tryAcquire granted, now⟩ ⟨limiter, s.callers, now⟩
  | acquire {s : System ι} {i : ι} {now : ℤ} : s.clock ≤ now → s.callers i = .idle →
      Step s ⟨i, .acquire, now⟩
        ⟨s.limiter, Function.update s.callers i (acquireStart s.limiter.config now), now⟩
  | acquireFor {s : System ι} {i : ι} {now : ℤ} (maxWait : ℤ) : s.clock ≤ now →
      s.callers i = .idle →
      Step s ⟨i, .acquireFor maxWait, now⟩
        ⟨s.limiter, Function.update s.callers i (acquireForStart now maxWait), now⟩
  | attempt {s : System ι} {i : ι} {now : ℤ} {deadline : Option ℤ} {granted : Bool}
      {limiter : RateLimiter} (sys : ℤ) : s.clock ≤ now → s.callers i = .attempting deadline →
      s.limiter.tryAcquire sys now = (granted, limiter) →
      Step s ⟨i, .attempt granted, now⟩
        ⟨limiter, Function.update s.callers i (afterAttempt deadline granted), now⟩
  | checkDeadline {s : System ι} {i : ι} {now deadline : ℤ} : s.clock ≤ now →
      s.callers i = .failed deadline →
      Step s ⟨i, .checkDeadline (now ≥ deadline), now⟩
        ⟨s.limiter, Function.update s.callers i
          (if now ≥ deadline then .idle else .attempting (some deadline)), now⟩
  | availableTokens {s : System ι} {i : ι} {now : ℤ} : s.clock ≤ now → s.callers i = .idle →
      Step s ⟨i, .availableTokens (s.limiter.availableTokens now), now⟩
        ⟨s.limiter, s.callers, now⟩
  | dailyRequestsRemaining {s : System ι} {i : ι} {now : ℤ} (sys : ℤ) : s.clock ≤ now →
      s.callers i = .idle →
      Step s ⟨i, .dailyRequestsRemaining (s.limiter.dailyRequestsRemaining sys), now⟩
        ⟨s.limiter, s.callers, now⟩
  | reset {s : System ι} {i : ι} {now : ℤ} (sys : ℤ) : s.clock ≤ now → s.callers i = .idle →
      Step s ⟨i, .reset, now⟩ ⟨s.limiter.reset now sys, s.callers, now⟩

/-- The step is a successful acquisition. -/
def Granted (e : Event ι) : Prop := e.op = .tryAcquire true ∨ e.op = .attempt true

instance (e : Event ι) : Decidable (Granted e) := by
  unfold Granted
  infer_instance

/-- The successful acquisitions that read the clock from `t1` to `t2`. -/
def acquisitions (t1 t2 : ℤ) (tr : List (Event ι)) : ℕ :=
  CreditSystem.grants Event.now Granted t1 t2 tr

/-! ## The credit of the limiter -/

/-- A step leaves the limiter alone, is an attempt, or resets it. -/
theorem Step.limiter_cases {s s' : System ι} {e : Event ι} (h : Step s e s') :
    s.clock ≤ e.now ∧ s'.clock = e.now ∧
      ((s'.limiter = s.limiter ∧ ¬ Granted e) ∨
        (∃ sys, s'.limiter = (s.limiter.tryAcquire sys e.now).2 ∧
          (Granted e → (s.limiter.tryAcquire sys e.now).1 = true)) ∨
        (∃ sys, s'.limiter = s.limiter.reset e.now sys ∧ e.op = .reset)) := by
  cases h with
  | tryAcquire sys hclock hi htry =>
    refine ⟨hclock, rfl, .inr (.inl ⟨sys, by rw [htry], ?_⟩)⟩
    rintro (h | h)
    · rw [htry]
      simpa using h
    · cases h
  | acquire hclock hi => exact ⟨hclock, rfl, .inl ⟨rfl, by simp [Granted]⟩⟩
  | acquireFor maxWait hclock hi => exact ⟨hclock, rfl, .inl ⟨rfl, by simp [Granted]⟩⟩
  | attempt sys hclock hi htry =>
    refine ⟨hclock, rfl, .inr (.inl ⟨sys, by rw [htry], ?_⟩)⟩
    rintro (h | h)
    · cases h
    · rw [htry]
      simpa using h
  | checkDeadline hclock hi => exact ⟨hclock, rfl, .inl ⟨rfl, by simp [Granted]⟩⟩
  | availableTokens hclock hi => exact ⟨hclock, rfl, .inl ⟨rfl, by simp [Granted]⟩⟩
  | dailyRequestsRemaining sys hclock hi => exact ⟨hclock, rfl, .inl ⟨rfl, by simp [Granted]⟩⟩
  | reset sys hclock hi => exact ⟨hclock, rfl, .inr (.inr ⟨sys, rfl, rfl⟩)⟩

/-- The limiter is well formed and was refilled in the past. -/
structure Invariant (config : RateLimiter.Config) (s : System ι) : Prop where
  config_eq : s.limiter.config = config
  wellFormed : s.limiter.WellFormed
  lastRefill_le : s.limiter.lastRefill ≤ s.clock

omit [DecidableEq ι] in
theorem start_invariant (config : RateLimiter.Config) (now sys : ℤ) :
    Invariant (sanitized config) (start config now sys : System ι) :=
  ⟨rfl, new_wellFormed config now sys, le_rfl⟩

theorem Step.invariant {config : RateLimiter.Config} {s s' : System ι} {e : Event ι}
    (hs : Invariant config s) (h : Step s e s') : Invariant config s' := by
  obtain ⟨hclock, hclock', hlimiter⟩ := h.limiter_cases
  have hpast : s.limiter.lastRefill ≤ e.now := hs.lastRefill_le.trans hclock
  rcases hlimiter with ⟨heq, -⟩ | ⟨sys, heq, -⟩ | ⟨sys, heq, -⟩
  · refine ⟨by rw [heq, hs.config_eq], heq ▸ hs.wellFormed, ?_⟩
    rw [heq, hclock']
    exact hpast
  · have ha := tryAcquire_attempted hs.wellFormed hpast sys
    refine ⟨by rw [heq, ha.config, hs.config_eq], heq ▸ ha.wellFormed, ?_⟩
    rw [heq, hclock']
    exact ha.lastRefill_le
  · refine ⟨by rw [heq]; exact hs.config_eq, heq ▸ reset_wellFormed hs.wellFormed _ _, ?_⟩
    rw [heq, hclock']
    exact le_rfl

/-- The credit of the limiter pays for the acquisitions. -/
theorem creditSystem (config : RateLimiter.Config) (hsane : config.Sane) :
    CreditSystem (Step (ι := ι)) Event.now Granted (fun e => e.op = .reset) (Invariant config)
      (fun s => s.limiter.credit) System.clock (config.refillInterval * nsPerMs)
      (config.maxTokens.toNat * (config.refillInterval * nsPerMs)) where
  cap_nonneg := by
    have : 0 < config.refillInterval * nsPerMs := mul_pos hsane.refillInterval_pos (by decide)
    positivity
  credit_add := by
    intro s t t'
    simp only [credit]
    ring
  credit_nonneg := by
    intro s hs
    have hI := hs.wellFormed.interval_pos
    have htokens : 0 ≤ s.limiter.tokens.toNat * s.limiter.interval := by positivity
    have := hs.lastRefill_le
    simp only [credit]
    omega
  inv_step := fun _ _ _ hs h => h.invariant hs
  clock_step := fun _ _ _ h => ⟨h.limiter_cases.1, h.limiter_cases.2.1⟩
  credit_step := by
    intro s e s' hs h hreset
    obtain ⟨hclock, -, hlimiter⟩ := h.limiter_cases
    have hpast : s.limiter.lastRefill ≤ e.now := hs.lastRefill_le.trans hclock
    rcases hlimiter with ⟨heq, -⟩ | ⟨sys, heq, -⟩ | ⟨sys, -, hop⟩
    · simp only [heq, le_refl]
    · simp only [heq]
      exact (tryAcquire_attempted hs.wellFormed hpast sys).credit_le
    · exact absurd hop hreset
  credit_grant := by
    intro s e s' hs h hgranted hreset
    obtain ⟨hclock, -, hlimiter⟩ := h.limiter_cases
    have hpast : s.limiter.lastRefill ≤ e.now := hs.lastRefill_le.trans hclock
    rcases hlimiter with ⟨-, hnot⟩ | ⟨sys, heq, hiff⟩ | ⟨sys, -, hop⟩
    · exact absurd hgranted hnot
    · have ha := (tryAcquire_attempted hs.wellFormed hpast sys).credit_granted (hiff hgranted)
      simp only [heq]
      rwa [interval, hs.config_eq] at ha
    · exact absurd hop hreset

/-- In every run of any number of callers, the bucket never holds more than `max_tokens`,
    and in a window of time without a reset there are at most `max_tokens` acquisitions
    and one more for each `refill_interval` of the window. -/
theorem acquisitions_le (config : RateLimiter.Config) {now sys : ℤ} {s : System ι}
    {tr : List (Event ι)} (h : Run Step (start config now sys) tr s) :
    s.limiter.tokens ≤ (sanitized config).maxTokens ∧
      ∀ t1 t2, t1 ≤ t2 → (∀ e ∈ tr, t1 ≤ e.now → e.now ≤ t2 → ¬ e.op = .reset) →
        (acquisitions t1 t2 tr : ℤ) ≤ (sanitized config).maxTokens.toNat +
          (t2 - t1) / ((sanitized config).refillInterval * nsPerMs) := by
  have hstart := start_invariant (ι := ι) config now sys
  constructor
  · have hs := h.invariant (fun _ _ _ hs h => h.invariant hs) hstart
    have hle := hs.wellFormed.tokens_le
    rw [hs.config_eq] at hle
    exact UInt16.le_iff_toNat_le.mpr hle
  · intro t1 t2 ht hreset
    have hsane := sanitized_sane config
    have hI : 0 < (sanitized config).refillInterval * nsPerMs :=
      mul_pos hsane.refillInterval_pos (by decide)
    have hle := (creditSystem _ hsane).grants_le h hstart ht hreset
    rw [← sub_le_iff_le_add', Int.le_ediv_iff_mul_le hI]
    unfold acquisitions
    linarith

/-- One token every 200 ms. -/
def oneToken : RateLimiter.Config where
  maxTokens := 1
  initialTokens := 1

/-- Two callers: one takes the token, the other waits for the next. -/
def twoCallers : List (Event Bool) :=
  [⟨false, .tryAcquire true, 0⟩, ⟨true, .acquire, 0⟩, ⟨true, .attempt false, 0⟩,
    ⟨true, .attempt true, 200000000⟩]

theorem run_twoCallers : ∃ s, Run Step (start oneToken 0 0) twoCallers s := by
  have h1 : (RateLimiter.new oneToken 0 0).tryAcquire 0 0 =
      (true, ⟨oneToken, 0, 0, 1, 0⟩) := by decide
  have h2 : (⟨oneToken, 0, 0, 1, 0⟩ : RateLimiter).tryAcquire 0 0 =
      (false, ⟨oneToken, 0, 0, 1, 0⟩) := by decide
  have h3 : (⟨oneToken, 0, 0, 1, 0⟩ : RateLimiter).tryAcquire 0 200000000 =
      (true, ⟨oneToken, 0, 200000000, 2, 0⟩) := by decide
  have hwaits : ∀ callers : Bool → Caller,
      Function.update callers true (.attempting none) true = .attempting none :=
    fun callers => Function.update_self _ _ _
  exact ⟨_, .cons (.tryAcquire 0 le_rfl rfl h1) (.cons (.acquire le_rfl rfl)
    (.cons (.attempt 0 le_rfl (hwaits fun _ => .idle) h2)
      (.cons (.attempt 0 (by norm_num)
        (hwaits (Function.update (fun _ => .idle) true (.attempting none))) h3) .nil)))⟩

theorem acquisitions_le_twoCallers :
    (acquisitions 0 200000000 twoCallers : ℤ) ≤ 1 + (200000000 - 0) / (200 * nsPerMs) := by
  obtain ⟨s, hrun⟩ := run_twoCallers
  refine (acquisitions_le oneToken hrun).2 0 200000000 (by norm_num) ?_
  decide

end NceiCpp.Core.RateLimitCallers
