import NceiCpp.Core.RateLimitCallers
import NceiCpp.Core.RateLimitRuns
import NceiCpp.Lib.PeriodQuota

/-!
# The daily quota of many callers

`day_start_` and `daily_requests_used_` are a counter in the sense of `PeriodQuota`, whose
periods are the UTC days that the attempts read from the system clock. This clock may go back:
an acquisition counts for the latest day that was read before it.

* `StepAt`: a step of `RateLimitCallers` with what the system clock shows.
* `tryAcquire_counter`: an attempt is one of the counter.
* `quota_exact`: in every run of any number of callers, the days stay within the limit, and
  what is left of it decides about the next attempt.
-/

namespace NceiCpp.Core.RateLimitCallers

open CreditRun RateLimiter PeriodQuota

variable {ι : Type}

/-- What an operation makes of the limiter, with its readings of the two clocks. -/
def Op.effect (sys now : ℤ) (s : RateLimiter) : Op → RateLimiter
  | .tryAcquire _ => (s.tryAcquire sys now).2
  | .attempt _ => (s.tryAcquire sys now).2
  | .reset => s.reset now sys
  | _ => s

/-- What an operation returns of the limiter. -/
def Op.Returns (sys now : ℤ) (s : RateLimiter) : Op → Prop
  | .tryAcquire granted => (s.tryAcquire sys now).1 = granted
  | .attempt granted => (s.tryAcquire sys now).1 = granted
  | .dailyRequestsRemaining n => s.dailyRequestsRemaining sys = n
  | _ => True

/-- The result of an attempt. -/
def Op.attempted : Op → Option Bool
  | .tryAcquire granted => some granted
  | .attempt granted => some granted
  | _ => none

variable [DecidableEq ι]

/-- A step while the system clock shows the second component. -/
structure StepAt (s : System ι) (x : Event ι × ℤ) (s' : System ι) : Prop where
  step : Step s x.1 s'
  limiter_eq : s'.limiter = x.1.op.effect x.2 x.1.now s.limiter
  returns : x.1.op.Returns x.2 x.1.now s.limiter

theorem Step.stepAt {s s' : System ι} {e : Event ι} (h : Step s e s') :
    ∃ sys, StepAt s (e, sys) s' := by
  have hstep := h
  cases h with
  | tryAcquire sys hclock hi htry =>
    exact ⟨sys, hstep, (congrArg Prod.snd htry).symm, congrArg Prod.fst htry⟩
  | attempt sys hclock hi htry =>
    exact ⟨sys, hstep, (congrArg Prod.snd htry).symm, congrArg Prod.fst htry⟩
  | acquire hclock hi => exact ⟨0, hstep, rfl, trivial⟩
  | acquireFor maxWait hclock hi => exact ⟨0, hstep, rfl, trivial⟩
  | checkDeadline hclock hi => exact ⟨0, hstep, rfl, trivial⟩
  | availableTokens hclock hi => exact ⟨0, hstep, rfl, trivial⟩
  | dailyRequestsRemaining sys hclock hi => exact ⟨sys, hstep, rfl, rfl⟩
  | reset sys hclock hi => exact ⟨sys, hstep, rfl, trivial⟩

/-- Every run of the callers is one with readings of the system clock. -/
theorem run_stepAt {s s' : System ι} {tr : List (Event ι)} (h : Run Step s tr s') :
    ∃ tr', tr'.map Prod.fst = tr ∧ Run StepAt s tr' s' := by
  induction h with
  | nil => exact ⟨[], rfl, .nil⟩
  | @cons _ _ _ e _ h1 _ ih =>
    obtain ⟨sys, hstep⟩ := h1.stepAt
    obtain ⟨tr', hmap, hrun⟩ := ih
    exact ⟨(e, sys) :: tr', by rw [List.map_cons, hmap], .cons hstep hrun⟩

/-! ## The acquisitions of a day -/

/-- The attempts of a run, with the days they read. -/
def attemptsOf (tr : List (Event ι × ℤ)) : List (ℤ × Bool) :=
  tr.filterMap fun x => x.1.op.attempted.map fun granted => (floorDays x.2, granted)

/-- The reading of the constructor or of the last `reset`, and the steps since. -/
def sinceReset (sys : ℤ) (tr : List (Event ι × ℤ)) : ℤ × List (Event ι × ℤ) :=
  tr.foldl (fun c x => if x.1.op = .reset then (x.2, []) else (c.1, c.2 ++ [x])) (sys, [])

/-- The days for which the acquisitions since the last `reset` count. -/
def grantDays (sys : ℤ) (tr : List (Event ι × ℤ)) : List ℤ :=
  takenIn (floorDays (sinceReset sys tr).1) (attemptsOf (sinceReset sys tr).2)

/-- The latest day that an attempt has read since the last `reset`, or that `reset` or the
    constructor has. `daily_requests_remaining` reads the clock too, but keeps nothing of it. -/
def latestDay (sys : ℤ) (tr : List (Event ι × ℤ)) : ℤ :=
  latest (floorDays (sinceReset sys tr).1) (attemptsOf (sinceReset sys tr).2)

omit [DecidableEq ι] in
theorem sinceReset_concat (sys : ℤ) (tr : List (Event ι × ℤ)) (x : Event ι × ℤ) :
    sinceReset sys (tr ++ [x]) =
      if x.1.op = .reset then (x.2, [])
      else ((sinceReset sys tr).1, (sinceReset sys tr).2 ++ [x]) := by
  rw [sinceReset, List.foldl_append]
  rfl

omit [DecidableEq ι] in
theorem attemptsOf_concat (tr : List (Event ι × ℤ)) (x : Event ι × ℤ) :
    attemptsOf (tr ++ [x]) = attemptsOf tr ++
      (x.1.op.attempted.map fun granted => (floorDays x.2, granted)).toList := by
  rw [attemptsOf, List.filterMap_append, List.filterMap_cons]
  cases x.1.op.attempted <;> rfl

omit [DecidableEq ι] in
theorem granted_iff_attempted (e : Event ι) : Granted e ↔ e.op.attempted = some true := by
  unfold Granted
  cases e.op <;> simp [Op.attempted]

omit [DecidableEq ι] in
theorem attemptsOf_sublist (tr : List (Event ι × ℤ)) :
    ((attemptsOf tr).map Prod.fst).Sublist ((tr.map Prod.snd).map floorDays) := by
  induction tr with
  | nil => exact List.Sublist.refl _
  | cons x tr ih =>
    rw [attemptsOf, List.filterMap_cons, List.map_cons, List.map_cons]
    cases x.1.op.attempted with
    | none => exact ih.cons _
    | some granted => exact ih.cons_cons _

omit [DecidableEq ι] in
/-- Where the clock does not go back, an acquisition counts for the day it reads. -/
theorem takenIn_attemptsOf {sys : ℤ} {tr : List (Event ι × ℤ)}
    (h : (sys :: tr.map Prod.snd).Pairwise (· ≤ ·)) :
    takenIn (floorDays sys) (attemptsOf tr) =
      tr.filterMap fun x => if Granted x.1 then some (floorDays x.2) else none := by
  have hall : ((sys :: tr.map Prod.snd).map floorDays).Pairwise (· ≤ ·) :=
    h.map floorDays fun a b hab => Int.ediv_le_ediv (by decide : 0 < nsPerDay) hab
  have hdays : (floorDays sys :: (attemptsOf tr).map Prod.fst).Pairwise (· ≤ ·) :=
    hall.sublist ((attemptsOf_sublist tr).cons_cons _)
  rw [takenIn_of_pairwise hdays, attemptsOf, List.filterMap_filterMap]
  refine List.filterMap_congr fun x _ => ?_
  simp only [granted_iff_attempted]
  cases x.1.op.attempted with
  | none => rfl
  | some granted => cases granted <;> rfl

/-! ## The counter -/

/-- `day_start_` and `daily_requests_used_`. -/
def counter (s : RateLimiter) : Counter ℤ := ⟨s.dayStart, s.dailyRequestsUsed.toNat⟩

theorem counter_checkDailyReset (s : RateLimiter) (sys : ℤ) :
    counter (s.checkDailyReset sys) = (counter s).observe (floorDays sys) := by
  unfold Counter.observe
  rcases lt_or_ge s.dayStart (floorDays sys) with h | h
  · rw [checkDailyReset_of_lt h]
    exact (if_pos h).symm
  · rw [checkDailyReset_of_le h]
    exact (if_neg (not_lt.mpr h)).symm

theorem checkDailyReset_used_nonneg {s : RateLimiter} (h : 0 ≤ s.dailyRequestsUsed) (sys : ℤ) :
    0 ≤ (s.checkDailyReset sys).dailyRequestsUsed := by
  unfold checkDailyReset
  dsimp only
  split_ifs
  · exact le_rfl
  · exact h

/-- The quota of a limiter with a daily limit is used up if the counter is at the limit. -/
theorem quotaReached_iff_used {s : RateLimiter} (hlimit : 0 < s.config.dailyLimit.toInt)
    (hused : 0 ≤ s.dailyRequestsUsed) :
    s.QuotaReached ↔ s.config.dailyLimit.toInt.toNat ≤ (counter s).used := by
  have hzero : (0 : Int32).toInt = 0 := rfl
  have hcounter : (counter s).used = s.dailyRequestsUsed.toNat := rfl
  unfold QuotaReached
  rw [gt_iff_lt, Int32.lt_iff_toInt_lt, hzero, hcounter]
  omega

/-- An attempt is one of the counter, which it takes from within the limit only. -/
theorem tryAcquire_counter {s : RateLimiter} (hlimit : 0 < s.config.dailyLimit.toInt)
    (hused : 0 ≤ s.dailyRequestsUsed) (sys now : ℤ) :
    counter (s.tryAcquire sys now).2 =
        (counter s).attempt (floorDays sys) (s.tryAcquire sys now).1 ∧
      0 ≤ (s.tryAcquire sys now).2.dailyRequestsUsed ∧
      ((s.tryAcquire sys now).1 = true →
        ((counter s).observe (floorDays sys)).used < s.config.dailyLimit.toInt.toNat) := by
  have hnonneg := checkDailyReset_used_nonneg hused sys
  have hiff := quotaReached_iff_used (s := s.checkDailyReset sys)
    (by rwa [checkDailyReset_config]) hnonneg
  rw [checkDailyReset_config, counter_checkDailyReset] at hiff
  by_cases hquota : (s.checkDailyReset sys).QuotaReached
  · rw [tryAcquire_eq, if_pos hquota, counter_checkDailyReset]
    exact ⟨rfl, hnonneg, fun h => by cases h⟩
  · have hlt := not_le.mp (mt hiff.mpr hquota)
    obtain ⟨-, hday, hfail, hgrant⟩ := tryAcquire_counts hquota now
    have hmax := s.config.dailyLimit.toInt_lt
    have hsame := counter_checkDailyReset s sys
    have hcount : (s.checkDailyReset sys).dailyRequestsUsed < int32Max := by
      rw [← hsame] at hlt
      have hlt : (s.checkDailyReset sys).dailyRequestsUsed.toNat < _ := hlt
      unfold int32Max
      omega
    cases hgranted : (s.tryAcquire sys now).1 with
    | false =>
      have hfail := hfail hgranted
      refine ⟨?_, hfail ▸ hnonneg, fun h => by cases h⟩
      rw [counter, hday, hfail]
      exact hsame
    | true =>
      have hgrant := hgrant hgranted hcount
      refine ⟨?_, by omega, fun _ => hlt⟩
      rw [counter, hday, hgrant, Counter.attempt, if_pos rfl, ← hsame, Int.toNat_add hnonneg
        (by norm_num)]
      rfl

/-! ## Runs -/

/-- A step resets the limiter, is an attempt, or leaves the limiter alone. -/
theorem StepAt.cases {s s' : System ι} {x : Event ι × ℤ} (h : StepAt s x s') :
    (x.1.op = .reset ∧ s'.limiter = s.limiter.reset x.1.now x.2) ∨
    (x.1.op ≠ .reset ∧ x.1.op.attempted = some (s.limiter.tryAcquire x.2 x.1.now).1 ∧
      s'.limiter = (s.limiter.tryAcquire x.2 x.1.now).2) ∨
    (x.1.op ≠ .reset ∧ x.1.op.attempted = none ∧ s'.limiter = s.limiter) := by
  obtain ⟨-, hlimiter, hreturns⟩ := h
  generalize x.1.op = op at *
  cases op with
  | tryAcquire granted =>
    exact .inr (.inl ⟨by simp, congrArg some hreturns.symm, hlimiter⟩)
  | attempt granted =>
    exact .inr (.inl ⟨by simp, congrArg some hreturns.symm, hlimiter⟩)
  | reset => exact .inl ⟨rfl, hlimiter⟩
  | acquire => exact .inr (.inr ⟨by simp, rfl, hlimiter⟩)
  | acquireFor maxWait => exact .inr (.inr ⟨by simp, rfl, hlimiter⟩)
  | checkDeadline expired => exact .inr (.inr ⟨by simp, rfl, hlimiter⟩)
  | availableTokens n => exact .inr (.inr ⟨by simp, rfl, hlimiter⟩)
  | dailyRequestsRemaining n => exact .inr (.inr ⟨by simp, rfl, hlimiter⟩)

/-- The limiter counts the acquisitions since the last `reset`. -/
structure Quota (config : RateLimiter.Config) (sys : ℤ) (tr : List (Event ι × ℤ))
    (s : System ι) : Prop where
  invariant : Invariant (sanitized config) s
  used_nonneg : 0 ≤ s.limiter.dailyRequestsUsed
  counts : Counts config.dailyLimit.toInt.toNat (floorDays (sinceReset sys tr).1)
    (attemptsOf (sinceReset sys tr).2) (counter s.limiter)

omit [DecidableEq ι] in
theorem start_quota (config : RateLimiter.Config) (now sys : ℤ) :
    Quota config sys [] (start config now sys : System ι) :=
  ⟨start_invariant config now sys, le_rfl, Counts.start _ _⟩

theorem StepAt.quota {config : RateLimiter.Config} (hlimit : 0 < config.dailyLimit.toInt) {sys : ℤ}
    {tr : List (Event ι × ℤ)} {s s' : System ι} {x : Event ι × ℤ} (hs : Quota config sys tr s)
    (h : StepAt s x s') : Quota config sys (tr ++ [x]) s' := by
  have hconfig : s.limiter.config.dailyLimit = config.dailyLimit := by
    rw [hs.invariant.config_eq]
    rfl
  refine ⟨h.step.invariant hs.invariant, ?_, ?_⟩
  · rcases h.cases with ⟨-, heq⟩ | ⟨-, -, heq⟩ | ⟨-, -, heq⟩
    · rw [heq]
      exact le_rfl
    · rw [heq]
      exact (tryAcquire_counter (hconfig ▸ hlimit) hs.used_nonneg _ _).2.1
    · rw [heq]
      exact hs.used_nonneg
  · rw [sinceReset_concat]
    rcases h.cases with ⟨hop, heq⟩ | ⟨hop, hattempted, heq⟩ | ⟨hop, hattempted, heq⟩
    · rw [if_pos hop, heq]
      exact Counts.start _ _
    · obtain ⟨hcounter, -, htakes⟩ :=
        tryAcquire_counter (hconfig ▸ hlimit) hs.used_nonneg x.2 x.1.now
      rw [if_neg hop, attemptsOf_concat, hattempted, heq, hcounter]
      exact hs.counts.attempt (hconfig ▸ htakes)
    · rw [if_neg hop, attemptsOf_concat, hattempted, heq]
      simpa using hs.counts

theorem quota {config : RateLimiter.Config} (hlimit : 0 < config.dailyLimit.toInt) {now sys : ℤ}
    {tr : List (Event ι × ℤ)} {s : System ι} (h : Run StepAt (start config now sys) tr s) :
    Quota config sys tr s :=
  h.history (fun _ _ _ _ hs h => h.quota hlimit hs) (start_quota config now sys)

/-- An attempt succeeds if the counter is below the limit on its day and there is a token. -/
theorem tryAcquire_iff {s : RateLimiter} (h : s.WellFormed)
    (hlimit : 0 < s.config.dailyLimit.toInt) (hused : 0 ≤ s.dailyRequestsUsed) (sys now : ℤ) :
    (s.tryAcquire sys now).1 = true ↔
      ((counter s).observe (floorDays sys)).used < s.config.dailyLimit.toInt.toNat ∧
        0 < (s.availableTokens now).toNat := by
  have hiff := quotaReached_iff_used (s := s.checkDailyReset sys)
    (by rwa [checkDailyReset_config]) (checkDailyReset_used_nonneg hused sys)
  rw [checkDailyReset_config, counter_checkDailyReset] at hiff
  have hzero : (0 : UInt16).toNat = 0 := rfl
  rw [← not_le, ← hiff, ← availableTokens_checkDailyReset s sys,
    availableTokens_eq (h.checkDailyReset sys), tryAcquire_eq]
  split_ifs with hquota htoken
  · simp [hquota]
  · rw [gt_iff_lt, UInt16.lt_iff_toNat_lt] at htoken
    simp only [hquota, not_false_iff, true_and, true_iff]
    exact htoken
  · rw [gt_iff_lt, UInt16.lt_iff_toNat_lt, hzero] at htoken
    simp [htoken, hquota]

/-- In every run of any number of callers, whatever the system clock shows: since the last
    `reset`, no day has more acquisitions than the daily limit, each counted for the latest day
    that was read before it. What is left of the limit is what `daily_requests_remaining`
    reports, and an attempt succeeds if and only if some of it is left and there is a token.
    Where the system clock does not go back, an acquisition counts for the day it reads. -/
theorem quota_exact (config : RateLimiter.Config) (hlimit : 0 < config.dailyLimit.toInt)
    {now sys : ℤ} {tr : List (Event ι × ℤ)} {s : System ι}
    (h : Run StepAt (start config now sys) tr s) :
    (∀ d, ((grantDays sys tr).count d : ℤ) ≤ config.dailyLimit.toInt) ∧
    (∀ x s', StepAt s x s' →
      let used := (grantDays sys tr).count (max (latestDay sys tr) (floorDays x.2))
      (∀ n, x.1.op = .dailyRequestsRemaining n → n = config.dailyLimit.toInt - used) ∧
      (∀ granted, x.1.op.attempted = some granted →
        (granted = true ↔ (used : ℤ) < config.dailyLimit.toInt ∧
          0 < (s.limiter.availableTokens x.1.now).toNat))) ∧
    (((sinceReset sys tr).1 :: (sinceReset sys tr).2.map Prod.snd).Pairwise (· ≤ ·) →
      grantDays sys tr = (sinceReset sys tr).2.filterMap fun x =>
        if Granted x.1 then some (floorDays x.2) else none) := by
  have hq := quota hlimit h
  have hconfig : s.limiter.config.dailyLimit = config.dailyLimit := by
    rw [hq.invariant.config_eq]
    rfl
  have hle : ∀ d, ((grantDays sys tr).count d : ℤ) ≤ config.dailyLimit.toInt := by
    intro d
    have := hq.counts.le d
    unfold grantDays
    omega
  refine ⟨hle, fun x s' hx => ?_, fun hreadings => ?_⟩
  · intro used
    have hobserve : ((counter s.limiter).observe (floorDays x.2)).used = used :=
      hq.counts.observe (floorDays x.2)
    constructor
    · intro n hop
      have hreturns := hx.returns
      rw [hop] at hreturns
      have hreturns : s.limiter.dailyRequestsRemaining x.2 = n := hreturns
      have hzero : (0 : Int32).toInt = 0 := rfl
      have hused : (s.limiter.checkDailyReset x.2).dailyRequestsUsed = used := by
        have hnonneg := checkDailyReset_used_nonneg hq.used_nonneg x.2
        rw [← counter_checkDailyReset] at hobserve
        have hobserve : (s.limiter.checkDailyReset x.2).dailyRequestsUsed.toNat = used := hobserve
        omega
      have := hle (max (latestDay sys tr) (floorDays x.2))
      rw [← hreturns, dailyRequestsRemaining_eq, hconfig, hused,
        if_neg (by rw [Int32.le_iff_toInt_le, hzero]; omega)]
      omega
    · intro granted hop
      rcases hx.cases with ⟨hreset, -⟩ | ⟨-, hattempted, -⟩ | ⟨-, hnone, -⟩
      · rw [hreset] at hop
        cases hop
      · rw [hattempted, Option.some.injEq] at hop
        rw [← hop, tryAcquire_iff hq.invariant.wellFormed (hconfig ▸ hlimit) hq.used_nonneg,
          hobserve, hconfig]
        omega
      · rw [hnone] at hop
        cases hop
  · exact takenIn_attemptsOf hreadings

/-- Two callers use up the quota of a day, the second one after the clock was set back. -/
def setBack : List (Event Bool × ℤ) :=
  [(⟨true, .tryAcquire true, 0⟩, nsPerDay), (⟨false, .tryAcquire true, 0⟩, 0)]

theorem run_setBack : ∃ s, Run StepAt (start { dailyLimit := 2 } 0 nsPerDay) setBack s := by
  have h1 : (RateLimiter.new { dailyLimit := 2 } 0 nsPerDay).tryAcquire nsPerDay 0 =
      (true, ⟨{ dailyLimit := 2 }, 4, 0, 1, 1⟩) := by decide
  have h2 : (⟨{ dailyLimit := 2 }, 4, 0, 1, 1⟩ : RateLimiter).tryAcquire 0 0 =
      (true, ⟨{ dailyLimit := 2 }, 3, 0, 2, 1⟩) := by decide
  exact ⟨_, .cons ⟨.tryAcquire nsPerDay le_rfl rfl h1, (congrArg Prod.snd h1).symm,
    congrArg Prod.fst h1⟩ (.cons ⟨.tryAcquire 0 le_rfl rfl h2, (congrArg Prod.snd h2).symm,
      congrArg Prod.fst h2⟩ .nil)⟩

/-- Both acquisitions count for the later day, so on that day there is no third one. -/
theorem quota_exact_setBack : grantDays nsPerDay setBack = [1, 1] ∧
    ∃ s, ∀ s', ¬ StepAt s (⟨true, .tryAcquire true, 0⟩, nsPerDay) s' := by
  obtain ⟨s, hrun⟩ := run_setBack
  refine ⟨by decide, s, fun s' hstep => ?_⟩
  obtain ⟨-, hnext, -⟩ := quota_exact { dailyLimit := 2 } (by decide) hrun
  obtain ⟨hlt, -⟩ := ((hnext _ s' hstep).2 true rfl).mp rfl
  revert hlt
  decide

end NceiCpp.Core.RateLimitCallers
