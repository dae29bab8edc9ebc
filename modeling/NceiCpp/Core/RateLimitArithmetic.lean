import NceiCpp.Core.RateLimitWaits
import NceiCpp.Lib.Faults

/-!
# The arithmetic of the rate limiter

The member functions of `RateLimiter` once more (`src/core/rate_limit.cpp`), with the value of
each subexpression checked against its type: `std::int64_t` for the counts of durations and
time points, `std::uint16_t` for tokens, `std::int32_t` for the daily counter. A duration in
milliseconds is converted to nanoseconds by a multiplication that is checked, too.

* `Exact`: the checked functions return, and return what the unchecked ones do.
* `Bounded.exact`: they do so on a limiter whose times are on the clock.
* `arithmetic_exact`: so they do behind every run of any number of callers.
-/

namespace NceiCpp.Core

open Faults

/-- `std::int64_t`, the type of the counts of durations and time points. -/
def int64 : IntType := .signed 64

/-- `std::int32_t`. -/
def int32 : IntType := .signed 32

/-- `std::uint16_t`. -/
def uint16 : IntType := .unsigned 16

namespace RateLimiter

namespace Checked

/-- `std::chrono::duration_cast<std::chrono::milliseconds>` of nanoseconds. -/
def toMs (ns : ℤ) : Except Fault ℤ := div int64 ns nsPerMs

/-- The conversion of milliseconds to nanoseconds. -/
def toNs (ms : ℤ) : Except Fault ℤ := mul int64 ms nsPerMs

/-- `earned` of `refill` and `available_tokens` (lines 38–40, 112–115). -/
def earned (s : RateLimiter) (now : ℤ) : Except Fault ℤ := do
  let elapsed ← sub int64 now s.lastRefill
  let elapsedMs ← toMs elapsed
  div int64 elapsedMs s.config.refillInterval

/-- `refill` (lines 32–53). -/
def refill (s : RateLimiter) (now : ℤ) : Except Fault RateLimiter :=
  if s.tokens ≥ s.config.maxTokens then return { s with lastRefill := now }
  else do
    let earned ← earned s now
    if earned ≤ 0 then return s
    else
      let total ← add int64 s.tokens.toNat earned
      if total ≥ s.config.maxTokens.toNat then
        return { s with tokens := s.config.maxTokens, lastRefill := now }
      else
        let tokens ← cast uint16 total
        let spanMs ← mul int64 earned s.config.refillInterval
        let span ← toNs spanMs
        let lastRefill ← add int64 s.lastRefill span
        return { s with tokens := UInt16.ofNat tokens.toNat, lastRefill := lastRefill }

/-- `--n` of a `std::uint16_t`: a subtraction of `int`, whose result is converted back. -/
def decrement (n : UInt16) : Except Fault UInt16 := do
  let fewer ← sub int32 n.toNat 1
  let fewer ← cast uint16 fewer
  return UInt16.ofNat fewer.toNat

/-- `try_acquire` (lines 55–72). -/
def tryAcquire (s : RateLimiter) (sys now : ℤ) : Except Fault (Bool × RateLimiter) :=
  let s := s.checkDailyReset sys
  if s.config.dailyLimit > 0 ∧ s.dailyRequestsUsed ≥ s.config.dailyLimit.toInt then
    return (false, s)
  else do
    let s ← refill s now
    if s.tokens > 0 then
      let tokens ← decrement s.tokens
      let s := { s with tokens := tokens }
      if s.dailyRequestsUsed < int32Max then
        let used ← add int32 s.dailyRequestsUsed 1
        return (true, { s with dailyRequestsUsed := used })
      else return (true, s)
    else return (false, s)

/-- `deadline` of `acquire_for` (lines 90–95). -/
def deadline (now maxWait : ℤ) : Except Fault ℤ := do
  let room ← sub int64 timePointMax now
  let remaining ← toMs room
  if maxWait ≤ 0 then return now
  else if maxWait ≥ remaining then return timePointMax
  else
    let wait ← toNs maxWait
    add int64 now wait

/-- How long `acquire_for` sleeps behind a failed attempt (lines 104–106). -/
def pause (deadline current : ℤ) : Except Fault ℤ := do
  let left ← sub int64 deadline current
  let turn ← toNs 10
  return min left turn

/-- `available_tokens` (lines 110–119). -/
def availableTokens (s : RateLimiter) (now : ℤ) : Except Fault UInt16 := do
  let earned ← earned s now
  let total ← add int64 s.tokens.toNat (max earned 0)
  let tokens ← cast uint16 (min total s.config.maxTokens.toNat)
  return UInt16.ofNat tokens.toNat

/-- `daily_requests_remaining` (lines 121–134). -/
def dailyRequestsRemaining (s : RateLimiter) (sys : ℤ) : Except Fault ℤ :=
  if s.config.dailyLimit ≤ 0 then return int32Max
  else if floorDays sys > s.dayStart then return s.config.dailyLimit.toInt
  else do
    let left ← sub int32 s.config.dailyLimit.toInt s.dailyRequestsUsed
    return max left 0

end Checked

/-- How long `acquire_for` sleeps behind a failed attempt, in nanoseconds. -/
def pause (deadline current : ℤ) : ℤ := min (deadline - current) (10 * nsPerMs)

/-- The member functions compute without a fault at the reading `now`, and with the results
    of the unchecked ones. -/
structure Exact (s : RateLimiter) (now : ℤ) : Prop where
  refill : Checked.refill s now = .ok (s.refill now)
  tryAcquire : ∀ sys, Checked.tryAcquire s sys now = .ok (s.tryAcquire sys now)
  availableTokens : Checked.availableTokens s now = .ok (s.availableTokens now)
  dailyRequestsRemaining : ∀ sys,
    Checked.dailyRequestsRemaining s sys = .ok (s.dailyRequestsRemaining sys)
  deadline : ∀ maxWait, Checked.deadline now maxWait = .ok (deadline now maxWait)

/-- The limiter is well formed, was refilled between the epoch of the clock and `now`, which
    the clock can show, and its daily counter is within its type. -/
structure Bounded (s : RateLimiter) (now : ℤ) : Prop where
  wellFormed : s.WellFormed
  lastRefill_nonneg : 0 ≤ s.lastRefill
  lastRefill_le : s.lastRefill ≤ now
  now_le : now ≤ timePointMax
  used_mem : 0 ≤ s.dailyRequestsUsed ∧ s.dailyRequestsUsed ≤ int32Max

/-! ## Each function -/

theorem int64_has {x : ℤ} : int64.Has x ↔ -2 ^ 63 ≤ x ∧ x ≤ timePointMax := Iff.rfl

theorem uint16_has {x : ℤ} : uint16.Has x ↔ 0 ≤ x ∧ x ≤ 2 ^ 16 - 1 := Iff.rfl

theorem int32_has {x : ℤ} : int32.Has x ↔ -2 ^ 31 ≤ x ∧ x ≤ int32Max := Iff.rfl

/-- A time on the clock, in milliseconds. -/
theorem toMs_ok {ns : ℤ} (h0 : 0 ≤ ns) (hmax : ns ≤ timePointMax) :
    Checked.toMs ns = .ok (ns.tdiv nsPerMs) := div_ok (by decide) h0 hmax (by decide)

/-- Whole milliseconds of a time on the clock are within it. -/
theorem tdiv_nsPerMs_mem {ns : ℤ} (h0 : 0 ≤ ns) :
    0 ≤ ns.tdiv nsPerMs ∧ ns.tdiv nsPerMs * nsPerMs ≤ ns ∧
      ns < (ns.tdiv nsPerMs + 1) * nsPerMs := by
  rw [Int.tdiv_eq_ediv_of_nonneg h0]
  unfold nsPerMs
  omega

theorem toNs_ok {ms : ℤ} (h0 : 0 ≤ ms) (hmax : ms * nsPerMs ≤ timePointMax) :
    Checked.toNs ms = .ok (ms * nsPerMs) := by
  apply mul_ok
  rw [int64_has]
  unfold nsPerMs at *
  omega

/-- The tokens earned take no longer than the time that has passed. -/
theorem earned_span {s : RateLimiter} {now : ℤ} (h : s.WellFormed) (hnow : s.lastRefill ≤ now) :
    0 ≤ s.earned now ∧
      0 ≤ s.earned now * s.config.refillInterval ∧
      s.earned now ≤ s.earned now * s.config.refillInterval ∧
      s.earned now * s.config.refillInterval * nsPerMs ≤ now - s.lastRefill := by
  have hI := h.interval_pos
  have hinterval := h.sane.refillInterval_pos
  have h0 : 0 ≤ s.earned now := by
    rw [earned_eq hnow]
    exact Int.ediv_nonneg (by omega) hI.le
  refine ⟨h0, mul_nonneg h0 hinterval.le, le_mul_of_one_le_right h0 hinterval, ?_⟩
  rw [mul_assoc, earned_eq hnow]
  exact Int.ediv_mul_le _ hI.ne'

theorem Bounded.now_nonneg {s : RateLimiter} {now : ℤ} (h : s.Bounded now) : 0 ≤ now :=
  h.lastRefill_nonneg.trans h.lastRefill_le

theorem Bounded.earned_ok {s : RateLimiter} {now : ℤ} (h : s.Bounded now) :
    Checked.earned s now = .ok (s.earned now) := by
  have h1 := h.lastRefill_nonneg
  have h2 := h.lastRefill_le
  have h3 := h.now_le
  have h0 : 0 ≤ now - s.lastRefill := by omega
  have hms := tdiv_nsPerMs_mem h0
  have hmax : (now - s.lastRefill).tdiv nsPerMs ≤ timePointMax := by
    unfold nsPerMs at *
    omega
  rw [Checked.earned, sub_ok (int64_has.mpr (by omega)), ok_bind,
    toMs_ok h0 (by omega), ok_bind,
    div_ok (by decide) hms.1 hmax h.wellFormed.sane.refillInterval_pos]
  rfl

/-- The tokens with the ones earned are a small number. -/
theorem Bounded.total_has {s : RateLimiter} {now : ℤ} (h : s.Bounded now) :
    int64.Has (s.tokens.toNat + s.earned now) := by
  obtain ⟨h0, -, hle, hspan⟩ := earned_span h.wellFormed h.lastRefill_le
  have h1 := h.lastRefill_nonneg
  have h3 := h.now_le
  have htokens := s.tokens.toNat_lt
  rw [int64_has]
  unfold nsPerMs timePointMax at *
  omega

theorem Bounded.refill_ok {s : RateLimiter} {now : ℤ} (h : s.Bounded now) :
    Checked.refill s now = .ok (s.refill now) := by
  obtain ⟨h0, hspan0, hle, hspan⟩ := earned_span h.wellFormed h.lastRefill_le
  have h1 := h.lastRefill_nonneg
  have h2 := h.lastRefill_le
  have h3 := h.now_le
  have hmax := s.config.maxTokens.toNat_lt
  unfold Checked.refill refill
  split_ifs with hfull
  · rfl
  · rw [h.earned_ok, ok_bind]
    dsimp only
    split_ifs with hnone htotal
    · rfl
    · rw [add_ok h.total_has, ok_bind, if_pos htotal]
      rfl
    · have htokens : uint16.Has (s.tokens.toNat + s.earned now) := by
        rw [uint16_has]
        omega
      have hms : int64.Has (s.earned now * s.config.refillInterval) := by
        rw [int64_has]
        unfold nsPerMs at hspan
        omega
      have hns : s.earned now * s.config.refillInterval * nsPerMs ≤ timePointMax := by omega
      have hns0 : 0 ≤ s.earned now * s.config.refillInterval * nsPerMs :=
        mul_nonneg hspan0 (by decide)
      rw [add_ok h.total_has, ok_bind, if_neg htotal, cast_ok htokens, ok_bind, mul_ok hms,
        ok_bind, toNs_ok hspan0 hns, ok_bind, add_ok (int64_has.mpr (by omega)), ok_bind,
        mul_assoc]
      rfl

theorem Bounded.availableTokens_ok {s : RateLimiter} {now : ℤ} (h : s.Bounded now) :
    Checked.availableTokens s now = .ok (s.availableTokens now) := by
  obtain ⟨h0, -⟩ := earned_span h.wellFormed h.lastRefill_le
  have hmax := s.config.maxTokens.toNat_lt
  have htokens : uint16.Has
      (min ((s.tokens.toNat : ℤ) + max (s.earned now) 0) s.config.maxTokens.toNat) := by
    rw [uint16_has]
    omega
  have htotal := h.total_has
  rw [← max_eq_left h0] at htotal
  rw [Checked.availableTokens, h.earned_ok, ok_bind, add_ok htotal, ok_bind, cast_ok htokens,
    ok_bind]
  rfl

theorem Bounded.dailyRequestsRemaining_ok {s : RateLimiter} {now : ℤ} (h : s.Bounded now)
    (sys : ℤ) : Checked.dailyRequestsRemaining s sys = .ok (s.dailyRequestsRemaining sys) := by
  have hused := h.used_mem
  have hlt := s.config.dailyLimit.toInt_lt
  have hle := s.config.dailyLimit.le_toInt
  unfold Checked.dailyRequestsRemaining dailyRequestsRemaining
  split_ifs with hlimit hday
  · rfl
  · rfl
  · have hzero : (0 : Int32).toInt = 0 := rfl
    rw [Int32.le_iff_toInt_le, hzero] at hlimit
    rw [sub_ok, ok_bind]
    · rfl
    · rw [int32_has]
      unfold int32Max at *
      omega

theorem Bounded.checkDailyReset {s : RateLimiter} {now : ℤ} (h : s.Bounded now) (sys : ℤ) :
    (s.checkDailyReset sys).Bounded now := by
  refine ⟨h.wellFormed.checkDailyReset sys, ?_, ?_, h.now_le, ?_⟩
  · rw [checkDailyReset_lastRefill]
    exact h.lastRefill_nonneg
  · rw [checkDailyReset_lastRefill]
    exact h.lastRefill_le
  · rcases lt_or_ge s.dayStart (floorDays sys) with hday | hday
    · rw [checkDailyReset_of_lt hday]
      exact ⟨le_rfl, show (0 : ℤ) ≤ int32Max by decide⟩
    · rw [checkDailyReset_of_le hday]
      exact h.used_mem

/-- A refill does not go back in time. -/
theorem lastRefill_le_refill {s : RateLimiter} {now : ℤ} (h : s.WellFormed)
    (hnow : s.lastRefill ≤ now) : s.lastRefill ≤ (s.refill now).lastRefill := by
  obtain ⟨-, h0, -⟩ := earned_span h hnow
  have hns : 0 ≤ s.earned now * (s.config.refillInterval * nsPerMs) := by
    rw [← mul_assoc]
    exact mul_nonneg h0 (by decide)
  unfold refill
  dsimp only
  split_ifs
  · exact hnow
  · exact le_rfl
  · exact hnow
  · exact le_add_of_nonneg_right hns

theorem Bounded.refill {s : RateLimiter} {now : ℤ} (h : s.Bounded now) :
    (s.refill now).Bounded now := by
  have hr := refill_refilled h.wellFormed h.lastRefill_le
  refine ⟨hr.wellFormed, ?_, hr.lastRefill_le, h.now_le, ?_⟩
  · exact h.lastRefill_nonneg.trans (lastRefill_le_refill h.wellFormed h.lastRefill_le)
  · rw [hr.dailyRequestsUsed]
    exact h.used_mem

theorem decrement_ok {n : UInt16} (h : 0 < n.toNat) : Checked.decrement n = .ok (n - 1) := by
  have hlt := n.toNat_lt
  have hone : (1 : UInt16).toNat = 1 := rfl
  have hvalue : UInt16.ofNat ((n.toNat : ℤ) - 1).toNat = n - 1 := by
    have hsmall : ((n.toNat : ℤ) - 1).toNat < 2 ^ 16 := by omega
    have hofNat : (UInt16.ofNat ((n.toNat : ℤ) - 1).toNat).toNat = ((n.toNat : ℤ) - 1).toNat :=
      UInt16.toNat_ofNat_of_lt hsmall
    rw [← UInt16.toNat_inj, UInt16.toNat_sub_of_le _ _ (UInt16.le_iff_toNat_le.mpr (by omega)),
      hofNat, hone]
    omega
  have hint : int32.Has ((n.toNat : ℤ) - 1) := by
    rw [int32_has]
    unfold int32Max
    omega
  have htokens : uint16.Has ((n.toNat : ℤ) - 1) := by
    rw [uint16_has]
    omega
  rw [Checked.decrement, sub_ok hint, ok_bind, cast_ok htokens, ok_bind, hvalue]
  rfl

/-- A token is taken where there is one, and counted where the counter has room. -/
theorem Bounded.tryAcquire_ok {s : RateLimiter} {now : ℤ} (h : s.Bounded now) (sys : ℤ) :
    Checked.tryAcquire s sys now = .ok (s.tryAcquire sys now) := by
  have hday := h.checkDailyReset sys
  have hused := hday.refill.used_mem
  unfold Checked.tryAcquire tryAcquire
  dsimp only
  rw [hday.refill_ok, ok_bind]
  generalize s.checkDailyReset sys = s1 at hused ⊢
  generalize s1.refill now = s2 at hused ⊢
  split_ifs with hquota htoken hcount
  · rfl
  · have hused' : int32.Has (s2.dailyRequestsUsed + 1) := by
      rw [int32_has]
      omega
    rw [decrement_ok (UInt16.lt_iff_toNat_lt.mp htoken), ok_bind, add_ok hused', ok_bind]
    rfl
  · rw [decrement_ok (UInt16.lt_iff_toNat_lt.mp htoken), ok_bind]
    rfl
  · rfl

theorem Bounded.deadline_ok {s : RateLimiter} {now : ℤ} (h : s.Bounded now) (maxWait : ℤ) :
    Checked.deadline now maxWait = .ok (deadline now maxWait) := by
  have hnow := h.now_nonneg
  have h0 : 0 ≤ timePointMax - now := sub_nonneg.mpr h.now_le
  have hms := tdiv_nsPerMs_mem h0
  unfold Checked.deadline deadline
  rw [sub_ok (int64_has.mpr (by omega)), ok_bind, toMs_ok h0 (by omega), ok_bind]
  dsimp only
  split_ifs with hnone hmax
  · rfl
  · rfl
  · have hwait : maxWait * nsPerMs ≤ timePointMax - now := by
      unfold nsPerMs at *
      omega
    have hwait0 : 0 ≤ maxWait * nsPerMs := mul_nonneg (by omega) (by decide)
    rw [toNs_ok (by omega) (by omega), ok_bind, add_ok (int64_has.mpr (by omega))]

/-- The deadline is the end of the wait, or the last time on the clock if the wait ends later;
    a wait that ends within the last millisecond of the clock may take all of it. -/
theorem deadline_mem {now : ℤ} (hnow : now ≤ timePointMax) (maxWait : ℤ) :
    min (now + max maxWait 0 * nsPerMs) timePointMax ≤ deadline now maxWait ∧
      deadline now maxWait < min (now + max maxWait 0 * nsPerMs) timePointMax + nsPerMs ∧
      deadline now maxWait ≤ timePointMax := by
  have hms := tdiv_nsPerMs_mem (show 0 ≤ timePointMax - now by omega)
  unfold deadline
  dsimp only
  split_ifs with hnone hmax
  · rw [max_eq_right hnone]
    unfold nsPerMs
    omega
  · rw [max_eq_left (by omega)]
    unfold nsPerMs at *
    omega
  · rw [max_eq_left (by omega)]
    unfold nsPerMs at *
    omega

theorem pause_ok {deadline current : ℤ} (h0 : 0 ≤ current) (hlt : current < deadline)
    (hmax : deadline ≤ timePointMax) :
    Checked.pause deadline current = .ok (pause deadline current) := by
  rw [Checked.pause, sub_ok (int64_has.mpr (by omega)), ok_bind, toNs_ok (by decide) (by decide),
    ok_bind]
  rfl

theorem Bounded.exact {s : RateLimiter} {now : ℤ} (h : s.Bounded now) : s.Exact now :=
  ⟨h.refill_ok, h.tryAcquire_ok, h.availableTokens_ok, h.dailyRequestsRemaining_ok,
    h.deadline_ok⟩

/-! ## Runs -/

theorem Bounded.later {s : RateLimiter} {now now' : ℤ} (h : s.Bounded now) (hle : now ≤ now')
    (hmax : now' ≤ timePointMax) : s.Bounded now' :=
  ⟨h.wellFormed, h.lastRefill_nonneg, h.lastRefill_le.trans hle, hmax, h.used_mem⟩

theorem Bounded.tryAcquire {s : RateLimiter} {now : ℤ} (h : s.Bounded now) (sys : ℤ) :
    (s.tryAcquire sys now).2.Bounded now := by
  have hattempted := tryAcquire_attempted h.wellFormed h.lastRefill_le sys
  have hday := h.checkDailyReset sys
  have hrefill := hday.refill
  refine ⟨hattempted.wellFormed, ?_, hattempted.lastRefill_le, h.now_le, ?_⟩
  · rw [tryAcquire_eq]
    split_ifs
    · exact hday.lastRefill_nonneg
    · exact hrefill.lastRefill_nonneg
    · exact hrefill.lastRefill_nonneg
  · have hused := hrefill.used_mem
    rw [tryAcquire_eq]
    split_ifs
    · exact hday.used_mem
    · show 0 ≤ (if _ < _ then _ else _) ∧ (if _ < _ then _ else _) ≤ int32Max
      split_ifs <;> omega
    · exact hused

theorem new_bounded (config : Config) {now : ℤ} (h0 : 0 ≤ now) (hmax : now ≤ timePointMax)
    (sys : ℤ) : (new config now sys).Bounded now :=
  ⟨new_wellFormed config now sys, h0, le_rfl, hmax, le_rfl, show (0 : ℤ) ≤ int32Max by decide⟩

theorem Bounded.reset {s : RateLimiter} {now : ℤ} (h : s.Bounded now) (sys : ℤ) :
    (s.reset now sys).Bounded now :=
  ⟨reset_wellFormed h.wellFormed now sys, h.now_nonneg, le_rfl, h.now_le, le_rfl,
    show (0 : ℤ) ≤ int32Max by decide⟩

end RateLimiter

namespace RateLimitCallers

open CreditRun RateLimiter

variable {ι : Type} [DecidableEq ι]

theorem Step.bounded {s s' : System ι} {e : Event ι} (h : Step s e s')
    (hs : s.limiter.Bounded s.clock) (hmax : e.now ≤ timePointMax) :
    s'.limiter.Bounded s'.clock := by
  obtain ⟨hclock, hclock', hlimiter⟩ := h.limiter_cases
  have hnow := hs.later hclock hmax
  rw [hclock']
  rcases hlimiter with ⟨heq, -⟩ | ⟨sys, heq, -⟩ | ⟨sys, heq, -⟩
  · rwa [heq]
  · rw [heq]
    exact hnow.tryAcquire sys
  · rw [heq]
    exact hnow.reset sys

theorem Run.bounded {s s' : System ι} {tr : List (Event ι)} (h : Run Step s tr s')
    (hs : s.limiter.Bounded s.clock) (hmax : ∀ e ∈ tr, e.now ≤ timePointMax) :
    s'.limiter.Bounded s'.clock := by
  induction h with
  | nil => exact hs
  | cons h1 _ ih =>
    obtain ⟨hfirst, hrest⟩ := List.forall_mem_cons.mp hmax
    exact ih (h1.bounded hs hfirst) hrest

omit [DecidableEq ι] in
/-- The deadline of a caller was set by a reading of the clock. -/
theorem History.deadline_le {config : RateLimiter.Config} {past : List (Event ι)} {s : System ι}
    (hs : History config past s) (hmax : ∀ e ∈ past, e.now ≤ timePointMax) {i : ι} {d : ℤ}
    (hi : s.callers i = .failed d) : d ≤ timePointMax := by
  obtain ⟨since, hcall, -⟩ := hs.failed i d hi
  obtain ⟨before, e, maxWait, rfl, -, -, rfl⟩ := hcall.started
  exact (deadline_mem (hmax e (by simp)) maxWait).2.2

/-- In every run of any number of callers, whatever the configuration and the system clock,
    on a steady clock that starts at its epoch or later and does not go back: the member
    functions compute without a fault at every further reading, and so does the pause of a
    caller that waits; the time of the last refill is not ahead of the clock; a deadline is
    the end of the wait, less than a millisecond late; and a call that returns false has
    attempted, and reads the clock at its deadline or later. -/
theorem arithmetic_exact (config : RateLimiter.Config) {now sys : ℤ} {s : System ι}
    {tr : List (Event ι)} (h0 : 0 ≤ now) (hnow : now ≤ timePointMax)
    (h : Run Step (start config now sys) tr s) (hmax : ∀ e ∈ tr, e.now ≤ timePointMax) :
    (∀ t, s.clock ≤ t → t ≤ timePointMax →
      s.limiter.Exact t ∧
      ∀ i d, s.callers i = .failed d → t < d →
        Checked.pause d t = .ok (RateLimiter.pause d t)) ∧
    s.limiter.lastRefill ≤ s.clock ∧
    (∀ t ≤ timePointMax, ∀ maxWait,
      min (t + max maxWait 0 * nsPerMs) timePointMax ≤ deadline t maxWait ∧
        deadline t maxWait < min (t + max maxWait 0 * nsPerMs) timePointMax + nsPerMs) ∧
    ∀ past later i t, tr = past ++ ⟨i, .checkDeadline true, t⟩ :: later →
      ∃ since d, InCall config past since i d ∧ Attempted since i ∧ d ≤ t := by
  have hs := Run.bounded h (new_bounded config h0 hnow sys) hmax
  have hhistory := history config h
  refine ⟨fun t ht htmax => ⟨(hs.later ht htmax).exact, ?_⟩, hs.lastRefill_le, ?_, ?_⟩
  · intro i d hi hlt
    exact pause_ok (hs.now_nonneg.trans ht) hlt (hhistory.deadline_le hmax hi)
  · intro t htmax maxWait
    obtain ⟨hle, hlt, -⟩ := deadline_mem htmax maxWait
    exact ⟨hle, hlt⟩
  · rintro past later i t rfl
    exact false_behind_deadline config h

/-- No tokens at first, and the longest interval between two. -/
def noTokens : RateLimiter.Config where
  initialTokens := 0
  refillInterval := 2 ^ 63 - 1

/-- A call that waits for 5 ms, and looks at the clock again behind 7 ms. -/
def waitInVain : List (Event Unit) :=
  [⟨(), .acquireFor 5, 0⟩, ⟨(), .attempt false, 0⟩, ⟨(), .checkDeadline true, 7000000⟩]

theorem run_waitInVain : ∃ s, Run Step (start noTokens 0 0) waitInVain s ∧ s.clock = 7000000 := by
  have h : (RateLimiter.new noTokens 0 0).tryAcquire 0 0 =
      (false, RateLimiter.new noTokens 0 0) := by decide
  have hstart : acquireForStart 0 5 = .attempting (some 5000000) := by decide
  have hunit : ∀ (callers : Unit → Caller) (c : Caller),
      Function.update callers () c = fun _ => c :=
    fun callers c => funext fun _ => Function.update_self _ _ _
  have h1 : Step (start noTokens 0 0) ⟨(), .acquireFor 5, 0⟩
      ⟨RateLimiter.new noTokens 0 0, fun _ => .attempting (some 5000000), 0⟩ := by
    rw [← hstart, ← hunit (fun _ => .idle) (acquireForStart 0 5)]
    exact .acquireFor 5 le_rfl rfl
  have h2 : Step ⟨RateLimiter.new noTokens 0 0, fun _ => .attempting (some 5000000), 0⟩
      ⟨(), .attempt false, 0⟩
      ⟨RateLimiter.new noTokens 0 0, fun _ => .failed 5000000, 0⟩ := by
    have hstep := Step.attempt
      (s := ⟨RateLimiter.new noTokens 0 0, fun _ => .attempting (some 5000000), 0⟩)
      (i := ()) 0 le_rfl rfl h
    rwa [hunit] at hstep
  have h3 : Step ⟨RateLimiter.new noTokens 0 0, fun _ => .failed 5000000, 0⟩
      ⟨(), .checkDeadline true, 7000000⟩
      ⟨RateLimiter.new noTokens 0 0, fun _ => .idle, 7000000⟩ := by
    have hstep := Step.checkDeadline
      (s := ⟨RateLimiter.new noTokens 0 0, fun _ => .failed 5000000, 0⟩)
      (i := ()) (show (0 : ℤ) ≤ 7000000 by decide) rfl
    rwa [hunit] at hstep
  exact ⟨_, .cons h1 (.cons h2 (.cons h3 .nil)), rfl⟩

theorem arithmetic_exact_waitInVain :
    (∃ s, Run Step (start noTokens 0 0) waitInVain s ∧ s.limiter.Exact 7000000) ∧
      ∃ since d, InCall noTokens [⟨(), .acquireFor 5, 0⟩, ⟨(), .attempt false, 0⟩] since () d ∧
        Attempted since () ∧ d ≤ 7000000 := by
  obtain ⟨s, hrun, hclock⟩ := run_waitInVain
  obtain ⟨hexact, -, -, hfalse⟩ := arithmetic_exact noTokens le_rfl (by decide) hrun (by decide)
  exact ⟨⟨s, hrun, (hexact _ hclock.le (by decide)).1⟩,
    hfalse [⟨(), .acquireFor 5, 0⟩, ⟨(), .attempt false, 0⟩] [] () 7000000 rfl⟩

end RateLimitCallers

end NceiCpp.Core
