import NceiCpp.Core.Error
import NceiCpp.Lib.Exec

/-!
# Retries

Model of `with_retry` (`include/ncei/retry.hpp`). `calculate_retry_delay` computes with
floating-point numbers and a random generator; the delay is a parameter, and the fields
of `RetryPolicy` that only the delay depends on are left out.

* `withRetryFrom_triple`: the rule of the loop.
* `withRetry_attempts`: the attempts, the result and the sleeps, for every sequence of
  outcomes of the operation.
-/

namespace NceiCpp.Core

open Exec

structure RetryPolicy where
  maxAttempts : UInt8 := 3
  retryOnNetworkError : Bool := true
  retryOnRateLimit : Bool := true
  retryOnServerError : Bool := true
  deriving DecidableEq

/-- `should_retry` of a response (lines 39–48). -/
def shouldRetryResponse (response : HttpResponse) (policy : RetryPolicy) : Bool :=
  if response.statusCode = 429 then policy.retryOnRateLimit
  else if policy.retryOnServerError ∧ response.statusCode ≥ 500 ∧ response.statusCode < 600 then
    true
  else false

/-- `should_retry` of an error (lines 51–57). -/
def shouldRetryError (error : Error) (policy : RetryPolicy) : Bool :=
  if policy.retryOnNetworkError ∧ error.code = .networkError then true else false

/-- `should_retry` of a result. -/
def shouldRetry (result : Result HttpResponse) (policy : RetryPolicy) : Bool :=
  match result with
  | .ok response => shouldRetryResponse response policy
  | .error e => shouldRetryError e policy

variable {σ : Type}

theorem toNat_succ {attempt maxAttempts : UInt8} (h : attempt < maxAttempts) :
    (attempt + 1).toNat = attempt.toNat + 1 := by
  have hlt := UInt8.lt_iff_toNat_lt.mp h
  have hmax := maxAttempts.toNat_lt
  have hone : (1 : UInt8).toNat = 1 := rfl
  rw [UInt8.toNat_add, hone]
  omega

/-- The loop of `with_retry` (lines 88–111) from `attempt` on. `sleepFor` sleeps for
    `calculate_retry_delay(attempt, policy)`. The loop repeats its body only behind an
    attempt below `max_attempts`, so `++attempt` does not wrap around. -/
def withRetryFrom (operation : Exec σ (Result HttpResponse)) (sleepFor : UInt8 → Exec σ Unit)
    (policy : RetryPolicy) (attempt : UInt8) : Exec σ (Result HttpResponse) :=
  if attempt ≤ policy.maxAttempts then do
    let result ← operation
    if _h : shouldRetry result policy ∧ attempt < policy.maxAttempts then
      sleepFor attempt
      withRetryFrom operation sleepFor policy (attempt + 1)
    else return result
  else return .error (Error.network (bytes "Max retry attempts exceeded"))
termination_by policy.maxAttempts.toNat - attempt.toNat
decreasing_by
  have hlt := UInt8.lt_iff_toNat_lt.mp _h.2
  have hsucc := toNat_succ _h.2
  omega

/-- `with_retry` (lines 86–112). -/
def withRetry (operation : Exec σ (Result HttpResponse)) (sleepFor : UInt8 → Exec σ Unit)
    (policy : RetryPolicy) : Exec σ (Result HttpResponse) :=
  withRetryFrom operation sleepFor policy 1

theorem withRetryFrom_done {operation : Exec σ (Result HttpResponse)}
    {sleepFor : UInt8 → Exec σ Unit} {policy : RetryPolicy} {a : UInt8} {s s' : σ}
    {result : Result HttpResponse} (ha : a ≤ policy.maxAttempts)
    (hop : operation s = (some result, s'))
    (hlast : ¬ (shouldRetry result policy ∧ a < policy.maxAttempts)) :
    withRetryFrom operation sleepFor policy a s = (some result, s') := by
  rw [withRetryFrom, if_pos ha]
  change Exec.bind operation _ s = _
  rw [Exec.bind, hop]
  dsimp only
  rw [dif_neg hlast]
  rfl

theorem withRetryFrom_again {operation : Exec σ (Result HttpResponse)}
    {sleepFor : UInt8 → Exec σ Unit} {policy : RetryPolicy} {a : UInt8} {s s' s'' : σ}
    {result : Result HttpResponse} (hop : operation s = (some result, s'))
    (hretry : shouldRetry result policy) (ha : a < policy.maxAttempts)
    (hsleep : sleepFor a s' = (some (), s'')) :
    withRetryFrom operation sleepFor policy a s =
      withRetryFrom operation sleepFor policy (a + 1) s'' := by
  rw [withRetryFrom, if_pos (UInt8.le_of_lt ha)]
  change Exec.bind operation _ s = _
  rw [Exec.bind, hop]
  dsimp only
  rw [dif_pos ⟨hretry, ha⟩]
  change Exec.bind (sleepFor a) _ s' = _
  rw [Exec.bind, hsleep]

/-- The rule of the loop: `P a` holds before the attempt `a`, `M a` behind it if there is
    another one, and `Q` at the end. -/
theorem withRetryFrom_triple {operation : Exec σ (Result HttpResponse)}
    {sleepFor : UInt8 → Exec σ Unit} {policy : RetryPolicy} {P M : UInt8 → σ → Prop}
    {Q : Option (Result HttpResponse) → σ → Prop}
    (hop : ∀ a, a ≤ policy.maxAttempts → Triple (P a) operation fun r s =>
      (∀ result, r = some result → shouldRetry result policy → a < policy.maxAttempts → M a s) ∧
        ((∀ result, r = some result → ¬ (shouldRetry result policy ∧ a < policy.maxAttempts)) →
          Q r s))
    (hsleep : ∀ a, Triple (M a) (sleepFor a) fun r s =>
      (r = some () → P (a + 1) s) ∧ (r = none → Q none s))
    (hend : ∀ a s, policy.maxAttempts < a → P a s →
      Q (some (.error (Error.network (bytes "Max retry attempts exceeded")))) s) (a : UInt8) :
    Triple (P a) (withRetryFrom operation sleepFor policy a) Q := by
  induction hn : policy.maxAttempts.toNat - a.toNat using Nat.strong_induction_on
    generalizing a with
  | _ n ih =>
    rw [withRetryFrom]
    split_ifs with hle
    · refine Triple.bind (hop a hle) (fun result => ?_) fun s hs => ?_
      · split_ifs with hretry
        · refine Triple.bind
            ((hsleep a).of_pre fun s hs => hs.1 result rfl hretry.1 hretry.2)
            (fun _ => ?_) fun s hs => hs.2 rfl
          have hlt := UInt8.lt_iff_toNat_lt.mp hretry.2
          have hsucc := toNat_succ hretry.2
          exact (ih _ (by omega) (a + 1) rfl).of_pre fun s hs => hs.1 rfl
        · refine Triple.pure fun s hs => hs.2 ?_
          rintro _ ⟨rfl⟩
          exact hretry
      · exact hs.2 fun result hr => by cases hr
    · exact Triple.pure fun s hs => hend a s (UInt8.not_le.mp hle) hs

/-! ## Attempts -/

/-- The calls of the operation so far, and the attempts behind which the loop slept. -/
structure RetryLog where
  calls : ℕ := 0
  sleeps : List UInt8 := []
  deriving DecidableEq

/-- The operation whose `i`-th call, counted from 1, returns `outcomes i`. -/
def nextOutcome (outcomes : ℕ → Result HttpResponse) : Exec RetryLog (Result HttpResponse) :=
  act fun log => (outcomes (log.calls + 1), { log with calls := log.calls + 1 })

/-- Sleep for `calculate_retry_delay(attempt, policy)`. -/
def recordSleep (attempt : UInt8) : Exec RetryLog Unit :=
  act fun log => ((), { log with sleeps := log.sleeps ++ [attempt] })

/-- The attempt `i` is the last one: it is the last allowed, or its outcome is not retried. -/
def Final (outcomes : ℕ → Result HttpResponse) (policy : RetryPolicy) (i : ℕ) : Prop :=
  i = policy.maxAttempts.toNat ∨ shouldRetry (outcomes i) policy = false

/-- Before the attempt `a`: there were `a - 1` calls, none of them final, each with a sleep. -/
structure BeforeAttempt (outcomes : ℕ → Result HttpResponse) (policy : RetryPolicy) (a : UInt8)
    (log : RetryLog) : Prop where
  pos : 0 < a.toNat
  calls : log.calls + 1 = a.toNat
  sleeps : log.sleeps.map UInt8.toNat = List.range' 1 log.calls
  not_final : ∀ i, 0 < i → i ≤ log.calls → ¬ Final outcomes policy i

/-- Behind the attempt `a`, which is not final, before the loop sleeps. -/
structure BehindAttempt (outcomes : ℕ → Result HttpResponse) (policy : RetryPolicy) (a : UInt8)
    (log : RetryLog) : Prop where
  lt : a < policy.maxAttempts
  pos : 0 < a.toNat
  calls : log.calls = a.toNat
  sleeps : log.sleeps.map UInt8.toNat = List.range' 1 (log.calls - 1)
  not_final : ∀ i, 0 < i → i ≤ log.calls → ¬ Final outcomes policy i

/-- The loop has ended with the first final attempt. -/
def Attempted (outcomes : ℕ → Result HttpResponse) (policy : RetryPolicy)
    (result : Option (Result HttpResponse)) (log : RetryLog) : Prop :=
  IsLeast {i | 0 < i ∧ Final outcomes policy i} log.calls ∧
    result = some (outcomes log.calls) ∧
    log.sleeps.map UInt8.toNat = List.range' 1 (log.calls - 1)

theorem nextOutcome_triple (outcomes : ℕ → Result HttpResponse) {policy : RetryPolicy} {a : UInt8}
    (ha : a ≤ policy.maxAttempts) :
    Triple (BeforeAttempt outcomes policy a) (nextOutcome outcomes) fun r log =>
      (∀ result, r = some result → shouldRetry result policy → a < policy.maxAttempts →
        BehindAttempt outcomes policy a log) ∧
      ((∀ result, r = some result → ¬ (shouldRetry result policy ∧ a < policy.maxAttempts)) →
        Attempted outcomes policy r log) := by
  refine Triple.act fun log h => ⟨?_, ?_⟩
  · rintro result ⟨rfl⟩ hretry hlt
    refine ⟨hlt, h.pos, h.calls, by simpa using h.sleeps, fun i hi hle => ?_⟩
    rcases Nat.le_succ_iff.mp hle with hle | rfl
    · exact h.not_final i hi hle
    · rw [UInt8.lt_iff_toNat_lt] at hlt
      rintro (hmax | hreject)
      · have := h.calls
        omega
      · rw [hretry] at hreject
        cases hreject
  · intro hlast
    have hfinal : Final outcomes policy (log.calls + 1) := by
      by_contra hnot
      unfold Final at hnot
      rw [not_or, Bool.not_eq_false] at hnot
      refine hlast _ rfl ⟨hnot.2, ?_⟩
      rw [UInt8.le_iff_toNat_le] at ha
      rw [UInt8.lt_iff_toNat_lt]
      have := h.calls
      omega
    refine ⟨⟨⟨Nat.succ_pos _, hfinal⟩, fun i hi => ?_⟩, rfl, by simpa using h.sleeps⟩
    by_contra hlt
    exact h.not_final i hi.1 (by simp only at hlt; omega) hi.2

theorem recordSleep_triple (outcomes : ℕ → Result HttpResponse) {policy : RetryPolicy}
    (a : UInt8) :
    Triple (BehindAttempt outcomes policy a) (recordSleep a) fun r log =>
      (r = some () → BeforeAttempt outcomes policy (a + 1) log) ∧
        (r = none → Attempted outcomes policy none log) := by
  refine Triple.act fun log h => ⟨fun _ => ?_, nofun⟩
  have hsucc := toNat_succ h.lt
  have hcalls := h.calls
  have hpos := h.pos
  refine ⟨by omega, by simp only; omega, ?_, h.not_final⟩
  obtain ⟨n, hn⟩ : ∃ n, log.calls = n + 1 := ⟨log.calls - 1, by omega⟩
  have hsleeps := h.sleeps
  simp only [hn, Nat.add_sub_cancel] at hsleeps
  simp only [List.map_append, hsleeps, List.map_singleton, hn]
  rw [List.range'_concat, show a.toNat = 1 + 1 * n by omega]

/-- For every policy and every sequence of outcomes: without attempts allowed the operation is
    not called; otherwise the calls end with the first final one, its outcome is returned, and
    the loop slept behind each call before it, for the delay of that attempt. -/
theorem withRetry_attempts (outcomes : ℕ → Result HttpResponse) (policy : RetryPolicy) :
    (policy.maxAttempts = 0 →
      withRetry (nextOutcome outcomes) recordSleep policy {} =
        (some (.error (Error.network (bytes "Max retry attempts exceeded"))), {})) ∧
    (policy.maxAttempts ≠ 0 →
      ∃ k, IsLeast {i | 0 < i ∧
          (i = policy.maxAttempts.toNat ∨ shouldRetry (outcomes i) policy = false)} k ∧
        ∃ log, withRetry (nextOutcome outcomes) recordSleep policy {} =
            (some (outcomes k), log) ∧
          log.calls = k ∧ log.sleeps.map UInt8.toNat = List.range' 1 (k - 1)) := by
  constructor
  · intro hmax
    rw [withRetry, withRetryFrom, if_neg (by rw [hmax]; decide)]
    rfl
  · intro hmax
    have hpos : 0 < policy.maxAttempts.toNat := by
      rw [Nat.pos_iff_ne_zero]
      exact fun h => hmax (UInt8.toNat_inj.mp h)
    have hend : ∀ a log, policy.maxAttempts < a →
        BeforeAttempt outcomes policy a log →
        Attempted outcomes policy
          (some (.error (Error.network (bytes "Max retry attempts exceeded")))) log := by
      intro a log hlt h
      rw [UInt8.lt_iff_toNat_lt] at hlt
      -- the last allowed attempt would have been final
      exact absurd (.inl rfl) (h.not_final policy.maxAttempts.toNat hpos
        (by have := h.calls; omega))
    have hstart : BeforeAttempt outcomes policy 1 {} :=
      ⟨by decide, rfl, rfl, fun i hi hle => by simp only at hle; omega⟩
    obtain ⟨hleast, hresult, hsleeps⟩ := withRetryFrom_triple
      (fun a ha => nextOutcome_triple outcomes ha) (recordSleep_triple outcomes) hend 1 {} hstart
    exact ⟨_, hleast, _, Prod.ext hresult rfl, rfl, hsleeps⟩

end NceiCpp.Core
