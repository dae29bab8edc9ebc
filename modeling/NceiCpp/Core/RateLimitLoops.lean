import NceiCpp.Core.RateLimitRuns
import NceiCpp.Core.RateLimitTight

/-!
# The waiting loops

The loops of `acquire` and `acquire_for` poll. A failing poll leaves nothing behind but a check
of the day, so a loop does what one attempt does, at the first of its turns at which it
succeeds; and a token earned meanwhile is there at the latest a `refill_interval` after the
loop was entered.

* `acquireLoop_eq`: the result of the loop and the limiter it leaves.
* `acquire_returns`: when the loops return a token, and that `acquire` does so within a number
  of turns.
-/

namespace NceiCpp.Core.RateLimiter

open SilentInputs Simulation

/-- The attempt of a turn. -/
def attempt (s : RateLimiter) (turn : Turn) : Bool × RateLimiter := s.tryAcquire turn.sys turn.now

/-- The turns of a loop whose attempts fail: with a deadline, up to the first that is not
    ahead of it. -/
def turnsMade (deadline : Option ℤ) : List Turn → List Turn
  | [] => []
  | turn :: turns =>
    turn :: if deadline.any (turn.current ≥ ·) then [] else turnsMade deadline turns

/-- A loop whose attempts fail returns false behind a turn that is not ahead of the deadline,
    and waits otherwise. -/
def givesUp (deadline : Option ℤ) (turns : List Turn) : Option Bool :=
  if turns.any fun turn => deadline.any (turn.current ≥ ·) then some false else none

/-- The limiter behind turns whose attempts fail. -/
def polled (s : RateLimiter) (turns : List Turn) : RateLimiter :=
  (turns.map Turn.sys).getLast?.elim s s.checkDailyReset

/-- What the loop does, with the attempts of the limiter `s`. -/
def outcome (deadline : Option ℤ) (s : RateLimiter) (turns : List Turn) :
    Option Bool × RateLimiter :=
  match (turnsMade deadline turns).find? fun turn => (s.attempt turn).1 with
  | some turn => (some true, (s.attempt turn).2)
  | none => (givesUp deadline turns, s.polled (turnsMade deadline turns))

/-- The loop from a limiter that differs from `s` by checks of the day only. -/
theorem acquireLoop_of_alike {s u : RateLimiter} (h : u.WellFormed) (deadline : Option ℤ)
    {turns : List Turn} (hsys : (turns.map Turn.sys).Pairwise (· ≤ ·))
    (halike : ∀ turn ∈ turns, u.checkDailyReset turn.sys = s.checkDailyReset turn.sys) :
    acquireLoop deadline u turns =
      match (turnsMade deadline turns).find? fun turn => (s.attempt turn).1 with
      | some turn => (some true, (s.attempt turn).2)
      | none => (givesUp deadline turns,
          ((turnsMade deadline turns).map Turn.sys).getLast?.elim u s.checkDailyReset) := by
  induction turns generalizing u with
  | nil => rfl
  | cons turn turns ih =>
    obtain ⟨hle, hrest⟩ := List.pairwise_cons.mp hsys
    have hday := halike turn List.mem_cons_self
    have hsame : u.tryAcquire turn.sys turn.now = s.attempt turn := tryAcquire_congr hday turn.now
    rw [acquireLoop, hsame, turnsMade, List.find?_cons, List.map_cons, List.getLast?_cons, givesUp,
      List.any_cons]
    cases hgranted : (s.attempt turn).1 with
    | true => rfl
    | false =>
      -- the attempt has only checked the day
      have hfail : s.attempt turn = (false, u.checkDailyReset turn.sys) := by
        rw [← hsame] at hgranted ⊢
        exact tryAcquire_of_false h hgranted
      rw [hfail]
      dsimp only
      by_cases hdeadline : deadline.any (turn.current ≥ ·)
      · rw [if_pos hdeadline, if_pos hdeadline, if_neg Bool.false_ne_true]
        simp [hdeadline, hday]
      · have hnext := ih (h.checkDailyReset turn.sys) hrest fun turn' hturn' => by
          have hturn : turn.sys ≤ turn'.sys := hle _ (List.mem_map_of_mem hturn')
          rw [hday, checkDailyReset_checkDailyReset s hturn]
        rw [if_neg hdeadline, if_neg hdeadline, if_neg Bool.false_ne_true, hnext, hday]
        simp only [Bool.not_eq_true] at hdeadline
        rw [hdeadline, Bool.false_or, givesUp]
        cases ((turnsMade deadline turns).map Turn.sys).getLast? <;> rfl

/-- The loop does what its first successful attempt would do without the turns before it;
    where there is none, the day was checked. -/
theorem acquireLoop_eq {s : RateLimiter} (h : s.WellFormed) (deadline : Option ℤ)
    {turns : List Turn} (hsys : (turns.map Turn.sys).Pairwise (· ≤ ·)) :
    acquireLoop deadline s turns = outcome deadline s turns :=
  acquireLoop_of_alike h deadline hsys fun _ _ => rfl

/-! ## When a token is there -/

/-- An attempt finds a token a `refill_interval` after the last refill. -/
theorem attempt_succeeds {s : RateLimiter} (h : s.WellFormed) {turn : Turn}
    (hnow : s.lastRefill + s.interval ≤ turn.now)
    (hquota : 0 < s.dailyRequestsRemaining turn.sys) : (s.attempt turn).1 = true := by
  by_contra hfalse
  rw [Bool.not_eq_true] at hfalse
  have hI := h.interval_pos
  have hnot : ¬ (s.checkDailyReset turn.sys).QuotaReached := by
    rw [quotaReached_iff, quotaLeft, checkDailyReset_config, ← dailyRequestsRemaining_eq]
    exact hquota.ne'
  have hlow := (RateLimitCallers.tryAcquire_credit h
    (show s.lastRefill ≤ turn.now by omega) turn.sys).2 hfalse hnot
  have htokens : 0 ≤ (s.tokens.toNat : ℤ) * s.interval := by positivity
  rw [credit] at hlow
  omega

theorem outcome_of_mem {s : RateLimiter} {deadline : Option ℤ} {turns : List Turn} {turn : Turn}
    (hmem : turn ∈ turnsMade deadline turns) (hgranted : (s.attempt turn).1 = true) :
    (outcome deadline s turns).1 = some true := by
  unfold outcome
  cases hfind : (turnsMade deadline turns).find? fun turn => (s.attempt turn).1 with
  | some _ => rfl
  | none =>
    have := List.find?_eq_none.mp hfind turn hmem
    exact absurd hgranted this

theorem turnsMade_none (turns : List Turn) : turnsMade none turns = turns := by
  induction turns with
  | nil => rfl
  | cons turn turns ih =>
    rw [turnsMade, ih]
    rfl

/-- The turns of a loop that sleeps for 10 ms at least behind each. -/
def Spaced (turns : List Turn) : Prop :=
  turns.IsChain fun a b => a.now + 10 * nsPerMs ≤ b.now

/-- The last turn comes 10 ms after the first for each turn between. -/
theorem Spaced.last {turn : Turn} {turns : List Turn} (h : Spaced (turn :: turns)) :
    ∃ last ∈ turn :: turns, turn.now + 10 * nsPerMs * turns.length ≤ last.now := by
  induction turns generalizing turn with
  | nil => exact ⟨turn, by simp, by simp⟩
  | cons next turns ih =>
    obtain ⟨hle, hrest⟩ := List.isChain_cons_cons.mp h
    obtain ⟨last, hmem, hlast⟩ := ih hrest
    refine ⟨last, List.mem_cons_of_mem _ hmem, ?_⟩
    rw [List.length_cons]
    push_cast
    linarith

/-- The calls of `acquire` and `acquire_for` behind any run of calls, with clocks that do not go
    back. They do what one attempt would do at the first of their turns at which it succeeds,
    and leave the limiter as that attempt does; a turn that finds quota a `refill_interval`
    after the call started is not behind that one. So where the quota lasts and no one else
    takes tokens, `acquire` without a `max_wait` returns within one turn more than there are
    sleeps of 10 ms in the `refill_interval`. -/
theorem acquire_returns (config : Config) (clock : Clock) (calls : List Call)
    (hforward : ForwardRun clock calls) (entry : ℤ) (turns : List Turn)
    (hturns : Forward (calls.foldl Clock.after clock) (.acquire entry turns)) :
    let s := (runTotal step (new config clock.now clock.sys) calls).2
    (s.acquire entry turns = outcome (s.config.maxWait.map (deadline entry)) s turns ∧
      ∀ maxWait, s.acquireFor maxWait entry turns =
        outcome (some (deadline entry maxWait)) s turns) ∧
    (∀ d, ∀ turn ∈ turnsMade d turns, entry + s.interval ≤ turn.now →
      0 < s.dailyRequestsRemaining turn.sys → (outcome d s turns).1 = some true) ∧
    (s.config.maxWait = none → Spaced turns →
      (∀ turn ∈ turns, 0 < s.dailyRequestsRemaining turn.sys) →
      s.interval ≤ 10 * nsPerMs * (turns.length - 1) → (s.acquire entry turns).1 = some true) := by
  intro s
  have hs : Fits (calls.foldl Clock.after clock) s := run_fits config hforward
  obtain ⟨hsys, hnow⟩ := hturns
  have hsys := (List.pairwise_cons.mp hsys).2
  obtain ⟨hentry, hnow⟩ := List.pairwise_cons.mp hnow
  have hlast : s.lastRefill ≤ entry := hs.lastRefill_le.trans (hentry _ List.mem_cons_self)
  have hloop : ∀ d, acquireLoop d s turns = outcome d s turns :=
    fun d => acquireLoop_eq hs.wellFormed d hsys
  have hacquire : s.acquire entry turns =
      outcome (s.config.maxWait.map (deadline entry)) s turns := by
    unfold acquire acquireFor
    cases s.config.maxWait <;> exact hloop _
  have hreturns : ∀ d, ∀ turn ∈ turnsMade d turns, entry + s.interval ≤ turn.now →
      0 < s.dailyRequestsRemaining turn.sys → (outcome d s turns).1 = some true :=
    fun d turn hmem hlate hquota =>
      outcome_of_mem hmem (attempt_succeeds hs.wellFormed (by omega) hquota)
  refine ⟨⟨hacquire, fun maxWait => hloop _⟩, hreturns, fun hwait hspaced hquota hlong => ?_⟩
  rw [hacquire, hwait]
  have hI := hs.wellFormed.interval_pos
  cases turns with
  | nil =>
    simp only [List.length_nil, nsPerMs] at hlong
    omega
  | cons turn turns =>
    obtain ⟨last, hmem, hle⟩ := hspaced.last
    have hfirst : entry ≤ turn.now := (List.pairwise_cons.mp hnow).1 _ (by simp)
    rw [List.length_cons] at hlong
    push_cast at hlong
    refine hreturns none last (by rwa [turnsMade_none]) ?_ (hquota last hmem)
    have : (turns.length : ℤ) + 1 - 1 = turns.length := by ring
    rw [this] at hlong
    omega

/-- The bucket is emptied; a call that polls every 100 ms gets the next token. -/
theorem acquire_returns_poll :
    let s := (runTotal step (new { maxTokens := 1 } 0 0) [.tryAcquire 0 0]).2
    (s.acquire 0 [⟨0, 0, 0⟩, ⟨0, 100000000, 100000000⟩, ⟨0, 200000000, 200000000⟩]).1 =
      some true := by
  intro s
  obtain ⟨⟨hacquire, -⟩, hreturns, -⟩ := acquire_returns { maxTokens := 1 } ⟨0, 0⟩ [.tryAcquire 0 0]
    ⟨by decide, trivial⟩ 0 [⟨0, 0, 0⟩, ⟨0, 100000000, 100000000⟩, ⟨0, 200000000, 200000000⟩]
    (by decide)
  rw [hacquire]
  exact hreturns none ⟨0, 200000000, 200000000⟩ (by decide) (by decide) (by decide)

end NceiCpp.Core.RateLimiter
