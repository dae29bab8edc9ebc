import NceiCpp.Core.RateLimit
import NceiCpp.Lib.SilentInputs

/-!
# Runs of calls on one rate limiter

A run is a list of calls of the member functions, each with the clock readings it makes.
`acquire` and `acquire_for` touch the limiter through `try_acquire` only, once in each turn
of their loop; when other calls run between their turns, each turn is a call of the run.

* `unobservable`: no call tells two limiters apart that differ by a missed check of the day,
  and a failing poll or an observer leads to such a limiter.
* `run_traceless`: so they can be inserted and deleted.
* `attempts_settled`: what is left of the tokens and of the quota once the day is checked and
  the bucket refilled decides about the attempts made at that instant.
-/

namespace NceiCpp.Core.RateLimiter

open SilentInputs Simulation

/-- The clock readings of one turn of the loop of `acquire` or `acquire_for`: the two of
    `try_acquire`, and `current`, which `acquire_for` reads behind a failed attempt. -/
structure Turn where
  sys : ℤ
  now : ℤ
  current : ℤ
  deriving DecidableEq

/-- The loops of `acquire` (lines 80–85) and, with a deadline, of `acquire_for` (lines 96–107)
    over the turns so far; `none` while they wait. -/
def acquireLoop (deadline : Option ℤ) (s : RateLimiter) : List Turn → Option Bool × RateLimiter
  | [] => (none, s)
  | turn :: turns =>
    let attempt := s.tryAcquire turn.sys turn.now
    if attempt.1 then (some true, attempt.2)
    else if deadline.any (turn.current ≥ ·) then (some false, attempt.2)
    else acquireLoop deadline attempt.2 turns

/-- `acquire_for` (lines 88–108); `entry` is its first reading of the steady clock. -/
def acquireFor (s : RateLimiter) (maxWait entry : ℤ) (turns : List Turn) :
    Option Bool × RateLimiter :=
  acquireLoop (some (deadline entry maxWait)) s turns

/-- `acquire` (lines 74–86). -/
def acquire (s : RateLimiter) (entry : ℤ) (turns : List Turn) : Option Bool × RateLimiter :=
  match s.config.maxWait with
  | some maxWait => s.acquireFor maxWait entry turns
  | none => acquireLoop none s turns

/-- A call of a member function. -/
inductive Call
  | tryAcquire (sys now : ℤ)
  | acquire (entry : ℤ) (turns : List Turn)
  | acquireFor (maxWait entry : ℤ) (turns : List Turn)
  | availableTokens (now : ℤ)
  | dailyRequestsRemaining (sys : ℤ)
  | reset (now sys : ℤ)
  deriving DecidableEq

/-- The result of a call. -/
inductive Answer
  | acquired (result : Option Bool)
  | tokens (n : UInt16)
  | requests (n : ℤ)
  | done
  deriving DecidableEq

def step (s : RateLimiter) : Call → Answer × RateLimiter
  | .tryAcquire sys now => (.acquired (s.tryAcquire sys now).1, (s.tryAcquire sys now).2)
  | .acquire entry turns => (.acquired (s.acquire entry turns).1, (s.acquire entry turns).2)
  | .acquireFor maxWait entry turns =>
    (.acquired (s.acquireFor maxWait entry turns).1, (s.acquireFor maxWait entry turns).2)
  | .availableTokens now => (.tokens (s.availableTokens now), s)
  | .dailyRequestsRemaining sys => (.requests (s.dailyRequestsRemaining sys), s)
  | .reset now sys => (.done, s.reset now sys)

/-! ## Clocks -/

/-- The last readings of the two clocks. -/
structure Clock where
  sys : ℤ
  now : ℤ
  deriving DecidableEq

/-- The readings of a call, of the system clock and of the steady clock. -/
def Call.readings : Call → List ℤ × List ℤ
  | .tryAcquire sys now => ([sys], [now])
  | .acquire entry turns =>
    (turns.map Turn.sys, entry :: turns.flatMap fun turn => [turn.now, turn.current])
  | .acquireFor _ entry turns =>
    (turns.map Turn.sys, entry :: turns.flatMap fun turn => [turn.now, turn.current])
  | .availableTokens now => ([], [now])
  | .dailyRequestsRemaining sys => ([sys], [])
  | .reset now sys => ([sys], [now])

/-- The readings of a call do not go back, nor behind the ones before it. -/
def Forward (clock : Clock) (call : Call) : Prop :=
  (clock.sys :: call.readings.1).Pairwise (· ≤ ·) ∧
    (clock.now :: call.readings.2).Pairwise (· ≤ ·)

instance (clock : Clock) (call : Call) : Decidable (Forward clock call) := by
  unfold Forward
  infer_instance

/-- The last readings when the call returns. -/
def Clock.after (clock : Clock) (call : Call) : Clock :=
  ⟨call.readings.1.getLastD clock.sys, call.readings.2.getLastD clock.now⟩

/-- A run with clocks that do not go back. -/
abbrev ForwardRun (clock : Clock) (calls : List Call) : Prop :=
  AllowedRun Forward Clock.after clock calls

/-- A poll that fails, or an observer. -/
def Traceless (s : RateLimiter) : Call → Prop
  | .tryAcquire sys now => (s.tryAcquire sys now).1 = false
  | .availableTokens _ => True
  | .dailyRequestsRemaining _ => True
  | _ => False

instance (s : RateLimiter) : (call : Call) → Decidable (Traceless s call)
  | .tryAcquire sys now => inferInstanceAs (Decidable ((s.tryAcquire sys now).1 = false))
  | .availableTokens _ => inferInstanceAs (Decidable True)
  | .dailyRequestsRemaining _ => inferInstanceAs (Decidable True)
  | .acquire _ _ => inferInstanceAs (Decidable False)
  | .acquireFor _ _ _ => inferInstanceAs (Decidable False)
  | .reset _ _ => inferInstanceAs (Decidable False)

/-! ## What holds behind every run -/

/-- The limiter is well formed and was not refilled after the clock. -/
structure Fits (clock : Clock) (s : RateLimiter) : Prop where
  wellFormed : s.WellFormed
  lastRefill_le : s.lastRefill ≤ clock.now

theorem new_fits (config : Config) (clock : Clock) :
    Fits clock (new config clock.now clock.sys) :=
  ⟨new_wellFormed config clock.now clock.sys, le_rfl⟩

theorem le_getLastD {a : ℤ} {l : List ℤ} (h : (a :: l).Pairwise (· ≤ ·)) :
    a ≤ l.getLastD a ∧ ∀ x ∈ l, x ≤ l.getLastD a := by
  induction l generalizing a with
  | nil => exact ⟨le_rfl, by simp⟩
  | cons b l ih =>
    obtain ⟨hab, hl⟩ := List.pairwise_cons.mp h
    obtain ⟨h1, h2⟩ := ih hl
    have hle : a ≤ b := hab b List.mem_cons_self
    rw [List.getLastD_cons]
    exact ⟨hle.trans h1, List.forall_mem_cons.mpr ⟨h1, h2⟩⟩

/-- The readings of the steady clock in the turns of a loop. -/
def steady (turns : List Turn) : List ℤ := turns.flatMap fun turn => [turn.now, turn.current]

theorem acquireLoop_fits (deadline : Option ℤ) {s : RateLimiter} {clock : Clock}
    {turns : List Turn} (hs : Fits clock s)
    (hturns : (clock.now :: steady turns).Pairwise (· ≤ ·)) (sys : ℤ) :
    Fits ⟨sys, (steady turns).getLastD clock.now⟩ (acquireLoop deadline s turns).2 := by
  induction turns generalizing s clock with
  | nil => exact ⟨hs.wellFormed, hs.lastRefill_le⟩
  | cons turn turns ih =>
    have hcons : steady (turn :: turns) = turn.now :: turn.current :: steady turns := rfl
    rw [hcons] at hturns ⊢
    obtain ⟨hnow, hrest⟩ := List.pairwise_cons.mp hturns
    obtain ⟨hcurrent, hrest'⟩ := List.pairwise_cons.mp hrest
    have h1 : clock.now ≤ turn.now := hnow _ List.mem_cons_self
    have h2 : turn.now ≤ turn.current := hcurrent _ List.mem_cons_self
    have h3 := (le_getLastD hrest').1
    rw [List.getLastD_cons, List.getLastD_cons]
    have htry := tryAcquire_attempted hs.wellFormed (hs.lastRefill_le.trans h1) turn.sys
    have hend : Fits ⟨sys, (steady turns).getLastD turn.current⟩
        (s.tryAcquire turn.sys turn.now).2 :=
      ⟨htry.wellFormed, (htry.lastRefill_le.trans h2).trans h3⟩
    have hnext : Fits ⟨sys, turn.current⟩ (s.tryAcquire turn.sys turn.now).2 :=
      ⟨htry.wellFormed, htry.lastRefill_le.trans h2⟩
    have hloop := ih hnext hrest'
    rw [acquireLoop]
    split_ifs
    · exact hend
    · exact hend
    · exact hloop

theorem step_fits {clock : Clock} {call : Call} {s : RateLimiter} (hcall : Forward clock call)
    (hs : Fits clock s) : Fits (clock.after call) (step s call).2 := by
  have hread : ∀ {now : ℤ}, (clock.now :: [now]).Pairwise (· ≤ ·) → clock.now ≤ now := by
    intro now h
    exact (le_getLastD h).1
  have hloop : ∀ (deadline : Option ℤ) (entry : ℤ) (turns : List Turn),
      (clock.now :: entry :: steady turns).Pairwise (· ≤ ·) →
      Fits ⟨(turns.map Turn.sys).getLastD clock.sys, (entry :: steady turns).getLastD clock.now⟩
        (acquireLoop deadline s turns).2 := by
    intro deadline entry turns h
    obtain ⟨hentry, hrest⟩ := List.pairwise_cons.mp h
    rw [List.getLastD_cons]
    have hentered : Fits ⟨clock.sys, entry⟩ s :=
      ⟨hs.wellFormed, hs.lastRefill_le.trans (hentry _ List.mem_cons_self)⟩
    exact acquireLoop_fits deadline hentered hrest _
  obtain ⟨-, hnow⟩ := hcall
  cases call with
  | tryAcquire sys now =>
    have htry := tryAcquire_attempted hs.wellFormed (hs.lastRefill_le.trans (hread hnow)) sys
    exact ⟨htry.wellFormed, htry.lastRefill_le⟩
  | acquire entry turns =>
    show Fits _ (s.acquire entry turns).2
    unfold acquire acquireFor
    cases s.config.maxWait with
    | none => exact hloop _ entry turns hnow
    | some maxWait => exact hloop _ entry turns hnow
  | acquireFor maxWait entry turns => exact hloop _ entry turns hnow
  | availableTokens now => exact ⟨hs.wellFormed, hs.lastRefill_le.trans (hread hnow)⟩
  | dailyRequestsRemaining sys => exact ⟨hs.wellFormed, hs.lastRefill_le⟩
  | reset now sys => exact ⟨reset_wellFormed hs.wellFormed now sys, le_rfl⟩

theorem run_fits (config : Config) {clock : Clock} {calls : List Call}
    (hforward : ForwardRun clock calls) :
    Fits (calls.foldl Clock.after clock)
      (runTotal step (new config clock.now clock.sys) calls).2 := by
  have hstep : ∀ {clock : Clock} {call : Call} {s : RateLimiter}, Forward clock call →
      Fits clock s → Fits (clock.after call) (step s call).2 := step_fits
  exact runTotal_invariant hstep (new_fits config clock) hforward

/-! ## Limiters that no call tells apart -/

/-- The limiters differ by a missed check of the day at most. -/
structure Alike (clock : Clock) (s t : RateLimiter) : Prop where
  left : Fits clock s
  right : Fits clock t
  eq : s.checkDailyReset clock.sys = t.checkDailyReset clock.sys

theorem Alike.checkDailyReset {clock : Clock} {s t : RateLimiter} (h : Alike clock s t) {sys : ℤ}
    (hsys : clock.sys ≤ sys) : s.checkDailyReset sys = t.checkDailyReset sys := by
  rw [← checkDailyReset_checkDailyReset s hsys, h.eq, checkDailyReset_checkDailyReset t hsys]

/-- An attempt starts with the check of the day. -/
theorem tryAcquire_congr {s t : RateLimiter} {sys : ℤ}
    (h : s.checkDailyReset sys = t.checkDailyReset sys) (now : ℤ) :
    s.tryAcquire sys now = t.tryAcquire sys now := by
  rw [tryAcquire_eq, tryAcquire_eq, h]

theorem availableTokens_checkDailyReset (s : RateLimiter) (sys now : ℤ) :
    (s.checkDailyReset sys).availableTokens now = s.availableTokens now := by
  simp only [availableTokens, earned, checkDailyReset_config, checkDailyReset_tokens,
    checkDailyReset_lastRefill]

/-- The observer of the quota agrees with the check of the day. -/
theorem dailyRequestsRemaining_eq (s : RateLimiter) (sys : ℤ) :
    s.dailyRequestsRemaining sys =
      if s.config.dailyLimit ≤ 0 then int32Max
      else max (s.config.dailyLimit.toInt - (s.checkDailyReset sys).dailyRequestsUsed) 0 := by
  unfold dailyRequestsRemaining
  rcases lt_or_ge s.dayStart (floorDays sys) with hday | hday
  · rw [if_pos (show floorDays sys > s.dayStart from hday), checkDailyReset_of_lt hday]
    split_ifs with hlimit
    · rfl
    · rw [Int32.le_iff_toInt_le, not_le] at hlimit
      have hzero : (0 : Int32).toInt = 0 := rfl
      simp only
      omega
  · rw [if_neg (not_lt.mpr hday), checkDailyReset_of_le hday]

theorem acquireLoop_congr (deadline : Option ℤ) {s t : RateLimiter} {clock : Clock}
    (h : Alike clock s t) {turns : List Turn}
    (hturns : (clock.sys :: turns.map Turn.sys).Pairwise (· ≤ ·)) :
    (acquireLoop deadline s turns).1 = (acquireLoop deadline t turns).1 ∧
      (acquireLoop deadline s turns).2.checkDailyReset ((turns.map Turn.sys).getLastD clock.sys) =
        (acquireLoop deadline t turns).2.checkDailyReset
          ((turns.map Turn.sys).getLastD clock.sys) := by
  cases turns with
  | nil => exact ⟨rfl, h.eq⟩
  | cons turn turns =>
    -- the first attempt is made in the same state
    have hsys : clock.sys ≤ turn.sys := (List.pairwise_cons.mp hturns).1 _ List.mem_cons_self
    have heq : acquireLoop deadline s (turn :: turns) = acquireLoop deadline t (turn :: turns) := by
      rw [acquireLoop, acquireLoop, tryAcquire_congr (h.checkDailyReset hsys)]
    rw [heq]
    exact ⟨rfl, rfl⟩

/-- No call tells limiters that are alike apart. -/
theorem Alike.step {clock : Clock} {call : Call} {s t : RateLimiter}
    (hcall : Forward clock call) (h : Alike clock s t) :
    (step s call).1 = (step t call).1 ∧
      Alike (clock.after call) (step s call).2 (step t call).2 := by
  have hconfig : s.config = t.config := by
    have := congrArg RateLimiter.config h.eq
    rwa [checkDailyReset_config, checkDailyReset_config] at this
  have hread : ∀ {sys : ℤ}, (clock.sys :: [sys]).Pairwise (· ≤ ·) → clock.sys ≤ sys := by
    intro sys h
    exact (le_getLastD h).1
  have hleft := step_fits hcall h.left
  have hright := step_fits hcall h.right
  have hsys := hcall.1
  cases call with
  | tryAcquire sys now =>
    have heq := tryAcquire_congr (h.checkDailyReset (hread hsys)) now
    simp only [RateLimiter.step, heq] at hleft hright ⊢
    exact ⟨trivial, hleft, hright, rfl⟩
  | acquire entry turns =>
    have heq : (s.acquire entry turns).1 = (t.acquire entry turns).1 ∧
        (s.acquire entry turns).2.checkDailyReset ((turns.map Turn.sys).getLastD clock.sys) =
          (t.acquire entry turns).2.checkDailyReset
            ((turns.map Turn.sys).getLastD clock.sys) := by
      unfold acquire acquireFor
      rw [hconfig]
      cases t.config.maxWait with
      | none => exact acquireLoop_congr none h hsys
      | some maxWait => exact acquireLoop_congr (some (deadline entry maxWait)) h hsys
    exact ⟨congrArg Answer.acquired heq.1, hleft, hright, heq.2⟩
  | acquireFor maxWait entry turns =>
    have heq := acquireLoop_congr (some (deadline entry maxWait)) h hsys
    exact ⟨congrArg Answer.acquired heq.1, hleft, hright, heq.2⟩
  | availableTokens now =>
    have heq : s.availableTokens now = t.availableTokens now := by
      rw [← availableTokens_checkDailyReset s clock.sys, h.eq, availableTokens_checkDailyReset]
    exact ⟨congrArg Answer.tokens heq, hleft, hright, h.eq⟩
  | dailyRequestsRemaining sys =>
    have hcheck := h.checkDailyReset (hread hsys)
    have heq : s.dailyRequestsRemaining sys = t.dailyRequestsRemaining sys := by
      rw [dailyRequestsRemaining_eq, dailyRequestsRemaining_eq, hcheck, hconfig]
    exact ⟨congrArg Answer.requests heq, hleft, hright, hcheck⟩
  | reset now sys =>
    have heq : s.reset now sys = t.reset now sys := by
      unfold reset
      rw [hconfig]
    simp only [RateLimiter.step, heq] at hleft hright ⊢
    exact ⟨trivial, hleft, hright, rfl⟩

/-- A failing poll or an observer leads to a limiter like the one before. -/
theorem Alike.traceless {clock : Clock} {call : Call} {s t : RateLimiter}
    (hcall : Forward clock call) (h : Alike clock s t) (hsilent : Traceless s call) :
    Alike (clock.after call) (RateLimiter.step s call).2 t := by
  have hleft := step_fits hcall h.left
  have hsys : clock.sys ≤ (clock.after call).sys := (le_getLastD hcall.1).1
  have hnow : clock.now ≤ (clock.after call).now := (le_getLastD hcall.2).1
  have hright : Fits (clock.after call) t :=
    ⟨h.right.wellFormed, h.right.lastRefill_le.trans hnow⟩
  refine ⟨hleft, hright, ?_⟩
  rw [← h.checkDailyReset hsys]
  cases call with
  | tryAcquire sys now =>
    show (s.tryAcquire sys now).2.checkDailyReset sys = _
    rw [tryAcquire_of_false h.left.wellFormed hsilent]
    exact checkDailyReset_checkDailyReset s le_rfl
  | availableTokens now => rfl
  | dailyRequestsRemaining sys => rfl
  | acquire entry turns => exact hsilent.elim
  | acquireFor maxWait entry turns => exact hsilent.elim
  | reset now sys => exact hsilent.elim

theorem unobservable : Unobservable step Traceless Forward Clock.after Alike where
  output hcall h := (h.step hcall).1
  state hcall h := (h.step hcall).2
  silent hcall h hsilent := h.traceless hcall hsilent

/-- As long as a loop waits, an attempt does what it would have done in place of the loop. -/
theorem tryAcquire_of_waiting (deadline : Option ℤ) {s s' : RateLimiter} {turns : List Turn}
    {sys : ℤ} (hs : s.WellFormed) (hwait : acquireLoop deadline s turns = (none, s'))
    (hturns : ∀ turn ∈ turns, turn.sys ≤ sys) (now : ℤ) :
    s'.tryAcquire sys now = s.tryAcquire sys now := by
  induction turns generalizing s with
  | nil =>
    obtain ⟨-, rfl⟩ := Prod.mk.inj hwait
    rfl
  | cons turn turns ih =>
    obtain ⟨hsys, hrest⟩ := List.forall_mem_cons.mp hturns
    have hpoll : acquireLoop deadline (s.checkDailyReset turn.sys) turns = (none, s') := by
      rw [acquireLoop] at hwait
      split_ifs at hwait with htry hdeadline
      · simp at hwait
      · simp at hwait
      · rwa [tryAcquire_of_false hs (by simpa using htry)] at hwait
    rw [ih (hs.checkDailyReset _) hpoll hrest]
    exact tryAcquire_congr (checkDailyReset_checkDailyReset s hsys) now

/-- Failing polls and observers can be inserted and deleted: two runs that keep the same calls
    give them the same results. Behind every run, two refills are one at the later time, so
    are two checks of the day, and a loop that has waited makes its next attempt as if it had
    not polled. -/
theorem run_traceless (config : Config) (clock : Clock) (run run' : List (Bool × Call))
    (hforward : ForwardRun clock (run.map Prod.snd))
    (hforward' : ForwardRun clock (run'.map Prod.snd))
    (hsilent : LeavesOut step Traceless (new config clock.now clock.sys) run)
    (hsilent' : LeavesOut step Traceless (new config clock.now clock.sys) run')
    (hkept : kept run = kept run') :
    keptOutputs step (new config clock.now clock.sys) run =
        keptOutputs step (new config clock.now clock.sys) run' ∧
      let s := (runTotal step (new config clock.now clock.sys) (run.map Prod.snd)).2
      let last := (run.map Prod.snd).foldl Clock.after clock
      (∀ t1 t2, last.now ≤ t1 → t1 ≤ t2 → (s.refill t1).refill t2 = s.refill t2) ∧
        (∀ sys1 sys2, last.sys ≤ sys1 → sys1 ≤ sys2 →
          (s.checkDailyReset sys1).checkDailyReset sys2 = s.checkDailyReset sys2) ∧
        ∀ deadline turns s' sys now,
          (last.sys :: (turns ++ [⟨sys, now, now⟩]).map Turn.sys).Pairwise (· ≤ ·) →
          (last.now :: steady (turns ++ [⟨sys, now, now⟩])).Pairwise (· ≤ ·) →
          acquireLoop deadline s turns = (none, s') →
          s'.tryAcquire sys now = s.tryAcquire sys now := by
  have hnew := new_fits config clock
  have hs := run_fits config hforward
  refine ⟨keptOutputs_congr unobservable ⟨hnew, hnew, rfl⟩ hforward hforward' hsilent hsilent'
    hkept, ?_, ?_, ?_⟩
  · intro t1 t2 h1 h2
    exact refill_refill hs.wellFormed (hs.lastRefill_le.trans h1) h2
  · intro sys1 sys2 _ h
    exact checkDailyReset_checkDailyReset _ h
  · intro deadline turns s' sys now hsys _ hwait
    refine tryAcquire_of_waiting deadline hs.wellFormed hwait (fun turn hturn => ?_) now
    rw [List.map_append] at hsys
    exact (List.pairwise_append.mp (List.pairwise_cons.mp hsys).2).2.2 _
      (List.mem_map_of_mem hturn) _ (by simp)

/-- A poll 10 ms after the bucket was emptied and a look at it do not delay the next token. -/
theorem run_traceless_poll :
    keptOutputs step (new { maxTokens := 1, refillInterval := 200 } 0 0)
        [(true, .tryAcquire 0 0), (false, .tryAcquire 10000000 10000000),
          (false, .availableTokens 150000000), (true, .tryAcquire 200000000 200000000)] =
      keptOutputs step (new { maxTokens := 1, refillInterval := 200 } 0 0)
        [(true, .tryAcquire 0 0), (true, .tryAcquire 200000000 200000000)] :=
  (run_traceless { maxTokens := 1, refillInterval := 200 } ⟨0, 0⟩
    [(true, .tryAcquire 0 0), (false, .tryAcquire 10000000 10000000),
      (false, .availableTokens 150000000), (true, .tryAcquire 200000000 200000000)]
    [(true, .tryAcquire 0 0), (true, .tryAcquire 200000000 200000000)]
    ⟨by decide, by decide, by decide, by decide, trivial⟩ ⟨by decide, by decide, trivial⟩
    ⟨by decide, by decide, by decide, by decide, trivial⟩ ⟨by decide, by decide, trivial⟩ rfl).1

/-! ## Attempts at one instant -/

/-- The day is checked and the bucket refilled at this instant. -/
structure Settled (s : RateLimiter) (sys now : ℤ) : Prop where
  wellFormed : s.WellFormed
  day : floorDays sys ≤ s.dayStart
  lastRefill_le : s.lastRefill ≤ now
  lt_interval : now - s.lastRefill < s.interval
  full : s.config.maxTokens ≤ s.tokens → s.lastRefill = now

theorem checkDailyReset_day (s : RateLimiter) (sys : ℤ) :
    floorDays sys ≤ (s.checkDailyReset sys).dayStart := by
  rcases lt_or_ge s.dayStart (floorDays sys) with h | h
  · rw [checkDailyReset_of_lt h]
  · rwa [checkDailyReset_of_le h]

theorem refill_settled {s : RateLimiter} {sys now : ℤ} (h : s.WellFormed)
    (hday : floorDays sys ≤ s.dayStart) (hnow : s.lastRefill ≤ now) :
    (s.refill now).Settled sys now := by
  have hI := h.interval_pos
  have hr := refill_refilled h hnow
  rcases refill_cases h hnow with ⟨heq, -⟩ | ⟨n, k, heq, hn, hlt, hk1, hk2⟩
  · refine ⟨hr.wellFormed, hr.dayStart.symm ▸ hday, hr.lastRefill_le, ?_, ?_⟩
    · rw [heq]
      show now - now < s.interval
      omega
    · rw [heq]
      exact fun _ => rfl
  · refine ⟨hr.wellFormed, hr.dayStart.symm ▸ hday, hr.lastRefill_le, ?_, ?_⟩
    · rw [heq]
      show now - (s.lastRefill + k * s.interval) < s.interval
      linarith
    · rw [heq]
      intro hfull
      rw [UInt16.le_iff_toNat_le] at hfull
      dsimp only at hfull
      omega

theorem Settled.refill {s : RateLimiter} {sys now : ℤ} (h : s.Settled sys now) :
    s.refill now = s := by
  have hearned : s.earned now = 0 := by
    rw [earned_eq h.lastRefill_le]
    exact Int.ediv_eq_zero_of_lt (by linarith [h.lastRefill_le]) h.lt_interval
  unfold RateLimiter.refill
  dsimp only
  rw [hearned]
  split_ifs with hfull hnone htotal
  · rw [← h.full hfull]
  · rfl
  · omega
  · omega

theorem Settled.tryAcquire {s : RateLimiter} {sys now : ℤ} (h : s.Settled sys now) :
    s.tryAcquire sys now =
      if ¬ s.QuotaReached ∧ 0 < s.tokens.toNat then (true, s.take) else (false, s) := by
  have htokens : s.tokens > 0 ↔ 0 < s.tokens.toNat := UInt16.lt_iff_toNat_lt
  rw [tryAcquire_eq, checkDailyReset_of_le h.day, h.refill]
  split_ifs <;> tauto

theorem Settled.take {s : RateLimiter} {sys now : ℤ} (h : s.Settled sys now)
    (htoken : 0 < s.tokens.toNat) : s.take.Settled sys now := by
  have htokens := toNat_tokens_take htoken
  have hle := h.wellFormed.tokens_le
  refine ⟨⟨h.wellFormed.sane, ?_⟩, h.day, h.lastRefill_le, h.lt_interval, fun hfull => ?_⟩
  · show s.take.tokens.toNat ≤ s.config.maxTokens.toNat
    omega
  · rw [UInt16.le_iff_toNat_le] at hfull
    have : s.config.maxTokens.toNat ≤ s.take.tokens.toNat := hfull
    omega

/-- What is left of the quota. -/
def quotaLeft (s : RateLimiter) : ℤ :=
  if s.config.dailyLimit ≤ 0 then int32Max
  else max (s.config.dailyLimit.toInt - s.dailyRequestsUsed) 0

/-- The attempts that succeed before the tokens or the quota run out. -/
def attemptsLeft (s : RateLimiter) : ℕ := min s.tokens.toNat s.quotaLeft.toNat

theorem quotaReached_iff (s : RateLimiter) : s.QuotaReached ↔ s.quotaLeft = 0 := by
  have hzero : (0 : Int32).toInt = 0 := rfl
  unfold QuotaReached quotaLeft
  rw [gt_iff_lt, Int32.lt_iff_toInt_lt, hzero]
  split_ifs with hlimit
  · rw [Int32.le_iff_toInt_le, hzero] at hlimit
    unfold int32Max
    omega
  · rw [Int32.le_iff_toInt_le, hzero] at hlimit
    omega

/-- A token that is taken is one attempt less. -/
theorem attemptsLeft_take {s : RateLimiter} (hquota : ¬ s.QuotaReached)
    (htoken : 0 < s.tokens.toNat) : s.attemptsLeft = s.take.attemptsLeft + 1 := by
  have htokens := toNat_tokens_take htoken
  have hlt := s.tokens.toNat_lt
  have hlimit := s.config.dailyLimit.toInt_lt
  have hconfig : s.take.config = s.config := rfl
  have hused : s.take.dailyRequestsUsed =
      if s.dailyRequestsUsed < int32Max then s.dailyRequestsUsed + 1 else s.dailyRequestsUsed :=
    rfl
  rw [quotaReached_iff] at hquota
  unfold attemptsLeft quotaLeft at *
  rw [hconfig, hused, htokens]
  unfold int32Max at *
  split_ifs at hquota ⊢ <;> omega

/-- The attempts at the instant a limiter is settled at. -/
theorem attempts_settled {s : RateLimiter} {sys now : ℤ} (h : s.Settled sys now) (n : ℕ) :
    (runTotal step s (List.replicate n (.tryAcquire sys now))).1 =
      List.replicate (min n s.attemptsLeft) (.acquired (some true)) ++
        List.replicate (n - s.attemptsLeft) (.acquired (some false)) := by
  induction n generalizing s with
  | zero => simp [runTotal]
  | succ n ih =>
    have hstep : step s (.tryAcquire sys now) =
        (.acquired (s.tryAcquire sys now).1, (s.tryAcquire sys now).2) := rfl
    rw [List.replicate_succ, runTotal, hstep, h.tryAcquire]
    by_cases hok : ¬ s.QuotaReached ∧ 0 < s.tokens.toNat
    · rw [if_pos hok, ih (h.take hok.2), attemptsLeft_take hok.1 hok.2, Nat.add_min_add_right,
        Nat.add_sub_add_right, List.replicate_succ]
      rfl
    · have hnone : s.attemptsLeft = 0 := by
        rw [quotaReached_iff] at hok
        unfold attemptsLeft
        omega
      rw [if_neg hok, ih h, hnone, Nat.min_zero, Nat.min_zero, Nat.sub_zero, Nat.sub_zero,
        List.replicate_succ]
      rfl

/-- A limiter with a used up quota grants nothing until the day is over. -/
theorem attempts_quotaReached {s : RateLimiter} {sys : ℤ}
    (h : (s.checkDailyReset sys).QuotaReached) (now : ℤ) (n : ℕ) :
    (runTotal step s (List.replicate n (.tryAcquire sys now))).1 =
      List.replicate n (.acquired (some false)) := by
  induction n generalizing s with
  | zero => rfl
  | succ n ih =>
    have hstep : step s (.tryAcquire sys now) =
        (.acquired (some false), s.checkDailyReset sys) := by
      rw [step, tryAcquire_eq, if_pos h]
    rw [List.replicate_succ, runTotal, hstep, ih, List.replicate_succ]
    rwa [checkDailyReset_checkDailyReset s le_rfl]

/-- The observers predict the attempts: of any number of them made at the instant of the
    observation, as many succeed as there are tokens and requests left, and these come first. -/
theorem attempts_predicted (config : Config) (clock : Clock) (calls : List Call)
    (hforward : ForwardRun clock calls) (sys now : ℤ)
    (hnow : (calls.foldl Clock.after clock).now ≤ now) (n : ℕ) :
    let s := (runTotal step (new config clock.now clock.sys) calls).2
    let granted := min (s.availableTokens now).toNat (s.dailyRequestsRemaining sys).toNat
    (runTotal step s (List.replicate n (.tryAcquire sys now))).1 =
      List.replicate (min n granted) (.acquired (some true)) ++
        List.replicate (n - granted) (.acquired (some false)) := by
  intro s granted
  have hs : Fits (calls.foldl Clock.after clock) s := run_fits config hforward
  have hwf := hs.wellFormed.checkDailyReset sys
  have hlast : (s.checkDailyReset sys).lastRefill ≤ now := by
    rw [checkDailyReset_lastRefill]
    exact hs.lastRefill_le.trans hnow
  have hquotaLeft : s.dailyRequestsRemaining sys = (s.checkDailyReset sys).quotaLeft := by
    rw [dailyRequestsRemaining_eq, quotaLeft, checkDailyReset_config]
  by_cases hquota : (s.checkDailyReset sys).QuotaReached
  · have hnone : granted = 0 := by
      rw [quotaReached_iff, ← hquotaLeft] at hquota
      simp only [granted, hquota, Int.toNat_zero, Nat.min_zero]
    rw [attempts_quotaReached hquota, hnone, Nat.min_zero, Nat.sub_zero]
    rfl
  · have hsettled := refill_settled hwf (checkDailyReset_day s sys) hlast
    have hgranted : granted = ((s.checkDailyReset sys).refill now).attemptsLeft := by
      simp only [granted, attemptsLeft, hquotaLeft, quotaLeft, refill_config,
        refill_dailyRequestsUsed, ← availableTokens_eq hwf, availableTokens_checkDailyReset]
    have hquota' : ¬ ((s.checkDailyReset sys).refill now).QuotaReached := by
      unfold QuotaReached at hquota ⊢
      rwa [refill_config, refill_dailyRequestsUsed]
    have hfirst : s.tryAcquire sys now =
        ((s.checkDailyReset sys).refill now).tryAcquire sys now := by
      rw [tryAcquire_eq, if_neg hquota, tryAcquire_eq, checkDailyReset_of_le hsettled.day,
        hsettled.refill, if_neg hquota']
    rw [hgranted, ← attempts_settled hsettled]
    cases n with
    | zero => rfl
    | succ n => simp only [List.replicate_succ, runTotal, step, hfirst]

/-- Two tokens and a quota of three: the third attempt finds no token, and uses none of the
    quota. -/
theorem attempts_predicted_three :
    (runTotal step (new { maxTokens := 2, initialTokens := 2, dailyLimit := 3 } 0 0)
        (.availableTokens 0 :: .dailyRequestsRemaining 0 ::
          List.replicate 3 (.tryAcquire 0 0))).1 =
      [.tokens 2, .requests 3, .acquired (some true), .acquired (some true),
        .acquired (some false)] := by
  have h := attempts_predicted { maxTokens := 2, initialTokens := 2, dailyLimit := 3 } ⟨0, 0⟩
    [.availableTokens 0, .dailyRequestsRemaining 0]
    ⟨by decide, by decide, trivial⟩ 0 0 (by decide) 3
  exact congrArg (fun answers => .tokens 2 :: .requests 3 :: answers) h

end NceiCpp.Core.RateLimiter
