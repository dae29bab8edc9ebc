import NceiCpp.Core.RateLimitCallers

/-!
# What `acquire_for` has done when it returns false

Where a caller of the rate limiter is says what it did before: a caller in the loop of
`acquire_for` started a call that set the deadline, and has done nothing since but failed
attempts and checks of the deadline.

* `Step.caller_cases`: what a step does to its caller.
* `false_behind_deadline`: a call that gives up has attempted, and is not ahead of its deadline.
-/

namespace NceiCpp.Core.RateLimitCallers

open CreditRun RateLimiter

variable {ι : Type}

/-- The event starts `acquire_for`, of its own or for `acquire`, with this wait. -/
def Starts (config : RateLimiter.Config) (e : Event ι) (maxWait : ℤ) : Prop :=
  e.op = .acquireFor maxWait ∨ (e.op = .acquire ∧ config.maxWait = some maxWait)

/-- A step of the loop of `acquire_for` behind which it goes on. -/
def GoesOn (e : Event ι) : Prop := e.op = .attempt false ∨ e.op = .checkDeadline false

/-- The caller `i` is in a call of `acquire_for` with this deadline; `since` is what all
    callers have done since it started. -/
structure InCall (config : RateLimiter.Config) (past since : List (Event ι)) (i : ι)
    (deadline : ℤ) : Prop where
  started : ∃ before e maxWait, past = before ++ e :: since ∧ e.caller = i ∧
    Starts config e maxWait ∧ deadline = RateLimiter.deadline e.now maxWait
  goesOn : ∀ e ∈ since, e.caller = i → GoesOn e

/-- The caller has made an attempt that failed. -/
def Attempted (since : List (Event ι)) (i : ι) : Prop :=
  ∃ e ∈ since, e.caller = i ∧ e.op = .attempt false

theorem InCall.snoc {config : RateLimiter.Config} {past since : List (Event ι)} {i : ι}
    {deadline : ℤ} (h : InCall config past since i deadline) {e : Event ι}
    (he : e.caller = i → GoesOn e) : InCall config (past ++ [e]) (since ++ [e]) i deadline := by
  obtain ⟨before, e0, maxWait, hpast, hcaller, hstarts, hdeadline⟩ := h.started
  refine ⟨⟨before, e0, maxWait, by simp [hpast], hcaller, hstarts, hdeadline⟩, ?_⟩
  intro e' he'
  rcases List.mem_append.mp he' with he' | he'
  · exact h.goesOn e' he'
  · rw [List.mem_singleton.mp he']
    exact he

theorem Attempted.snoc {since : List (Event ι)} {i : ι} (h : Attempted since i) (e : Event ι) :
    Attempted (since ++ [e]) i := by
  obtain ⟨e', hmem, he'⟩ := h
  exact ⟨e', List.mem_append_left _ hmem, he'⟩

variable [DecidableEq ι]

/-- A step leaves the other callers where they are. -/
theorem Step.other_callers {s s' : System ι} {e : Event ι} (h : Step s e s') {j : ι}
    (hj : j ≠ e.caller) : s'.callers j = s.callers j := by
  cases h <;> first
    | rfl
    | exact Function.update_of_ne hj _ _

/-- A step of a caller in the loop of `acquire_for`, or into it. -/
inductive LoopStep (config : RateLimiter.Config) (e : Event ι) : Caller → Caller → Prop
  | start {caller : Caller} {maxWait : ℤ} : Starts config e maxWait →
      LoopStep config e caller (.attempting (some (deadline e.now maxWait)))
  | attempt {d : ℤ} : e.op = .attempt false → LoopStep config e (.attempting (some d)) (.failed d)
  | checkDeadline {d : ℤ} : e.op = .checkDeadline false →
      LoopStep config e (.failed d) (.attempting (some d))

/-- A step leads its caller out of the member functions, to the loop of `acquire` without a
    deadline, or through the loop of `acquire_for`. -/
theorem Step.caller_cases {s s' : System ι} {e : Event ι} (h : Step s e s') :
    s'.callers e.caller = .idle ∨ s'.callers e.caller = .attempting none ∨
      LoopStep s.limiter.config e (s.callers e.caller) (s'.callers e.caller) := by
  cases h with
  | tryAcquire sys hclock hi htry => exact .inl hi
  | acquire hclock hi =>
    simp only [Function.update_self]
    unfold acquireStart
    split
    · next maxWait hwait => exact .inr (.inr (.start (.inr ⟨rfl, hwait⟩)))
    · exact .inr (.inl rfl)
  | acquireFor maxWait hclock hi =>
    simp only [Function.update_self]
    exact .inr (.inr (.start (.inl rfl)))
  | @attempt i now deadline granted limiter sys hclock hi htry =>
    simp only [Function.update_self]
    unfold afterAttempt
    split_ifs with hgranted
    · exact .inl rfl
    · rw [Bool.not_eq_true] at hgranted
      cases deadline with
      | none => exact .inr (.inl rfl)
      | some d =>
        rw [hi, hgranted]
        exact .inr (.inr (.attempt rfl))
  | @checkDeadline i now d hclock hi =>
    simp only [Function.update_self]
    split_ifs with hexpired
    · exact .inl rfl
    · rw [hi]
      exact .inr (.inr (.checkDeadline (by simpa using hexpired)))
  | availableTokens hclock hi => exact .inl hi
  | dailyRequestsRemaining sys hclock hi => exact .inl hi
  | reset sys hclock hi => exact .inl hi

/-- Where a caller is in the loop of `acquire_for`, it was before the step, unless the step
    is its own. -/
theorem Step.into_loop {s s' : System ι} {e : Event ι} (h : Step s e s') {j : ι} {caller : Caller}
    (hj : s'.callers j = caller) (hidle : caller ≠ .idle) (hnone : caller ≠ .attempting none) :
    (j ≠ e.caller ∧ s.callers j = caller) ∨
      (j = e.caller ∧ LoopStep s.limiter.config e (s.callers e.caller) caller) := by
  subst hj
  by_cases hother : j = e.caller
  · subst hother
    rcases h.caller_cases with hcases | hcases | hcases
    · exact absurd hcases hidle
    · exact absurd hcases hnone
    · exact .inr ⟨rfl, hcases⟩
  · exact .inl ⟨hother, (h.other_callers hother).symm⟩

/-- What the events so far say about the callers. -/
structure History (config : RateLimiter.Config) (past : List (Event ι)) (s : System ι) : Prop where
  invariant : Invariant config s
  attempting : ∀ i d, s.callers i = .attempting (some d) → ∃ since, InCall config past since i d
  failed : ∀ i d, s.callers i = .failed d →
    ∃ since, InCall config past since i d ∧ Attempted since i

omit [DecidableEq ι] in
theorem start_history (config : RateLimiter.Config) (now sys : ℤ) :
    History (sanitized config) [] (start config now sys : System ι) :=
  ⟨start_invariant config now sys, nofun, nofun⟩

theorem Step.history {config : RateLimiter.Config} {past : List (Event ι)} {s s' : System ι}
    {e : Event ι} (hs : History config past s) (h : Step s e s') :
    History config (past ++ [e]) s' := by
  refine ⟨h.invariant hs.invariant, ?_, ?_⟩
  · intro j d hj
    rcases h.into_loop hj (by simp) (by simp) with ⟨hother, hbefore⟩ | ⟨rfl, hloop⟩
    · obtain ⟨since, hcall⟩ := hs.attempting j d hbefore
      exact ⟨_, hcall.snoc fun he => absurd he.symm hother⟩
    · rw [hs.invariant.config_eq] at hloop
      generalize hbefore : s.callers e.caller = before at hloop
      cases hloop with
      | start hstarts =>
        exact ⟨[], ⟨past, e, _, rfl, rfl, hstarts, rfl⟩, fun _ h => by cases h⟩
      | checkDeadline hop =>
        obtain ⟨since, hcall, -⟩ := hs.failed _ _ hbefore
        exact ⟨_, hcall.snoc fun _ => .inr hop⟩
  · intro j d hj
    rcases h.into_loop hj (by simp) (by simp) with ⟨hother, hbefore⟩ | ⟨rfl, hloop⟩
    · obtain ⟨since, hcall, hattempted⟩ := hs.failed j d hbefore
      exact ⟨_, hcall.snoc fun he => absurd he.symm hother, hattempted.snoc e⟩
    · generalize hbefore : s.callers e.caller = before at hloop
      cases hloop with
      | attempt hop =>
        obtain ⟨since, hcall⟩ := hs.attempting _ _ hbefore
        exact ⟨_, hcall.snoc fun _ => .inl hop, e, by simp, rfl, hop⟩

theorem history (config : RateLimiter.Config) {now sys : ℤ} {tr : List (Event ι)} {s : System ι}
    (h : Run Step (start config now sys) tr s) : History (sanitized config) tr s :=
  h.history (fun _ _ _ _ hs h => h.history hs) (start_history config now sys)

/-- A caller that gives up is behind its deadline. -/
theorem Step.expired {s s' : System ι} {i : ι} {now : ℤ}
    (h : Step s ⟨i, .checkDeadline true, now⟩ s') : ∃ d, s.callers i = .failed d ∧ d ≤ now := by
  generalize he : (⟨i, .checkDeadline true, now⟩ : Event ι) = e at h
  cases h with
  | @checkDeadline i' now' d hclock hi =>
    obtain ⟨rfl, hop, rfl⟩ := Event.mk.inj he
    have hexpired : true = decide (now ≥ d) := Op.checkDeadline.inj hop
    exact ⟨d, hi, of_decide_eq_true hexpired.symm⟩
  | _ => simp at he

/-- In every run, a call of `acquire_for` that returns false has made an attempt, and reads
    the clock at its deadline or later. -/
theorem false_behind_deadline (config : RateLimiter.Config) {now sys : ℤ} {s : System ι}
    {past later : List (Event ι)} {i : ι} {t : ℤ}
    (h : Run Step (start config now sys) (past ++ ⟨i, .checkDeadline true, t⟩ :: later) s) :
    ∃ since deadline, InCall config past since i deadline ∧ Attempted since i ∧ deadline ≤ t := by
  obtain ⟨s1, hpast, hlater⟩ := h.split
  cases hlater with
  | cons hstep hlater =>
    obtain ⟨d, hi, hle⟩ := hstep.expired
    obtain ⟨since, hcall, hattempted⟩ := (history config hpast).failed i d hi
    exact ⟨since, d, ⟨hcall.started, hcall.goesOn⟩, hattempted, hle⟩

end NceiCpp.Core.RateLimitCallers
