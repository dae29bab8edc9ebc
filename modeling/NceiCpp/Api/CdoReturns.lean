import NceiCpp.Api.CdoRetries
import NceiCpp.Core.RateLimitLoops
import NceiCpp.Lib.Returns

/-!
# Calls return

`acquire` without a `max_wait` polls until it gets a token, and without quota it gets none while
the day lasts. `do_get` asks for the quota before it acquires.

* `acquire_hangs`: without quota `acquire` does not return.
* `calls_return`: the request methods do.
-/

namespace NceiCpp.Api

open Interaction Exec Filter NceiCpp.Core NceiCpp.Models

/-- The same outside, with this number of turns. -/
def Env.within (env : Env) (turns : ℕ) : Env := { env with turns := turns }

/-- The clocks do not go back, and the steady clock gets behind every time. -/
structure Env.Passes (env : Env) : Prop where
  sys : Monotone env.sys
  steady : Monotone env.steady
  unbounded : ∀ t, ∃ n, t ≤ env.steady n

/-- The limiter is that of a run up to now. -/
def InTime (env : Env) (w : World) : Prop :=
  RateLimiter.Fits ⟨env.sys w.readings, env.steady w.readings⟩ w.limiter

/-- There is quota now and later. -/
def HasQuota (env : Env) (w : World) : Prop :=
  ∀ n, w.readings ≤ n → 0 < w.limiter.dailyRequestsRemaining (env.sys n)

variable {env : Env} {w : World}

/-! ## One attempt -/

theorem InTime.later (h : InTime env w) (hpass : env.Passes) {w' : World}
    (hlimiter : w'.limiter = w.limiter) (hreadings : w.readings ≤ w'.readings) :
    InTime env w' := by
  rw [InTime, hlimiter]
  exact ⟨h.wellFormed, h.lastRefill_le.trans (hpass.steady hreadings)⟩

theorem InTime.tryAcquire (h : InTime env w) (hpass : env.Passes) :
    InTime env (tryAcquire env w).2 := by
  have htry := RateLimiter.tryAcquire_attempted h.wellFormed
    (h.lastRefill_le.trans (hpass.steady (Nat.le_succ w.readings))) (env.sys w.readings)
  exact ⟨htry.wellFormed, htry.lastRefill_le.trans (hpass.steady (Nat.le_succ _))⟩

theorem nsPerDay_pos : 0 < nsPerDay := by decide

/-- What is left of a day is left at its end, and the next day has quota. -/
theorem remaining_pos_of_le {s : RateLimiter} {sys sys' : ℤ} (hle : sys ≤ sys')
    (h : 0 < s.dailyRequestsRemaining sys) : 0 < s.dailyRequestsRemaining sys' := by
  rw [RateLimiter.dailyRequestsRemaining_eq] at h ⊢
  split_ifs at h ⊢ with hlimit
  · exact h
  · rw [Int32.le_iff_toInt_le, not_le] at hlimit
    rcases lt_or_ge s.dayStart (floorDays sys') with hday | hday
    · rw [RateLimiter.checkDailyReset_of_lt hday]
      exact lt_max_of_lt_left (by simpa using hlimit)
    · have hday' : floorDays sys ≤ s.dayStart :=
        (Int.ediv_le_ediv nsPerDay_pos hle).trans hday
      rw [RateLimiter.checkDailyReset_of_le hday'] at h
      rwa [RateLimiter.checkDailyReset_of_le hday]

/-- An attempt that fails leaves the limiter with a check of the day. -/
theorem tryAcquire_fails (h : InTime env w) (hfalse : (tryAcquire env w).1 = some false) :
    (tryAcquire env w).2.limiter = w.limiter.checkDailyReset (env.sys w.readings) := by
  have hgranted := Option.some.inj hfalse
  have htry := RateLimiter.tryAcquire_of_false h.wellFormed hgranted
  exact congrArg Prod.snd htry

theorem remaining_tryAcquire_fails (h : InTime env w)
    (hfalse : (tryAcquire env w).1 = some false) {sys : ℤ} (hsys : env.sys w.readings ≤ sys) :
    (tryAcquire env w).2.limiter.dailyRequestsRemaining sys =
      w.limiter.dailyRequestsRemaining sys := by
  rw [tryAcquire_fails h hfalse, RateLimiter.dailyRequestsRemaining_eq,
    RateLimiter.checkDailyReset_config, RateLimiter.checkDailyReset_checkDailyReset _ hsys,
    ← RateLimiter.dailyRequestsRemaining_eq]

theorem HasQuota.tryAcquire_fails (h : HasQuota env w) (hw : InTime env w)
    (hfalse : (tryAcquire env w).1 = some false) (hpass : env.Passes) :
    HasQuota env (tryAcquire env w).2 := by
  intro n hn
  have hle : w.readings ≤ n := (Nat.le_add_right _ 2).trans hn
  rw [remaining_tryAcquire_fails hw hfalse (hpass.sys hle)]
  exact h n hle

/-- An attempt succeeds a `refill_interval` behind the last refill. -/
theorem tryAcquire_succeeds (h : InTime env w) (hquota : HasQuota env w)
    (hnow : w.limiter.lastRefill + w.limiter.interval ≤ env.steady (w.readings + 1)) :
    (tryAcquire env w).1 = some true := by
  have hsucceeds := @RateLimiter.attempt_succeeds _ h.wellFormed
    ⟨env.sys w.readings, env.steady (w.readings + 1), 0⟩ hnow (hquota _ le_rfl)
  exact congrArg some hsucceeds

/-! ## The loops -/

theorem tryAcquire_value (env : Env) (w : World) :
    (tryAcquire env w).1 = some true ∨ (tryAcquire env w).1 = some false := by
  cases h : (w.limiter.tryAcquire (env.sys w.readings) (env.steady (w.readings + 1))).1 with
  | true => exact .inl (congrArg some h)
  | false => exact .inr (congrArg some h)

theorem tryAcquire_of_value {granted : Bool} (h : (tryAcquire env w).1 = some granted) :
    tryAcquire env w = (some granted, (tryAcquire env w).2) := Prod.ext h rfl

/-- The world behind a sleep. -/
def slept (ns : ℤ) (w : World) : World := { w with log := w.log ++ [.sleep ns] }

theorem acquireLoop_granted (h : (tryAcquire env w).1 = some true) (turns : ℕ) :
    acquireLoop env (turns + 1) w = (some true, (tryAcquire env w).2) := by
  rw [acquireLoop, bind_some (tryAcquire_of_value h)]
  rfl

theorem acquireLoop_waits (h : (tryAcquire env w).1 = some false) (turns : ℕ) :
    acquireLoop env (turns + 1) w =
      acquireLoop env turns (slept (10 * nsPerMs) (tryAcquire env w).2) := by
  rw [acquireLoop, bind_some (tryAcquire_of_value h)]
  rfl

/-- With quota, `acquire` returns a token. The variant of the loop is the number of readings
    up to the one by which a token is earned. -/
theorem acquireLoop_returns (hpass : env.Passes) :
    Returns (fun w => InTime env w ∧ HasQuota env w) (acquireLoop env)
      fun granted w => granted = true ∧ InTime env w := by
  intro w ⟨hw, hquota⟩
  obtain ⟨n, hn⟩ := hpass.unbounded (w.limiter.lastRefill + w.limiter.interval)
  refine Returns.loop (P := fun w => InTime env w ∧ HasQuota env w ∧
    w.limiter.lastRefill + w.limiter.interval ≤ env.steady n) (fun w => n - w.readings)
    (fun w ⟨hw, hquota, hn⟩ => ?_) w ⟨hw, hquota, hn⟩
  rcases tryAcquire_value env w with hgranted | hfalse
  · exact .inl ⟨true, _, ⟨rfl, hw.tryAcquire hpass⟩, acquireLoop_granted hgranted⟩
  · have hlate : w.readings + 1 < n := by
      by_contra hle
      have hearned := hn.trans (hpass.steady (not_lt.mp hle))
      rw [tryAcquire_succeeds hw hquota hearned] at hfalse
      cases hfalse
    have hlimiter := tryAcquire_fails hw hfalse
    refine .inr ⟨slept (10 * nsPerMs) (tryAcquire env w).2,
      ⟨(hw.tryAcquire hpass).later hpass rfl le_rfl, hquota.tryAcquire_fails hw hfalse hpass, ?_⟩,
      ?_, acquireLoop_waits hfalse⟩
    · show (tryAcquire env w).2.limiter.lastRefill + (tryAcquire env w).2.limiter.interval ≤ _
      rw [hlimiter, RateLimiter.checkDailyReset_lastRefill, RateLimiter.interval,
        RateLimiter.checkDailyReset_config]
      exact hn
    · show n - (w.readings + 2) < n - w.readings
      omega

theorem acquireForLoop_granted (h : (tryAcquire env w).1 = some true) (deadline : ℤ)
    (turns : ℕ) :
    acquireForLoop env deadline (turns + 1) w = (some true, (tryAcquire env w).2) := by
  rw [acquireForLoop, bind_some (tryAcquire_of_value h)]
  rfl

theorem acquireForLoop_waits (h : (tryAcquire env w).1 = some false) (deadline : ℤ)
    (turns : ℕ) :
    acquireForLoop env deadline (turns + 1) w =
      if env.steady (w.readings + 2) ≥ deadline then
        (some false, (readSteady env (tryAcquire env w).2).2)
      else
        acquireForLoop env deadline turns
          (slept (min (deadline - env.steady (w.readings + 2)) (10 * nsPerMs))
            (readSteady env (tryAcquire env w).2).2) := by
  rw [acquireForLoop, bind_some (tryAcquire_of_value h)]
  change (if env.steady (w.readings + 2) ≥ deadline then (pure false : Exec World Bool)
    else _) _ = _
  split_ifs
  · rfl
  · rfl

/-- `acquire_for` returns. The variant of the loop is the number of readings up to one that is
    not ahead of the deadline. -/
theorem acquireForLoop_returns (hpass : env.Passes) (deadline : ℤ) :
    Returns (InTime env) (acquireForLoop env deadline) fun _ => InTime env := by
  obtain ⟨n, hn⟩ := hpass.unbounded deadline
  refine Returns.loop (fun w => n - w.readings) fun w hw => ?_
  rcases tryAcquire_value env w with hgranted | hfalse
  · exact .inl ⟨true, _, hw.tryAcquire hpass, acquireForLoop_granted hgranted deadline⟩
  · have hread : InTime env (readSteady env (tryAcquire env w).2).2 :=
      (hw.tryAcquire hpass).later hpass rfl (Nat.le_succ _)
    by_cases hexpired : env.steady (w.readings + 2) ≥ deadline
    · refine .inl ⟨false, _, hread, fun turns => ?_⟩
      rw [acquireForLoop_waits hfalse, if_pos hexpired]
    · have hahead : w.readings + 2 < n := by
        by_contra hle
        exact hexpired (hn.trans (hpass.steady (not_lt.mp hle)))
      refine .inr ⟨slept (min (deadline - env.steady (w.readings + 2)) (10 * nsPerMs))
        (readSteady env (tryAcquire env w).2).2, hread.later hpass rfl le_rfl, ?_,
        fun turns => ?_⟩
      · show n - (w.readings + 3) < n - w.readings
        omega
      · rw [acquireForLoop_waits hfalse, if_neg hexpired]

theorem acquireLoop_within (env : Env) (turns n : ℕ) :
    acquireLoop (env.within turns) n = acquireLoop env n := by
  induction n with
  | zero => rfl
  | succ n ih =>
    rw [acquireLoop, acquireLoop, ih]
    rfl

theorem acquireForLoop_within (env : Env) (deadline : ℤ) (turns n : ℕ) :
    acquireForLoop (env.within turns) deadline n = acquireForLoop env deadline n := by
  induction n with
  | zero => rfl
  | succ n ih =>
    rw [acquireForLoop, acquireForLoop, ih]
    rfl

/-- With quota `acquire` returns. -/
theorem acquire_settles (hpass : env.Passes) :
    Returns (fun w => InTime env w ∧ HasQuota env w) (fun turns => acquire (env.within turns))
      fun _ => InTime env := by
  refine Returns.bind (Q := fun _ w => InTime env w ∧ HasQuota env w)
    (Returns.act fun w hw => hw) fun maxWait => ?_
  cases maxWait with
  | none =>
    have hloop : (fun turns => acquireLoop (env.within turns) turns) = acquireLoop env :=
      funext fun turns => acquireLoop_within env turns turns
    show Returns _ (fun turns => acquireLoop (env.within turns) turns) _
    rw [hloop]
    exact (acquireLoop_returns hpass).of_post fun _ w hw => hw.2
  | some maxWait =>
    have hloop : ∀ deadline, (fun turns => acquireForLoop (env.within turns) deadline turns) =
        acquireForLoop env deadline :=
      fun deadline => funext fun turns => acquireForLoop_within env deadline turns turns
    have hread : Returns (fun w => InTime env w ∧ HasQuota env w) (fun _ => readSteady env)
        fun _ => InTime env :=
      Returns.act fun w hw => hw.1.later hpass rfl (Nat.le_succ _)
    refine Returns.bind hread fun now => ?_
    show Returns _ (fun turns => acquireForLoop (env.within turns) _ turns) _
    rw [hloop]
    exact acquireForLoop_returns hpass _

/-! ## Requests -/

/-- `do_get` asks for the quota, so its `acquire` has some. -/
theorem attemptGet_returns (hpass : env.Passes) (path : Bytes) :
    Returns (InTime env) (fun turns => attemptGet (env.within turns) path)
      fun _ => InTime env := by
  have hcheck : Returns (InTime env) (fun _ => dailyRequestsRemaining env)
      fun remaining w => InTime env w ∧ (0 < remaining → HasQuota env w) := by
    refine Returns.act fun w hw => ⟨hw.later hpass rfl (Nat.le_succ _), fun hremaining n hn => ?_⟩
    exact remaining_pos_of_le (hpass.sys ((Nat.le_succ w.readings).trans hn)) hremaining
  refine Returns.bind hcheck fun remaining => ?_
  split_ifs with hremaining
  · exact Returns.pure fun w hw => hw.1
  · refine Returns.bind ((acquire_settles hpass).of_pre
      fun w hw => ⟨hw.1, hw.2 (not_le.mp hremaining)⟩) fun granted => ?_
    cases granted with
    | false => exact Returns.pure fun w hw => hw
    | true =>
      have hget : Returns (InTime env) (fun _ => httpGet env path) fun _ => InTime env :=
        Returns.act fun w hw => hw.later hpass rfl le_rfl
      exact hget

theorem withRetryFrom_returns {σ : Type} {operation : ℕ → Exec σ (Result HttpResponse)}
    {sleepFor : UInt8 → Exec σ Unit} {policy : RetryPolicy} {Inv : σ → Prop}
    (hop : Returns Inv operation fun _ => Inv)
    (hsleep : ∀ a, Returns Inv (fun _ => sleepFor a) fun _ => Inv) (a : UInt8) :
    Returns Inv (fun turns => withRetryFrom (operation turns) sleepFor policy a)
      fun _ => Inv := by
  induction hn : policy.maxAttempts.toNat - a.toNat using Nat.strong_induction_on
    generalizing a with
  | _ n ih =>
    by_cases hle : a ≤ policy.maxAttempts
    · have hturn : (fun turns => withRetryFrom (operation turns) sleepFor policy a) =
          fun turns => operation turns >>= fun result =>
            if shouldRetry result policy ∧ a < policy.maxAttempts then
              sleepFor a >>= fun _ =>
                withRetryFrom (operation turns) sleepFor policy (a + 1)
            else pure result := by
        funext turns
        rw [withRetryFrom, if_pos hle]
        rfl
      rw [hturn]
      refine Returns.bind hop fun result => ?_
      split_ifs with hretry
      · have hlt := UInt8.lt_iff_toNat_lt.mp hretry.2
        have hsucc := toNat_succ hretry.2
        exact Returns.bind (hsleep a) fun _ => ih _ (by omega) (a + 1) rfl
      · exact Returns.pure fun s hs => hs
    · have hend : (fun turns => withRetryFrom (operation turns) sleepFor policy a) =
          fun _ => pure (.error (Error.network (bytes "Max retry attempts exceeded"))) := by
        funext turns
        rw [withRetryFrom, if_neg hle]
      rw [hend]
      exact Returns.pure fun s hs => hs

theorem doGet_returns (hpass : env.Passes) (policy : RetryPolicy) (initialized : Bool)
    (path : Bytes) :
    Returns (InTime env) (fun turns => doGet (env.within turns) policy initialized path)
      fun _ => InTime env := by
  cases initialized with
  | false => exact Returns.pure fun w hw => hw
  | true =>
    have hsleep : ∀ a, Returns (InTime env) (fun _ => sleepNs (env.retryDelay a * nsPerMs))
        fun _ => InTime env := fun a => Returns.act fun w hw => hw.later hpass rfl le_rfl
    exact @withRetryFrom_returns World _ _ policy _ (attemptGet_returns hpass path) hsleep 1

/-- Every method returns. -/
theorem perform_returns {α : Type} (hpass : env.Passes) (policy : RetryPolicy)
    (initialized : Bool) (method : Client α) :
    Returns (InTime env)
      (fun turns => perform (doGet (env.within turns) policy initialized) method)
      fun _ => InTime env := by
  simp only [perform_eq_handle]
  exact Program.handle_returns (doGet_returns hpass policy initialized) method

variable {T : Type} {glaze : Glaze} {readers : EntityReaders T}

theorem runCalls_returns (hpass : env.Passes) (policy : RetryPolicy) (initialized : Bool)
    (calls : List Call) :
    Returns (InTime env)
      (fun turns => runCalls (env.within turns) glaze readers policy initialized calls)
      fun _ => InTime env := by
  induction calls with
  | nil => exact Returns.pure fun w hw => hw
  | cons call calls ih =>
    exact Returns.bind (perform_returns hpass policy initialized (call.method glaze readers))
      fun _ => ih

/-! ## Without the check -/

/-- Without quota an attempt fails. -/
theorem tryAcquire_exhausted (h : w.limiter.dailyRequestsRemaining (env.sys w.readings) = 0) :
    (tryAcquire env w).1 = some false := by
  have hreached : (w.limiter.checkDailyReset (env.sys w.readings)).QuotaReached := by
    rw [RateLimiter.quotaReached_iff, RateLimiter.quotaLeft, RateLimiter.checkDailyReset_config,
      ← RateLimiter.dailyRequestsRemaining_eq, h]
  have htry : w.limiter.tryAcquire (env.sys w.readings) (env.steady (w.readings + 1)) =
      (false, w.limiter.checkDailyReset (env.sys w.readings)) := by
    rw [RateLimiter.tryAcquire_eq, if_pos hreached]
  exact congrArg (fun r => some r.1) htry

/-- `acquire` itself waits for the end of the day: without a `max_wait` and without quota it
    does not return. -/
theorem acquire_hangs (hpass : env.Passes) (hw : InTime env w)
    (hwait : w.limiter.config.maxWait = none)
    (hexhausted : ∀ n, w.readings ≤ n → w.limiter.dailyRequestsRemaining (env.sys n) = 0)
    (turns : ℕ) : (acquire (env.within turns) w).1 = none := by
  have hloop : ∀ (n : ℕ) (w : World), InTime env w →
      (∀ n, w.readings ≤ n → w.limiter.dailyRequestsRemaining (env.sys n) = 0) →
      (acquireLoop env n w).1 = none := by
    intro n
    induction n with
    | zero => exact fun _ _ _ => rfl
    | succ n ih =>
      intro w hw hexhausted
      have hfalse := tryAcquire_exhausted (hexhausted _ le_rfl)
      rw [acquireLoop_waits hfalse]
      refine ih _ ((hw.tryAcquire hpass).later hpass rfl le_rfl) fun m hm => ?_
      have hle : w.readings ≤ m := (Nat.le_add_right _ 2).trans hm
      show (tryAcquire env w).2.limiter.dailyRequestsRemaining _ = 0
      rw [remaining_tryAcquire_fails hw hfalse (hpass.sys hle)]
      exact hexhausted m hle
  have hacquire : acquire (env.within turns) w = acquireLoop (env.within turns) turns w := by
    have hread : (act fun w : World => (w.limiter.config.maxWait, w)) w = (some none, w) := by
      rw [act, hwait]
    rw [acquire, bind_some hread]
    rfl
  rw [hacquire, acquireLoop_within]
  exact hloop turns w hw hexhausted

/-! ## Calls -/

/-- No call of a client hangs, while time passes and the system clock is not set back: every
    sequence of calls ends, and so does every method called then, with a result that does not
    depend on the turns a waiting `acquire` has. Neither the transport nor the policy, the
    limits or a quota that is used up keep it from that, although `acquire` itself waits for
    the end of the day if there is neither quota nor a `max_wait`. -/
theorem calls_return (hpass : env.Passes) :
    (∀ (config : RateLimiter.Config) (policy : RetryPolicy) (initialized : Bool)
      (calls : List Call), ∃ w,
        Settles (fun turns => runCalls (env.within turns) glaze readers policy initialized calls)
          (newWorld env config) () w ∧
        ∀ {α : Type} (method : Client α), ∃ a w',
          Settles (fun turns => perform (doGet (env.within turns) policy initialized) method)
            w a w') ∧
    ∀ w, InTime env w → w.limiter.config.maxWait = none →
      (∀ n, w.readings ≤ n → w.limiter.dailyRequestsRemaining (env.sys n) = 0) →
      ∀ turns, (acquire (env.within turns) w).1 = none := by
  refine ⟨fun config policy initialized calls => ?_,
    fun w hw hwait hexhausted turns => acquire_hangs hpass hw hwait hexhausted turns⟩
  have hnew : InTime env (newWorld env config) :=
    ⟨RateLimiter.new_wellFormed config _ _, hpass.steady (Nat.zero_le _)⟩
  obtain ⟨⟨⟩, w, hsettles, hw⟩ :=
    @runCalls_returns env T glaze readers hpass policy initialized calls _ hnew
  refine ⟨w, hsettles, fun method => ?_⟩
  obtain ⟨a, w', hmethod, -⟩ := perform_returns hpass policy initialized method w hw
  exact ⟨a, w', hmethod⟩

/-- A station is asked for while the service is down. -/
theorem calls_return_unavailable :
    let env : Env :=
      { sys := fun _ => 0, steady := fun n => n, transport := fun _ _ => .ok ⟨503, [], []⟩,
        retryDelay := fun _ => 200, turns := 0 }
    let glaze : Glaze := ⟨fun _ => none, fun _ => .error []⟩
    let readers : EntityReaders Unit := ⟨fun _ _ => .ok (), fun _ _ => .error []⟩
    ∃ w, Settles (fun turns => runCalls (env.within turns) glaze readers {} true
      [.single .stations (bytes "X")]) (newWorld env {}) () w := by
  intro env glaze readers
  have hpass : env.Passes :=
    ⟨monotone_const, fun m n hle => Int.ofNat_le.mpr hle, fun t => ⟨t.toNat, t.self_le_toNat⟩⟩
  obtain ⟨hreturns, -⟩ := @calls_return env Unit glaze readers hpass
  obtain ⟨w, hsettles, -⟩ := hreturns {} {} true [.single .stations (bytes "X")]
  exact ⟨w, hsettles⟩

end NceiCpp.Api
