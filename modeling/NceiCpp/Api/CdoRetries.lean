import NceiCpp.Api.CdoRequests
import NceiCpp.Lib.Handler

/-!
# What a method sees of retries and limits

Two levels of `CDOClient`: a request method is a `Program` that asks for paths and is
answered; `do_get` makes the answers, with retries, quota and limiter. `Answered` is what
`do_get` did for one answer, and all that a method sees of it.

* `acquire_triple`, `acquire_triple_granted`: the rule of `acquire`, for any invariant of an
  attempt.
* `doGet_answered`: every answer is the outcome of the last of a series of requests, all
  before it retried, or a refusal of the client.
* `perform_answered`: a method over `do_get` is a run of the method on such answers.
-/

namespace NceiCpp.Api

open Interaction Exec CreditRun NceiCpp.Core

/-! ## The rule of `acquire` -/

variable {env : Env}

section acquire

/-- What `acquire` ends with: `G` behind a granted attempt, and otherwise still `P`. It gives
    up only if there is a `max_wait`. -/
def AcquireEnd (P G : World → Prop) (maxWait : Option ℤ) (r : Option Bool) (w : World) : Prop :=
  (r = some true → G w) ∧ (r ≠ some true → P w) ∧ (r = some false → maxWait ≠ none)

variable {P G : World → Prop} {maxWait : Option ℤ}
  (htry : Triple P (tryAcquire env) fun r w => (r = some true → G w) ∧ (r ≠ some true → P w))
  (hsleep : ∀ ns, Triple P (sleepNs ns) fun _ => P)
  (hread : Triple P (readSteady env) fun _ => P)

include htry hsleep

theorem acquireLoop_triple (turns : ℕ) :
    Triple P (acquireLoop env turns) (AcquireEnd P G maxWait) := by
  induction turns with
  | zero => exact Triple.cut fun w hw => ⟨by simp, fun _ => hw, by simp⟩
  | succ turns ih =>
    refine Triple.bind htry (fun granted => ?_) fun w hw =>
      ⟨by simp, fun _ => hw.2 (by simp), by simp⟩
    cases granted with
    | true => exact Triple.pure fun w hw => ⟨fun _ => hw.1 rfl, by simp, by simp⟩
    | false =>
      refine Triple.bind ((hsleep _).of_pre fun w hw => hw.2 (by simp)) (fun _ => ih) ?_
      exact fun w hw => ⟨by simp, fun _ => hw, by simp⟩

include hread

theorem acquireForLoop_triple (deadline : ℤ) (hwait : maxWait ≠ none) (turns : ℕ) :
    Triple P (acquireForLoop env deadline turns) (AcquireEnd P G maxWait) := by
  induction turns with
  | zero => exact Triple.cut fun w hw => ⟨by simp, fun _ => hw, by simp⟩
  | succ turns ih =>
    have hcut : ∀ w, P w → AcquireEnd P G maxWait none w :=
      fun w hw => ⟨by simp, fun _ => hw, by simp⟩
    refine Triple.bind htry (fun granted => ?_) fun w hw => hcut w (hw.2 (by simp))
    cases granted with
    | true => exact Triple.pure fun w hw => ⟨fun _ => hw.1 rfl, by simp, by simp⟩
    | false =>
      refine Triple.bind (hread.of_pre fun w hw => hw.2 (by simp)) (fun current => ?_) hcut
      split_ifs
      · exact Triple.pure fun w hw => ⟨by simp, fun _ => hw, fun _ => hwait⟩
      · exact Triple.bind (hsleep _) (fun _ => ih) hcut

theorem acquire_triple
    (hconfig : ∀ w, P w → w.limiter.config.maxWait ≠ none → maxWait ≠ none) :
    Triple P (acquire env) (AcquireEnd P G maxWait) := by
  have hcut : ∀ w, P w → AcquireEnd P G maxWait none w :=
    fun w hw => ⟨by simp, fun _ => hw, by simp⟩
  refine Triple.bind (Q := fun r w => P w ∧ ∀ m, r = some m → m ≠ none → maxWait ≠ none)
    (Triple.act fun w hw => ⟨hw, ?_⟩) (fun wait => ?_) fun w hw => hcut w hw.1
  · rintro m ⟨rfl⟩
    exact hconfig w hw
  · cases wait with
    | none => exact (acquireLoop_triple htry hsleep env.turns).of_pre fun w hw => hw.1
    | some wait =>
      intro w ⟨hw, hwait⟩
      have hsome : maxWait ≠ none := hwait _ rfl (by simp)
      exact Triple.bind hread
        (fun now => acquireForLoop_triple htry hsleep hread _ hsome env.turns) hcut w hw

/-- The rule where it does not matter whether there is a `max_wait`. -/
theorem acquire_triple_granted : Triple P (acquire env) fun r w =>
    (r = some true → G w) ∧ (r ≠ some true → P w) :=
  (@acquire_triple env P G (some 0) htry hsleep hread (by simp)).consequence (fun _ hw => hw)
    fun _ _ hw => ⟨hw.1, hw.2.1⟩

end acquire

/-! ## Answers -/

/-- The paths of the requests in a log. -/
def sentPaths (log : List Event) : List Bytes :=
  log.filterMap fun e => match e with
    | .httpGet path => some path
    | _ => none

/-- `n` requests for `path` were sent since `w0`. -/
structure Since (path : Bytes) (w0 : World) (n : ℕ) (w : World) : Prop where
  requests : w.requests = w0.requests + n
  sent : sentPaths w.log = sentPaths w0.log ++ List.replicate n path
  config : w.limiter.config = w0.limiter.config

/-- The errors with which the client answers itself. -/
inductive Refusal (config : RateLimiter.Config) : Error → Prop
  | quotaExceeded : 0 < config.dailyLimit.toInt →
      Refusal config (Error.quotaExceeded (bytes "CDO daily request quota exceeded"))
  | rateLimited : config.maxWait ≠ none →
      Refusal config (Error.rateLimited (bytes "Rate limit acquisition timed out"))

variable (env) in
/-- The first `n` requests for `path` since `w0` had outcomes that are retried. -/
def Retried (policy : RetryPolicy) (path : Bytes) (w0 : World) (n : ℕ) : Prop :=
  ∀ i < n, shouldRetry (env.transport (w0.requests + i) path) policy = true

variable (env) in
/-- `do_get` for `path` answered from the world `w` on, and left `w'`. -/
inductive Answered (policy : RetryPolicy) (w : World) (path : Bytes) (w' : World) :
    Result HttpResponse → Prop
  /-- The answer is the outcome of a request, which is not retried or the last one allowed. -/
  | sent {n : ℕ} : Since path w (n + 1) w' → Retried env policy path w n →
      n < policy.maxAttempts.toNat →
      (shouldRetry (env.transport (w.requests + n) path) policy = true →
        n + 1 = policy.maxAttempts.toNat) →
      Answered policy w path w' (env.transport (w.requests + n) path)
  /-- The client refused to send another request. -/
  | refused {n : ℕ} {e : Error} : Since path w n w' → Retried env policy path w n →
      n < policy.maxAttempts.toNat → Refusal w.limiter.config e →
      Answered policy w path w' (.error e)

theorem Since.refl (path : Bytes) (w : World) : Since path w 0 w :=
  ⟨rfl, (List.append_nil _).symm, rfl⟩

/-- A step that sends nothing. -/
theorem Since.silent {path : Bytes} {w0 w w' : World} {n : ℕ} (h : Since path w0 n w)
    (hrequests : w'.requests = w.requests) {l : List Event} (hlog : w'.log = w.log ++ l)
    (hl : sentPaths l = []) (hconfig : w'.limiter.config = w.limiter.config) :
    Since path w0 n w' := by
  refine ⟨hrequests.trans h.requests, ?_, hconfig.trans h.config⟩
  rw [hlog, sentPaths, List.filterMap_append, ← sentPaths, ← sentPaths, hl, List.append_nil,
    h.sent]

/-! ## One `do_get` -/

theorem tryAcquire_config (s : RateLimiter) (sys now : ℤ) :
    (s.tryAcquire sys now).2.config = s.config := by
  rw [RateLimiter.tryAcquire_eq]
  split_ifs
  · exact RateLimiter.checkDailyReset_config s sys
  · show ((s.checkDailyReset sys).refill now).config = s.config
    rw [RateLimiter.refill_config, RateLimiter.checkDailyReset_config]
  · rw [RateLimiter.refill_config, RateLimiter.checkDailyReset_config]

variable {path : Bytes} {w0 : World} {n : ℕ}

theorem acquire_since : Triple (Since path w0 n) (acquire env)
    (AcquireEnd (Since path w0 n) (Since path w0 n) w0.limiter.config.maxWait) := by
  refine acquire_triple (Triple.act fun w hw => ?_) (fun ns => Triple.act fun w hw => ?_)
    (Triple.act fun w hw => hw.silent rfl (List.append_nil _).symm rfl rfl) fun w hw => ?_
  · have hsince : Since path w0 n
        { w with
          limiter := (w.limiter.tryAcquire (env.sys w.readings) (env.steady (w.readings + 1))).2
          readings := w.readings + 2
          log := w.log ++ [.tryAcquire w.limiter (env.sys w.readings)
            (env.steady (w.readings + 1))] } :=
      hw.silent rfl rfl rfl (tryAcquire_config _ _ _)
    exact ⟨fun _ => hsince, fun _ => hsince⟩
  · exact hw.silent rfl rfl rfl rfl
  · rw [hw.config]
    exact fun hwait => hwait

/-- Where there is no daily limit, the quota is never used up. -/
theorem dailyLimit_pos_of_exhausted {s : RateLimiter} {sys : ℤ}
    (h : s.dailyRequestsRemaining sys ≤ 0) : 0 < s.config.dailyLimit.toInt := by
  by_contra hlimit
  have hle : s.config.dailyLimit ≤ 0 := by
    rw [Int32.le_iff_toInt_le]
    exact not_lt.mp hlimit
  rw [RateLimiter.dailyRequestsRemaining, if_pos hle] at h
  revert h
  decide

/-- One attempt sends its request, or refuses and has sent none. -/
theorem attemptGet_since : Triple (Since path w0 n) (attemptGet env path) fun r w =>
    (∃ result, r = some result ∧ Since path w0 (n + 1) w ∧
      result = env.transport (w0.requests + n) path) ∨
    (Since path w0 n w ∧ (r = none ∨ ∃ e, r = some (.error e) ∧ Refusal w0.limiter.config e)) := by
  refine Triple.bind (Q := fun r w => Since path w0 n w ∧
    ∀ remaining, r = some remaining → remaining ≤ 0 → 0 < w0.limiter.config.dailyLimit.toInt)
    (Triple.act fun w hw => ?_) (fun remaining => ?_) fun w hw => .inr ⟨hw.1, .inl rfl⟩
  · refine ⟨hw.silent rfl rfl rfl rfl, ?_⟩
    rintro _ ⟨rfl⟩ hexhausted
    rw [← hw.config]
    exact dailyLimit_pos_of_exhausted hexhausted
  · split_ifs with hremaining
    · exact Triple.pure fun w hw =>
        .inr ⟨hw.1, .inr ⟨_, rfl, .quotaExceeded (hw.2 _ rfl hremaining)⟩⟩
    · refine Triple.bind (acquire_since.of_pre fun w hw => hw.1) (fun granted => ?_)
        fun w hw => .inr ⟨hw.2.1 (by simp), .inl rfl⟩
      cases granted with
      | false =>
        exact Triple.pure fun w hw =>
          .inr ⟨hw.2.1 (by simp), .inr ⟨_, rfl, .rateLimited (hw.2.2 rfl)⟩⟩
      | true =>
        refine Triple.act fun w hw => .inl ⟨_, rfl, ?_, ?_⟩
        · have hw := hw.1 rfl
          refine ⟨?_, ?_, hw.config⟩
          · show w.requests + 1 = _
            rw [hw.requests, Nat.add_assoc]
          · show sentPaths (w.log ++ [_]) = _
            rw [sentPaths, List.filterMap_append, ← sentPaths, hw.sent, List.replicate_succ',
              List.append_assoc]
            rfl
        · rw [(hw.1 rfl).requests]

theorem Refusal.not_retried {config : RateLimiter.Config} {e : Error} (h : Refusal config e)
    (policy : RetryPolicy) : shouldRetry (.error e) policy = false := by
  cases h <;> simp [shouldRetry, shouldRetryError, Error.quotaExceeded, Error.rateLimited]

theorem Retried.succ {policy : RetryPolicy} (h : Retried env policy path w0 n)
    (hlast : shouldRetry (env.transport (w0.requests + n) path) policy = true) :
    Retried env policy path w0 (n + 1) := by
  intro i hi
  rcases Nat.lt_succ_iff_lt_or_eq.mp hi with hi | rfl
  · exact h i hi
  · exact hlast

/-- What `do_get` ends with: an answer, or it was cut behind some requests. -/
def GetEnd (env : Env) (policy : RetryPolicy) (w0 : World) (path : Bytes)
    (r : Option (Result HttpResponse)) (w : World) : Prop :=
  (∀ result, r = some result → Answered env policy w0 path w result) ∧
    (r = none → ∃ n, Since path w0 n w ∧ Retried env policy path w0 n ∧
      n ≤ policy.maxAttempts.toNat)

theorem attemptGet_end {policy : RetryPolicy} {a : UInt8} (ha : a ≤ policy.maxAttempts) :
    Triple (fun w => 1 ≤ a.toNat ∧ Since path w0 (a.toNat - 1) w ∧
        Retried env policy path w0 (a.toNat - 1)) (attemptGet env path) fun r w =>
      (∀ result, r = some result → shouldRetry result policy → a < policy.maxAttempts →
        a < policy.maxAttempts ∧ 1 ≤ a.toNat ∧ Since path w0 a.toNat w ∧
          Retried env policy path w0 a.toNat) ∧
      ((∀ result, r = some result → ¬ (shouldRetry result policy ∧ a < policy.maxAttempts)) →
        GetEnd env policy w0 path r w) := by
  intro w ⟨hpos, hsince, hretried⟩
  have hle := UInt8.le_iff_toNat_le.mp ha
  have hlt : a.toNat - 1 < policy.maxAttempts.toNat := by omega
  have hend := (attemptGet_since : Triple (Since path w0 _) (attemptGet env path) _) w hsince
  generalize (attemptGet env path w).1 = r at hend ⊢
  generalize (attemptGet env path w).2 = w' at hend ⊢
  rcases hend with ⟨result, rfl, hsent, rfl⟩ | ⟨hsince', rfl | ⟨e, rfl, hrefusal⟩⟩
  · constructor
    · rintro _ ⟨rfl⟩ hretry hmore
      have hnext := hretried.succ hretry
      rw [Nat.sub_add_cancel hpos] at hsent hnext
      exact ⟨hmore, hpos, hsent, hnext⟩
    · intro hlast
      refine ⟨?_, by simp⟩
      rintro _ ⟨rfl⟩
      refine .sent hsent hretried hlt fun hretry => ?_
      have hnot : ¬ a < policy.maxAttempts := fun hmore => hlast _ rfl ⟨hretry, hmore⟩
      rw [UInt8.lt_iff_toNat_lt] at hnot
      omega
  · exact ⟨by simp, fun _ => ⟨by simp, fun _ => ⟨_, hsince', hretried, hlt.le⟩⟩⟩
  · constructor
    · rintro _ ⟨rfl⟩ hretry
      rw [hrefusal.not_retried policy] at hretry
      cases hretry
    · intro _
      refine ⟨?_, by simp⟩
      rintro _ ⟨rfl⟩
      exact .refused hsince' hretried hlt hrefusal

/-- Where no attempt is allowed, none is made. -/
theorem doGet_noAttempts {policy : RetryPolicy} (hmax : policy.maxAttempts.toNat = 0)
    (path : Bytes) (w : World) :
    doGet env policy true path w =
      (some (.error (Error.network (bytes "Max retry attempts exceeded"))), w) := by
  show withRetryFrom _ _ _ _ _ = _
  rw [withRetryFrom, if_neg]
  · rfl
  · rw [UInt8.le_iff_toNat_le, hmax]
    decide

/-- Every answer of `do_get` is the outcome of its last request, or a refusal. -/
theorem doGet_answered {policy : RetryPolicy} (hmax : 0 < policy.maxAttempts.toNat) :
    GetEnd env policy w0 path (doGet env policy true path w0).1
      (doGet env policy true path w0).2 := by
  have hone : (1 : UInt8).toNat = 1 := rfl
  have hstart : 1 ≤ (1 : UInt8).toNat ∧ (1 : UInt8).toNat ≤ policy.maxAttempts.toNat ∧
      Since path w0 ((1 : UInt8).toNat - 1) w0 ∧
        Retried env policy path w0 ((1 : UInt8).toNat - 1) :=
    ⟨hone.ge, hmax, Since.refl path w0, fun i hi => absurd hi (Nat.not_lt_zero i)⟩
  refine withRetryFrom_triple
    (P := fun a w => 1 ≤ a.toNat ∧ a.toNat ≤ policy.maxAttempts.toNat ∧
      Since path w0 (a.toNat - 1) w ∧ Retried env policy path w0 (a.toNat - 1))
    (M := fun a w => a < policy.maxAttempts ∧ 1 ≤ a.toNat ∧ Since path w0 a.toNat w ∧
      Retried env policy path w0 a.toNat)
    (fun a ha => (attemptGet_end ha).of_pre fun w hw => ⟨hw.1, hw.2.2⟩)
    (fun a => Triple.act fun w hw => ?_) (fun a w hlt hw => ?_) 1 w0 hstart
  · obtain ⟨hlt, hpos, hsince, hretried⟩ := hw
    have hsucc := toNat_succ hlt
    rw [UInt8.lt_iff_toNat_lt] at hlt
    refine ⟨fun _ => ⟨by omega, by omega, ?_, ?_⟩, by simp⟩
    · rw [hsucc, Nat.add_sub_cancel]
      exact hsince.silent rfl rfl rfl rfl
    · rw [hsucc, Nat.add_sub_cancel]
      exact hretried
  · rw [UInt8.lt_iff_toNat_lt] at hlt
    exact absurd hw.2.1 (not_le.mpr hlt)

/-! ## An attempt that is granted -/

/-- The world behind a check of the quota. -/
def checked (env : Env) (w : World) : World :=
  { w with
    readings := w.readings + 1
    log := w.log ++ [.quotaCheck (env.sys w.readings)
      (w.limiter.dailyRequestsRemaining (env.sys w.readings))] }

/-- The world behind an attempt that left the limiter so and sent its request. -/
def granted (env : Env) (path : Bytes) (limiter : RateLimiter) (w : World) : World :=
  { limiter := limiter
    readings := w.readings + 2
    requests := w.requests + 1
    log := w.log ++ [.tryAcquire w.limiter (env.sys w.readings) (env.steady (w.readings + 1))] ++
      [.httpGet path] }

/-- An attempt that finds quota and a token. -/
theorem attemptGet_granted {w : World} {before after : RateLimiter} {path : Bytes} {n turns : ℕ}
    (hlimiter : w.limiter = before) (hreadings : w.readings = n)
    (hquota : 0 < before.dailyRequestsRemaining (env.sys n)) (hwait : before.config.maxWait = none)
    (hturns : env.turns = turns + 1)
    (htry : before.tryAcquire (env.sys (n + 1)) (env.steady (n + 2)) = (true, after)) :
    attemptGet env path w =
      (some (env.transport w.requests path), granted env path after (checked env w)) := by
  subst hlimiter hreadings
  have hacquire : acquire env (checked env w) = (some true,
      { granted env path after (checked env w) with
        requests := w.requests
        log := (checked env w).log ++
          [.tryAcquire w.limiter (env.sys (w.readings + 1)) (env.steady (w.readings + 2))] }) := by
    simp only [acquire, bind, Exec.bind, act, checked, hwait, hturns, acquireLoop, tryAcquire,
      htry, if_true]
    rfl
  rw [checked] at hacquire
  simp only [attemptGet, bind, Exec.bind, act, dailyRequestsRemaining, not_le.mpr hquota, if_false,
    hacquire]
  rfl

theorem sentPaths_granted (env : Env) (path : Bytes) (limiter : RateLimiter) (w : World) :
    sentPaths (granted env path limiter (checked env w)).log = sentPaths w.log ++ [path] := by
  simp [granted, checked, sentPaths]

/-- Such an attempt with an outcome that is tried again. -/
theorem withRetryFrom_granted {policy : RetryPolicy} {a : UInt8} {w : World}
    {before after : RateLimiter} {path : Bytes} {n turns : ℕ}
    (hlimiter : w.limiter = before) (hreadings : w.readings = n)
    (hquota : 0 < before.dailyRequestsRemaining (env.sys n)) (hwait : before.config.maxWait = none)
    (hturns : env.turns = turns + 1)
    (htry : before.tryAcquire (env.sys (n + 1)) (env.steady (n + 2)) = (true, after))
    (hretry : shouldRetry (env.transport w.requests path) policy = true)
    (ha : a < policy.maxAttempts) : ∃ w',
      withRetryFrom (attemptGet env path)
          (fun attempt => sleepNs (env.retryDelay attempt * nsPerMs)) policy a w =
        withRetryFrom (attemptGet env path)
          (fun attempt => sleepNs (env.retryDelay attempt * nsPerMs)) policy (a + 1) w' ∧
      w'.limiter = after ∧ w'.readings = n + 3 ∧ w'.requests = w.requests + 1 ∧
        sentPaths w'.log = sentPaths w.log ++ [path] := by
  have hattempt : attemptGet env path w = _ :=
    attemptGet_granted hlimiter hreadings hquota hwait hturns htry
  refine ⟨_, withRetryFrom_again hattempt hretry ha rfl, rfl, ?_, rfl, ?_⟩
  · show w.readings + 1 + 2 = n + 3
    rw [hreadings]
  · rw [← sentPaths_granted env path after]
    show sentPaths (_ ++ [.sleep _]) = _
    rw [sentPaths, List.filterMap_append]
    exact List.append_nil _

/-- A limiter with the default configuration behind some attempts. -/
def limiterLeft (tokens : UInt16) (lastRefill used : ℤ) : RateLimiter :=
  ⟨{}, tokens, lastRefill, used, 0⟩

/-! ## Methods -/

theorem perform_eq_handle {α : Type} (get : Bytes → Exec World (Result HttpResponse))
    (method : Client α) : perform get method = method.handle get := by
  induction method with
  | ret a => rfl
  | ask path k ih =>
    have hk : (fun response => perform get (k response)) =
        fun response => (k response).handle get := funext ih
    change Exec.bind (get path) (fun response => perform get (k response)) = _
    rw [hk]
    rfl

/-- The exchanges of a method over `do_get`, each with the world before it and behind it. -/
def AnsweredRun (env : Env) (policy : RetryPolicy) : World → List Exchange → World → Prop :=
  Run fun w x w' => Answered env policy w x.1 w' x.2

theorem answeredRun_of_answers {policy : RetryPolicy} (hmax : 0 < policy.maxAttempts.toNat)
    {t : List Exchange} {w w' : World}
    (h : Run (Program.Answers (doGet env policy true)) w t w') : AnsweredRun env policy w t w' := by
  refine h.mono fun w x w' hanswer => ?_
  have hend : GetEnd env policy w x.1 _ _ := doGet_answered hmax
  rw [show doGet env policy true x.1 w = (some x.2, w') from hanswer] at hend
  exact hend.1 _ rfl

theorem perform_run {α : Type} {policy : RetryPolicy} (hmax : 0 < policy.maxAttempts.toNat)
    {method : Client α} {w w' : World} {a : α}
    (h : perform (doGet env policy true) method w = (some a, w')) :
    ∃ t, method.Runs t a ∧ AnsweredRun env policy w t w' := by
  rw [perform_eq_handle, Program.handle_eq_some_iff] at h
  obtain ⟨t, hruns, hrun⟩ := h
  exact ⟨t, hruns, answeredRun_of_answers hmax hrun⟩

/-! ## The requests on the wire -/

/-- Each request of the transport so far is in the log. -/
def Counted (w : World) : Prop := w.requests = (sentPaths w.log).length

theorem Since.counted {w : World} (h : Since path w0 n w) (hw : Counted w0) : Counted w := by
  rw [Counted, h.requests, h.sent, List.length_append, List.length_replicate, hw]

theorem Answered.since {policy : RetryPolicy} {w w' : World} {result : Result HttpResponse}
    (h : Answered env policy w path w' result) :
    ∃ n, Since path w n w' ∧ n ≤ policy.maxAttempts.toNat := by
  cases h with
  | sent hsince _ hlt _ => exact ⟨_, hsince, hlt⟩
  | refused hsince _ hlt _ => exact ⟨_, hsince, hlt.le⟩

/-- The paths of some exchanges in order, each as often as its request was sent. -/
def repeated (sent : List (Bytes × ℕ)) : List Bytes :=
  sent.flatMap fun x => List.replicate x.2 x.1

/-- The log of a method has its requests in order, each as often as it was tried. -/
theorem AnsweredRun.sent {policy : RetryPolicy} {w w' : World} {t : List Exchange}
    (h : AnsweredRun env policy w t w') :
    ∃ sent, sent.map Prod.fst = t.map Prod.fst ∧
      (∀ x ∈ sent, x.2 ≤ policy.maxAttempts.toNat) ∧
      sentPaths w'.log = sentPaths w.log ++ repeated sent := by
  induction h with
  | nil => exact ⟨[], rfl, by simp, (List.append_nil _).symm⟩
  | @cons _ _ _ x t h1 _ ih =>
    obtain ⟨n, hsince, hle⟩ := h1.since
    obtain ⟨sent, hpaths, hsent, hlog⟩ := ih
    refine ⟨(x.1, n) :: sent, by rw [List.map_cons, List.map_cons, hpaths], ?_, ?_⟩
    · exact List.forall_mem_cons.mpr ⟨hle, hsent⟩
    · rw [hlog, hsince.sent, List.append_assoc]
      rfl

/-- An exchange of a run, with the worlds around it. -/
theorem AnsweredRun.mem {policy : RetryPolicy} {w w' : World} {t : List Exchange}
    (h : AnsweredRun env policy w t w') (hw : Counted w) {x : Exchange} (hx : x ∈ t) :
    ∃ w1 w2, Answered env policy w1 x.1 w2 x.2 ∧ Counted w1 ∧ w.requests ≤ w1.requests ∧
      w1.limiter.config = w.limiter.config ∧ sentPaths w2.log <+: sentPaths w'.log := by
  induction h with
  | nil => cases hx
  | @cons w1 w2 w' y t h1 hrest ih =>
    obtain ⟨n, hsince, -⟩ := h1.since
    rcases List.mem_cons.mp hx with rfl | hx
    · obtain ⟨sent, -, -, hlog⟩ := AnsweredRun.sent hrest
      exact ⟨w1, w2, h1, hw, le_rfl, rfl, _, hlog.symm⟩
    · obtain ⟨w3, w4, h3, hcounted, hle, hconfig, hpre⟩ := ih (hsince.counted hw) hx
      have hnext := hsince.requests
      exact ⟨w3, w4, h3, hcounted, by omega, hconfig.trans hsince.config, hpre⟩

/-- A method over `do_get`, whatever the clocks and the transport do: what it returns, it
    returns in a run of its program whose answers are outcomes of requests or refusals; where
    an `acquire` does not return, it has made the exchanges of such a run up to a request that
    has no answer. The log has its requests in order, each as often as it was tried. -/
theorem perform_answered {α : Type} {policy : RetryPolicy}
    (hmax : 0 < policy.maxAttempts.toNat) (method : Client α) (w : World) :
    let r := perform (doGet env policy true) method w
    (∀ a, r.1 = some a → ∃ t sent, method.Runs t a ∧ AnsweredRun env policy w t r.2 ∧
      sent.map Prod.fst = t.map Prod.fst ∧ (∀ x ∈ sent, x.2 ≤ policy.maxAttempts.toNat) ∧
      sentPaths r.2.log = sentPaths w.log ++ repeated sent) ∧
    (r.1 = none → ∃ t sent path n w1, method.Asks t path ∧ AnsweredRun env policy w t w1 ∧
      Since path w1 n r.2 ∧ Retried env policy path w1 n ∧ n ≤ policy.maxAttempts.toNat ∧
      sent.map Prod.fst = t.map Prod.fst ∧ (∀ x ∈ sent, x.2 ≤ policy.maxAttempts.toNat) ∧
      sentPaths r.2.log = sentPaths w.log ++ repeated sent ++ List.replicate n path) := by
  intro r
  rcases hr : r with ⟨_ | a, w'⟩
  · refine ⟨by simp, fun _ => ?_⟩
    have hcut : method.handle (doGet env policy true) w = (none, w') := by
      rw [← perform_eq_handle]
      exact hr
    obtain ⟨t, path, w1, hasks, hrun, hnone⟩ := Program.handle_eq_none hcut
    have hrun := answeredRun_of_answers hmax hrun
    have hend : GetEnd env policy w1 path _ _ := doGet_answered hmax
    rw [hnone] at hend
    obtain ⟨n, hsince, hretried, hle⟩ := hend.2 rfl
    obtain ⟨sent, hpaths, hsent, hlog⟩ := hrun.sent
    refine ⟨t, sent, path, n, w1, hasks, hrun, hsince, hretried, hle, hpaths, hsent, ?_⟩
    rw [hsince.sent, hlog]
  · refine ⟨?_, by simp⟩
    rintro _ ⟨rfl⟩
    obtain ⟨t, hruns, hrun⟩ := perform_run hmax hr
    obtain ⟨sent, hpaths, hsent, hlog⟩ := hrun.sent
    exact ⟨t, sent, hruns, hrun, hpaths, hsent, hlog⟩

/-- A service that is down: the answer of `do_get` for a station is the outcome of the third of
    three requests, and the error of the method is made of it. -/
theorem perform_answered_unavailable :
    let env : Env :=
      { sys := fun _ => 0, steady := fun n => n, transport := fun _ _ => .ok ⟨503, [], []⟩,
        retryDelay := fun _ => 200, turns := 1 }
    let method : Client (Result Unit) :=
      getSingle (fun _ => none) (fun _ => .ok ()) .stations (bytes "X")
    ∃ w', perform (doGet env {} true) method (newWorld env {}) =
        (some (.error (Error.fromResponse (fun _ => none) 503 [])), w') ∧
      Answered env {} (newWorld env {}) (bytes "/stations/X") w' (.ok ⟨503, [], []⟩) ∧
      sentPaths w'.log = [bytes "/stations/X", bytes "/stations/X", bytes "/stations/X"] := by
  intro env method
  have hretry : shouldRetry (.ok ⟨503, [], []⟩) {} = true := rfl
  obtain ⟨w1, hfirst, hlimiter1, hreadings1, -, hlog1⟩ :=
    @withRetryFrom_granted env {} 1 (newWorld env {}) _ _ (bytes "/stations/X") _ _ rfl rfl
      (by decide) rfl rfl (show RateLimiter.tryAcquire _ _ _ = (true, limiterLeft 4 4 1) by decide)
      hretry (by decide)
  obtain ⟨w2, hsecond, hlimiter2, hreadings2, -, hlog2⟩ :=
    @withRetryFrom_granted env {} (1 + 1) w1 _ _ (bytes "/stations/X") _ _ hlimiter1 hreadings1
      (by decide) rfl rfl (show RateLimiter.tryAcquire _ _ _ = (true, limiterLeft 3 4 2) by decide)
      hretry (by decide)
  have hget : ∃ w', doGet env {} true (bytes "/stations/X") (newWorld env {}) =
        (some (.ok ⟨503, [], []⟩), w') ∧
      sentPaths w'.log = [bytes "/stations/X", bytes "/stations/X", bytes "/stations/X"] := by
    have hthird : attemptGet env (bytes "/stations/X") w2 = (some _, _) :=
      attemptGet_granted hlimiter2 hreadings2 (by decide) rfl rfl
        (show RateLimiter.tryAcquire _ _ _ = (true, limiterLeft 2 4 3) by decide)
    refine ⟨_, hfirst.trans (hsecond.trans (withRetryFrom_done (by decide) hthird (by decide))), ?_⟩
    rw [sentPaths_granted, hlog2, hlog1]
    rfl
  obtain ⟨w', hget, hlog⟩ := hget
  have hmethod : perform (doGet env {} true) method (newWorld env {}) =
      (some (.error (Error.fromResponse (fun _ => none) 503 [])), w') := by
    change Exec.bind (doGet env {} true (bytes "/stations/X")) _ (newWorld env {}) = _
    rw [Exec.bind, hget]
    rfl
  obtain ⟨hend, -⟩ := @perform_answered env _ {} (by decide) method (newWorld env {})
  rw [hmethod] at hend
  obtain ⟨t, sent, hruns, hrun, -⟩ := hend _ rfl
  have hasks : method = Program.perform (bytes "/stations/X") >>= fun response =>
      pure (finish (fun _ => none) (parseSingleResponse fun _ => .ok ()) response) := rfl
  rw [hasks, Program.runs_perform_bind] at hruns
  obtain ⟨answer, t', rfl, rfl, hanswer⟩ := hruns
  refine ⟨w', hmethod, ?_, hlog⟩
  cases hrun with
  | cons hanswered hnil =>
    cases hnil
    have hanswered : Answered env {} (newWorld env {}) (bytes "/stations/X") w' answer := hanswered
    cases hanswered with
    | sent hsince hretried hlt hlast => exact .sent hsince hretried hlt hlast
    | refused _ _ _ hrefusal =>
      -- the error would be that of the client
      cases hrefusal <;> cases hanswer

end NceiCpp.Api
