import NceiCpp.Api.CdoRetries

/-!
# The attempts of one `do_get`

What one `do_get` adds to the log, attempt by attempt. An attempt starts with a check of the
quota. Where nothing is left it ends there, and so does the `do_get`; otherwise it waits until
it acquires, and sends one request directly behind that.

* `attemptGet_attempt`: every attempt is of this kind.
* `doGet_attempts`: a `do_get` is a series of attempts, as many as the policy retries.
* `doGet_log`, `doGet_exhausted`: what follows for its log and its result.
-/

namespace NceiCpp.Api

open Exec NceiCpp.Core

/-! ## The log -/

/-- The UTC day of a successful acquisition. -/
def Event.grantDay : Event → Option ℤ
  | .tryAcquire limiter sys now =>
    if (limiter.tryAcquire sys now).1 then some (floorDays sys) else none
  | _ => none

/-- The event is a successful acquisition. -/
def Event.isGrant (e : Event) : Bool := e.grantDay.isSome

def Event.isGet : Event → Bool
  | .httpGet _ => true
  | _ => false

def gets (log : List Event) : ℕ := log.countP Event.isGet

theorem gets_append (l l' : List Event) : gets (l ++ l') = gets l + gets l' := List.countP_append

theorem gets_singleton (e : Event) : gets [e] = if e.isGet then 1 else 0 := by
  rw [gets, List.countP_singleton]

theorem gets_concat_of_not {log : List Event} {e : Event} (h : e.isGet = false) :
    gets (log ++ [e]) = gets log := by
  rw [gets_append, gets_singleton, h]
  rfl

/-! ## Attempts -/

/-- The check an attempt begins with in the world `w`. -/
def World.check (env : Env) (w : World) : Event :=
  .quotaCheck (env.sys w.readings) (w.limiter.dailyRequestsRemaining (env.sys w.readings))

/-- The quota of the day is used up in the world `w`: the limiter has nothing left. -/
def Exhausted (env : Env) (w : World) : Prop :=
  w.limiter.dailyRequestsRemaining (env.sys w.readings) ≤ 0

/-- What a waiting `acquire` does until it succeeds: attempts that fail, and sleeps. -/
def Event.isWait : Event → Bool
  | .tryAcquire limiter sys now => !(limiter.tryAcquire sys now).1
  | .sleep _ => true
  | _ => false

/-- One attempt from the world `w` on, with what it returned and the world it left. It begins
    with a check, and where that finds nothing it does nothing else. -/
inductive Attempt (env : Env) (path : Bytes) (w : World) :
    Option (Result HttpResponse) → World → Prop
  | exhausted : Exhausted env w →
      Attempt env path w
        (some (.error (Error.quotaExceeded (bytes "CDO daily request quota exceeded"))))
        (checked env w)
  /-- The run was cut in `acquire`. -/
  | cut {w' : World} {waits : List Event} : ¬ Exhausted env w →
      w'.log = w.log ++ w.check env :: waits → (∀ e ∈ waits, e.isWait = true) →
      Attempt env path w none w'
  | timedOut {w' : World} {waits : List Event} : ¬ Exhausted env w →
      w'.log = w.log ++ w.check env :: waits → (∀ e ∈ waits, e.isWait = true) →
      Attempt env path w
        (some (.error (Error.rateLimited (bytes "Rate limit acquisition timed out")))) w'
  | sent {w' : World} {waits : List Event} {granted : Event} : ¬ Exhausted env w →
      w'.log = w.log ++ w.check env :: (waits ++ [granted, .httpGet path]) →
      (∀ e ∈ waits, e.isWait = true) → granted.isGrant = true →
      Attempt env path w (some (env.transport w.requests path)) w'

/-- The attempts of a `do_get` from the `k`-th on, which starts in the world `w`. The last one
    returned `r` and left `w'`; behind each other one the client slept. -/
inductive Attempts (env : Env) (policy : RetryPolicy) (path : Bytes) :
    ℕ → World → Option (Result HttpResponse) → World → Prop
  | last {k : ℕ} {w w' : World} {r : Option (Result HttpResponse)} :
      attemptGet env path w = (r, w') → Attempt env path w r w' →
      k ≤ policy.maxAttempts.toNat →
      (∀ result, r = some result →
        ¬ (shouldRetry result policy = true ∧ k < policy.maxAttempts.toNat)) →
      Attempts env policy path k w r w'
  | again {k : ℕ} {w w1 w' : World} {result : Result HttpResponse} {ns : ℤ}
      {r : Option (Result HttpResponse)} :
      attemptGet env path w = (some result, w1) → Attempt env path w (some result) w1 →
      shouldRetry result policy = true → k < policy.maxAttempts.toNat →
      Attempts env policy path (k + 1) { w1 with log := w1.log ++ [.sleep ns] } r w' →
      Attempts env policy path k w r w'

/-- A check that finds the quota of the day used up. -/
def Event.isExhausted : Event → Bool
  | .quotaCheck _ remaining => remaining ≤ 0
  | _ => false

/-- What one `do_get` that returned `r` added to the log `start`: at most `max_attempts`
    requests; and a check that found the quota used up was the last thing it did, behind
    which it returned the error. -/
def GetLogged (start : List Event) (policy : RetryPolicy) (r : Option (Result HttpResponse))
    (w : World) : Prop :=
  ∃ l, w.log = start ++ l ∧ gets l ≤ policy.maxAttempts.toNat ∧
    ∀ l1 e l2, l = l1 ++ e :: l2 → e.isExhausted = true →
      l2 = [] ∧ r = some (.error (Error.quotaExceeded (bytes "CDO daily request quota exceeded")))

/-! ## One attempt -/

/-- `acquire` was called in the world `w1` and waits in the world `w`. -/
structure Waiting (w1 w : World) : Prop where
  log : ∃ waits, w.log = w1.log ++ waits ∧ ∀ e ∈ waits, e.isWait = true
  requests : w.requests = w1.requests
  config : w.limiter.config = w1.limiter.config

/-- `acquire` was called in the world `w1` and has just succeeded. -/
def Granted (w1 w : World) : Prop :=
  ∃ waits granted, w.log = w1.log ++ (waits ++ [granted]) ∧ (∀ e ∈ waits, e.isWait = true) ∧
    granted.isGrant = true ∧ w.requests = w1.requests

variable {env : Env} {w1 : World}

theorem Waiting.concat {w w' : World} (h : Waiting w1 w) {e : Event} (he : e.isWait = true)
    (hlog : w'.log = w.log ++ [e]) (hrequests : w'.requests = w.requests)
    (hconfig : w'.limiter.config = w.limiter.config) : Waiting w1 w' := by
  obtain ⟨⟨waits, hw, hwaits⟩, hreq, hcfg⟩ := h
  refine ⟨⟨waits ++ [e], by rw [hlog, hw, List.append_assoc], ?_⟩, hrequests.trans hreq,
    hconfig.trans hcfg⟩
  exact List.forall_mem_append.mpr ⟨hwaits, List.forall_mem_singleton.mpr he⟩

theorem tryAcquire_waits : Triple (Waiting w1) (tryAcquire env) fun r w =>
    (r = some true → Granted w1 w) ∧ (r ≠ some true → Waiting w1 w) := by
  refine Triple.act fun w hw => ?_
  dsimp only
  cases hgranted :
      (w.limiter.tryAcquire (env.sys w.readings) (env.steady (w.readings + 1))).1 with
  | true =>
    refine ⟨fun _ => ?_, by simp⟩
    obtain ⟨⟨waits, hlog, hwaits⟩, hrequests, -⟩ := hw
    refine ⟨waits, .tryAcquire w.limiter (env.sys w.readings) (env.steady (w.readings + 1)), ?_,
      hwaits, ?_, hrequests⟩
    · rw [hlog, List.append_assoc]
    · simp [Event.isGrant, Event.grantDay, hgranted]
  | false =>
    refine ⟨by simp, fun _ => hw.concat ?_ rfl rfl (tryAcquire_config _ _ _)⟩
    simp [Event.isWait, hgranted]

theorem acquire_waits : Triple (Waiting w1) (acquire env)
    (AcquireEnd (Waiting w1) (Granted w1) w1.limiter.config.maxWait) :=
  acquire_triple tryAcquire_waits (fun _ => Triple.act fun _ hw => hw.concat rfl rfl rfl rfl)
    (Triple.act fun _ hw => ⟨hw.log, hw.requests, hw.config⟩)
    fun w hw hwait => by rwa [← hw.config]

theorem dailyRequestsRemaining_eq (w : World) :
    dailyRequestsRemaining env w =
      (some (w.limiter.dailyRequestsRemaining (env.sys w.readings)), checked env w) := rfl

theorem attemptGet_exhausted (path : Bytes) {w : World} (h : Exhausted env w) :
    attemptGet env path w =
      (some (.error (Error.quotaExceeded (bytes "CDO daily request quota exceeded"))),
        checked env w) := by
  rw [Exhausted] at h
  unfold attemptGet
  rw [bind_some (dailyRequestsRemaining_eq w), if_pos h]
  rfl

theorem attemptGet_attempt (path : Bytes) (w : World) :
    Attempt env path w (attemptGet env path w).1 (attemptGet env path w).2 := by
  by_cases hexhausted : Exhausted env w
  · rw [attemptGet_exhausted path hexhausted]
    exact .exhausted hexhausted
  have hlog : ∀ {w' : World} {l}, w'.log = (checked env w).log ++ l →
      w'.log = w.log ++ w.check env :: l := by
    intro w' l h
    rw [h]
    show w.log ++ [w.check env] ++ l = _
    rw [List.append_assoc, List.singleton_append]
  have hstart : Waiting (checked env w) (checked env w) :=
    ⟨⟨[], (List.append_nil _).symm, by simp⟩, rfl, rfl⟩
  have hend : AcquireEnd (Waiting (checked env w)) (Granted (checked env w)) _
      (acquire env (checked env w)).1 (acquire env (checked env w)).2 := acquire_waits _ hstart
  have hleft := hexhausted
  rw [Exhausted] at hleft
  unfold attemptGet
  rw [bind_some (dailyRequestsRemaining_eq w), if_neg hleft]
  rcases hacquire : acquire env (checked env w) with ⟨r, w2⟩
  rw [hacquire] at hend
  obtain ⟨hgranted, hwaiting, -⟩ := hend
  rcases r with _ | _ | _
  · rw [bind_none hacquire]
    obtain ⟨waits, hw2, hwaits⟩ := (hwaiting (by simp)).log
    exact .cut hexhausted (hlog hw2) hwaits
  · rw [bind_some hacquire]
    obtain ⟨waits, hw2, hwaits⟩ := (hwaiting (by simp)).log
    exact .timedOut hexhausted (hlog hw2) hwaits
  · rw [bind_some hacquire]
    obtain ⟨waits, granted, hw2, hwaits, hgrant, hrequests⟩ := hgranted rfl
    have hsent : (httpGet env path w2).2.log =
        (checked env w).log ++ (waits ++ [granted, .httpGet path]) := by
      show w2.log ++ [_] = _
      rw [hw2]
      simp
    have hresult : (httpGet env path w2).1 = some (env.transport w.requests path) := by
      show some (env.transport w2.requests path) = _
      rw [hrequests]
      rfl
    show Attempt env path w (httpGet env path w2).1 (httpGet env path w2).2
    rw [hresult]
    exact .sent hexhausted (hlog hsent) hwaits hgrant

theorem gets_waits {waits : List Event} (h : ∀ e ∈ waits, e.isWait = true) : gets waits = 0 := by
  rw [gets, List.countP_eq_zero]
  intro e he hget
  have hwait := h e he
  cases e <;> simp [Event.isWait, Event.isGet] at hwait hget

theorem not_exhausted_of_isWait {e : Event} (h : e.isWait = true) : e.isExhausted = false := by
  cases e <;> simp [Event.isWait, Event.isExhausted] at h ⊢

theorem World.check_isExhausted (env : Env) (w : World) :
    (w.check env).isExhausted = true ↔ Exhausted env w := by
  simp [World.check, Event.isExhausted, Exhausted]

/-- An attempt adds its check, at most one request, and no other check. Where the check finds
    nothing, it is all that was added. -/
theorem Attempt.log {path : Bytes} {w w' : World} {r : Option (Result HttpResponse)}
    (h : Attempt env path w r w') :
    ∃ l, w'.log = w.log ++ w.check env :: l ∧ gets l ≤ 1 ∧ (∀ e ∈ l, e.isExhausted = false) ∧
      (Exhausted env w → l = [] ∧
        r = some (.error (Error.quotaExceeded (bytes "CDO daily request quota exceeded")))) := by
  cases h with
  | exhausted hexhausted => exact ⟨[], rfl, Nat.zero_le _, by simp, fun _ => ⟨rfl, rfl⟩⟩
  | cut hnot hlog hwaits | timedOut hnot hlog hwaits =>
    refine ⟨_, hlog, ?_, fun e he => not_exhausted_of_isWait (hwaits e he),
      fun h => absurd h hnot⟩
    rw [gets_waits hwaits]
    exact Nat.zero_le 1
  | @sent _ waits granted hnot hlog hwaits hgrant =>
    -- a grant is a `tryAcquire`, so it is neither a request nor a check
    have hevent : granted.isGet = false ∧ granted.isExhausted = false := by
      cases granted <;>
        simp [Event.isGrant, Event.grantDay, Event.isGet, Event.isExhausted] at hgrant ⊢
    refine ⟨_, hlog, ?_, ?_, fun h => absurd h hnot⟩
    · have hsplit : waits ++ [granted, .httpGet path] = waits ++ [granted] ++ [.httpGet path] := by
        simp
      rw [hsplit, gets_append, gets_concat_of_not hevent.1, gets_waits hwaits]
      exact le_rfl
    · refine List.forall_mem_append.mpr
        ⟨fun e he => not_exhausted_of_isWait (hwaits e he), ?_⟩
      exact List.forall_mem_cons.mpr ⟨hevent.2, List.forall_mem_singleton.mpr rfl⟩

/-! ## The series -/

/-- A refusal for want of quota is not tried again. -/
theorem quotaExceeded_not_retried (what : Bytes) (policy : RetryPolicy) :
    shouldRetry (.error (Error.quotaExceeded what)) policy = false := by
  simp [shouldRetry, shouldRetryError, Error.quotaExceeded]

theorem withRetryFrom_attempts (policy : RetryPolicy) (path : Bytes) {a : UInt8}
    (ha : a ≤ policy.maxAttempts) (w : World) :
    let r := withRetryFrom (attemptGet env path)
      (fun attempt => sleepNs (env.retryDelay attempt * nsPerMs)) policy a w
    Attempts env policy path a.toNat w r.1 r.2 := by
  induction hn : policy.maxAttempts.toNat - a.toNat using Nat.strong_induction_on
    generalizing a w with
  | _ n ih =>
    intro r
    have hattempt := @attemptGet_attempt env path w
    have hle := UInt8.le_iff_toNat_le.mp ha
    rcases hop : attemptGet env path w with ⟨_ | result, w1⟩
    · have hr : r = (none, w1) := by
        show withRetryFrom _ _ _ _ _ = _
        rw [withRetryFrom, if_pos ha, bind_none hop]
      rw [hop] at hattempt
      rw [hr]
      exact .last hop hattempt hle (by simp)
    · rw [hop] at hattempt
      by_cases hretry : shouldRetry result policy = true ∧ a < policy.maxAttempts
      · have hlt := UInt8.lt_iff_toNat_lt.mp hretry.2
        have hsucc := toNat_succ hretry.2
        have hrest := ih _ (by omega) (a := a + 1)
          (UInt8.le_iff_toNat_le.mpr (by omega))
          { w1 with log := w1.log ++ [.sleep (env.retryDelay a * nsPerMs)] } rfl
        have hr : r = _ := withRetryFrom_again hop hretry.1 hretry.2 rfl
        rw [hsucc] at hrest
        rw [hr]
        exact .again hop hattempt hretry.1 hlt hrest
      · have hr : r = _ := withRetryFrom_done ha hop hretry
        rw [UInt8.lt_iff_toNat_lt] at hretry
        rw [hr]
        refine .last hop hattempt hle ?_
        rintro _ ⟨rfl⟩
        exact hretry

theorem doGet_attempts (policy : RetryPolicy) (hmax : 0 < policy.maxAttempts.toNat) (path : Bytes)
    (w : World) :
    Attempts env policy path 1 w (doGet env policy true path w).1
      (doGet env policy true path w).2 :=
  withRetryFrom_attempts policy path (a := 1) (UInt8.le_iff_toNat_le.mpr hmax) w

/-- An entry of two lists is in the first one, or the second one ends with it and what follows. -/
theorem mem_or_of_append_eq {α : Type} {l l' l1 l2 : List α} {x : α}
    (h : l ++ l' = l1 ++ x :: l2) : x ∈ l ∨ ∃ l3, l' = l3 ++ x :: l2 := by
  rcases List.append_eq_append_iff.mp h with ⟨l3, -, hl'⟩ | ⟨l3, hl, hl'⟩
  · exact .inr ⟨l3, hl'⟩
  · rcases l3 with _ | ⟨y, l3⟩
    · exact .inr ⟨[], hl'.symm⟩
    · obtain ⟨rfl, -⟩ := List.cons.inj hl'
      exact .inl (by simp [hl])

/-- What the attempts from the `k`-th on add to the log. -/
theorem Attempts.log {policy : RetryPolicy} {path : Bytes} {k : ℕ} {w w' : World}
    {r : Option (Result HttpResponse)} (h : Attempts env policy path k w r w') :
    ∃ l, w'.log = w.log ++ l ∧ gets l + k ≤ policy.maxAttempts.toNat + 1 ∧
      ∀ l1 e l2, l = l1 ++ e :: l2 → e.isExhausted = true →
        l2 = [] ∧
          r = some (.error (Error.quotaExceeded (bytes "CDO daily request quota exceeded"))) := by
  induction h with
  | @last k w w' r _ hattempt hk _ =>
    obtain ⟨l, hlog, hgets, hnone, hrefused⟩ := hattempt.log
    refine ⟨w.check env :: l, hlog, ?_, ?_⟩
    · rw [← List.singleton_append, gets_append, show gets [w.check env] = 0 from rfl]
      omega
    · intro l1 e l2 heq he
      rcases l1 with _ | ⟨c, l1⟩
      · obtain ⟨rfl, rfl⟩ := List.cons.inj heq
        exact hrefused ((World.check_isExhausted env w).mp he)
      · have hmem : e ∈ l := by
          rw [(List.cons.inj heq).2]
          simp
        rw [hnone e hmem] at he
        cases he
  | @again k w w1 w' result ns r _ hattempt hretry hk _ ih =>
    obtain ⟨l, hlog, hgets, hnone, hrefused⟩ := hattempt.log
    obtain ⟨rest, hrest, hgets', hlast⟩ := ih
    have hcheck : (w.check env).isExhausted = false := by
      by_contra hexhausted
      obtain ⟨-, hresult⟩ := hrefused
        ((World.check_isExhausted env w).mp (Bool.not_eq_false _ ▸ hexhausted))
      rw [Option.some.inj hresult, quotaExceeded_not_retried] at hretry
      cases hretry
    refine ⟨w.check env :: l ++ [.sleep ns] ++ rest, ?_, ?_, ?_⟩
    · rw [hrest]
      show w1.log ++ [.sleep ns] ++ rest = _
      rw [hlog]
      simp
    · rw [gets_append, gets_concat_of_not rfl, ← List.singleton_append, gets_append,
        show gets [w.check env] = 0 from rfl]
      omega
    · intro l1 e l2 heq he
      rcases mem_or_of_append_eq heq with hmem | ⟨l3, hl3⟩
      · have hfresh : ∀ e ∈ w.check env :: l ++ [.sleep ns], e.isExhausted = false := by
          refine List.forall_mem_append.mpr ⟨List.forall_mem_cons.mpr ⟨hcheck, hnone⟩, ?_⟩
          exact List.forall_mem_singleton.mpr rfl
        rw [hfresh e hmem] at he
        cases he
      · exact hlast l3 e l2 hl3 he

/-- What one `do_get` adds to the log. -/
theorem doGet_log (policy : RetryPolicy) (initialized : Bool) (path : Bytes) (w : World) :
    GetLogged w.log policy (doGet env policy initialized path w).1
      (doGet env policy initialized path w).2 := by
  have hnothing : ∀ r, GetLogged w.log policy r w :=
    fun r => ⟨[], (List.append_nil _).symm, Nat.zero_le _, by simp⟩
  cases initialized with
  | false => exact hnothing _
  | true =>
    rcases Nat.eq_zero_or_pos policy.maxAttempts.toNat with hmax | hmax
    · rw [doGet_noAttempts hmax]
      exact hnothing _
    · obtain ⟨l, hlog, hgets, hlast⟩ := (doGet_attempts policy hmax path w).log
      exact ⟨l, hlog, by omega, hlast⟩

/-- A `do_get` that starts when the quota of the day is used up: the check is all it does. -/
theorem doGet_exhausted {policy : RetryPolicy} (hmax : 0 < policy.maxAttempts.toNat)
    (path : Bytes) {w : World} (h : Exhausted env w) :
    doGet env policy true path w =
      (some (.error (Error.quotaExceeded (bytes "CDO daily request quota exceeded"))),
        checked env w) := by
  refine withRetryFrom_done (UInt8.le_iff_toNat_le.mpr hmax) (attemptGet_exhausted path h) ?_
  rw [quotaExceeded_not_retried]
  simp

end NceiCpp.Api
