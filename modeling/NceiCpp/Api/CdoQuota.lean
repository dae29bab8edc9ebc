import NceiCpp.Api.CdoAttempts

/-!
# The quota over the runs of a client

Every request is paid for, and no day has more acquisitions than the daily limit. The
invariant links the counter of the limiter with the acquisitions in the log:
`daily_requests_used_` counts those of `day_start_`, there are none of a later day, and
no later reading of the system clock is of an earlier day.

* `attemptGet_keeps`, `doGet_keeps`, `runCalls_keeps`: the invariant along a run.
* `runCalls_quotaSafe`: what follows for the log of every run.
-/

namespace NceiCpp.Api

open Interaction Exec NceiCpp.Core NceiCpp.Models

/-! ## The log -/

/-- The acquisitions on the day `d`. -/
def grantsOn (d : ℤ) (log : List Event) : ℕ := log.countP fun e => e.grantDay = some d

def grants (log : List Event) : ℕ := log.countP Event.isGrant

/-- What holds of the log of a client with the daily limit `limit`. -/
structure QuotaSafe (limit : Int32) (log : List Event) : Prop where
  /-- At most `limit` acquisitions a day. -/
  quota : ∀ d, (grantsOn d log : ℤ) ≤ limit.toInt
  /-- A request comes directly behind an acquisition, and all acquisitions before that one
      were for earlier requests. -/
  paid : ∀ l1 path l2, log = l1 ++ .httpGet path :: l2 →
    ∃ l0 e, l1 = l0 ++ [e] ∧ e.isGrant = true ∧ grants l0 = gets l0
  /-- A check reports what is left of the day's quota. -/
  checks : ∀ l1 sys remaining l2, log = l1 ++ .quotaCheck sys remaining :: l2 →
    remaining = max (limit.toInt - grantsOn (floorDays sys) l1) 0
  /-- No attempt fails on the daily limit; one that fails has found no token. -/
  tries : ∀ limiter sys now, .tryAcquire limiter sys now ∈ log →
    ¬ (limiter.checkDailyReset sys).QuotaReached ∧
      ((limiter.tryAcquire sys now).1 = false →
        ((limiter.checkDailyReset sys).refill now).tokens = 0)

/-- An event of a longer log is the last one or one of the log before. -/
theorem append_singleton_eq {α : Type} {l l1 l2 : List α} {x y : α}
    (h : l ++ [x] = l1 ++ y :: l2) :
    (l = l1 ∧ x = y ∧ l2 = []) ∨ ∃ l2', l = l1 ++ y :: l2' := by
  rcases List.eq_nil_or_concat' l2 with rfl | ⟨l2', z, rfl⟩
  · obtain ⟨h1, h2⟩ := List.append_inj' h rfl
    exact .inl ⟨h1, (List.cons.inj h2).1, rfl⟩
  · rw [← List.cons_append, ← List.append_assoc] at h
    exact .inr ⟨l2', (List.append_inj' h rfl).1⟩

theorem grantsOn_append (d : ℤ) (l l' : List Event) :
    grantsOn d (l ++ l') = grantsOn d l + grantsOn d l' := List.countP_append

theorem grants_append (l l' : List Event) : grants (l ++ l') = grants l + grants l' :=
  List.countP_append

theorem grantsOn_singleton (d : ℤ) (e : Event) :
    grantsOn d [e] = if e.grantDay = some d then 1 else 0 := by
  rw [grantsOn, List.countP_singleton]
  simp

theorem grants_singleton (e : Event) : grants [e] = if e.isGrant then 1 else 0 := by
  rw [grants, List.countP_singleton]

/-- A safe log stays safe when a safe event is added. -/
theorem QuotaSafe.append {limit : Int32} {log : List Event} (h : QuotaSafe limit log) {e : Event}
    (hquota : ∀ d, e.grantDay = some d → (grantsOn d log : ℤ) < limit.toInt)
    (hpaid : e.isGet = true →
      ∃ l0 g, log = l0 ++ [g] ∧ g.isGrant = true ∧ grants l0 = gets l0)
    (hchecks : ∀ sys remaining, e = .quotaCheck sys remaining →
      remaining = max (limit.toInt - grantsOn (floorDays sys) log) 0)
    (htries : ∀ limiter sys now, e = .tryAcquire limiter sys now →
      ¬ (limiter.checkDailyReset sys).QuotaReached) : QuotaSafe limit (log ++ [e]) where
  quota := by
    intro d
    have hd := h.quota d
    rw [grantsOn_append, grantsOn_singleton]
    split_ifs with hday
    · have := hquota d hday
      push_cast
      omega
    · simpa using hd
  paid := by
    intro l1 path l2 heq
    rcases append_singleton_eq heq with ⟨rfl, rfl, -⟩ | ⟨l2', heq'⟩
    · exact hpaid rfl
    · exact h.paid l1 path l2' heq'
  checks := by
    intro l1 sys remaining l2 heq
    rcases append_singleton_eq heq with ⟨rfl, rfl, -⟩ | ⟨l2', heq'⟩
    · exact hchecks sys remaining rfl
    · exact h.checks l1 sys remaining l2' heq'
  tries := by
    intro limiter sys now hmem
    rcases List.mem_append.mp hmem with hmem | hmem
    · exact h.tries limiter sys now hmem
    · have hnot := htries limiter sys now (List.mem_singleton.mp hmem).symm
      exact ⟨hnot, RateLimiter.tokens_eq_zero_of_not hnot⟩

theorem QuotaSafe.nil {limit : Int32} (h : 0 < limit.toInt) : QuotaSafe limit [] where
  quota := by
    intro d
    simp only [grantsOn, List.countP_nil, Nat.cast_zero]
    omega
  paid := by
    intro l1 path l2 heq
    simp at heq
  checks := by
    intro l1 sys remaining l2 heq
    simp at heq
  tries := by simp

/-! ## The invariant -/

variable {env : Env}

/-- The limiter and the log agree; the log is safe. -/
structure Sound (env : Env) (limit : Int32) (w : World) : Prop where
  limit_eq : w.limiter.config.dailyLimit = limit
  day_le : ∀ n, w.readings ≤ n → w.limiter.dayStart ≤ floorDays (env.sys n)
  used_eq : w.limiter.dailyRequestsUsed = grantsOn w.limiter.dayStart w.log
  later : ∀ d, w.limiter.dayStart < d → grantsOn d w.log = 0
  safe : QuotaSafe limit w.log

/-- Every acquisition was used for a request. -/
def Balanced (w : World) : Prop := grants w.log = gets w.log

/-- There is one acquisition that was not used yet; it was just made. -/
def Pending (w : World) : Prop :=
  ∃ l0 e, w.log = l0 ++ [e] ∧ e.isGrant = true ∧ grants l0 = gets l0

/-- Whenever the clock is read next, the quota of that day is not used up. -/
def Headroom (env : Env) (limit : Int32) (w : World) : Prop :=
  ∀ n, w.readings ≤ n → (grantsOn (floorDays (env.sys n)) w.log : ℤ) < limit.toInt

theorem floorDays_mono {a b : ℤ} (h : a ≤ b) : floorDays a ≤ floorDays b :=
  Int.ediv_le_ediv (by decide) h

/-- The limiter behind `check_daily_reset` counts the acquisitions of the day it is. -/
theorem Sound.checkDailyReset {limit : Int32} {w : World} (h : Sound env limit w) {n : ℕ}
    (hn : w.readings ≤ n) :
    (w.limiter.checkDailyReset (env.sys n)).dayStart = floorDays (env.sys n) ∧
      (w.limiter.checkDailyReset (env.sys n)).dailyRequestsUsed =
        grantsOn (floorDays (env.sys n)) w.log := by
  have hle := h.day_le n hn
  unfold RateLimiter.checkDailyReset
  dsimp only
  split_ifs with hlt
  · exact ⟨rfl, by rw [h.later _ hlt]; rfl⟩
  · have heq : floorDays (env.sys n) = w.limiter.dayStart := by omega
    rw [heq]
    exact ⟨rfl, h.used_eq⟩

theorem Sound.dailyRequestsRemaining {limit : Int32} (hlimit : 0 < limit.toInt) {w : World}
    (h : Sound env limit w) {n : ℕ} (hn : w.readings ≤ n) :
    w.limiter.dailyRequestsRemaining (env.sys n) =
      max (limit.toInt - grantsOn (floorDays (env.sys n)) w.log) 0 := by
  have hle := h.day_le n hn
  have hzero : (0 : Int32).toInt = 0 := rfl
  unfold RateLimiter.dailyRequestsRemaining
  rw [h.limit_eq, if_neg (by rw [Int32.le_iff_toInt_le, hzero]; omega)]
  split_ifs with h2
  · rw [h.later _ h2]
    simp
    omega
  · have heq : floorDays (env.sys n) = w.limiter.dayStart := by omega
    rw [heq, h.used_eq]

/-- Where there is headroom, the limiter does not refuse on the quota. -/
theorem Sound.not_quotaReached {limit : Int32} {w : World} (h : Sound env limit w)
    (hroom : Headroom env limit w) :
    ¬ (w.limiter.checkDailyReset (env.sys w.readings)).QuotaReached := by
  intro hquota
  obtain ⟨-, hused⟩ := h.checkDailyReset le_rfl
  have hlt := hroom w.readings le_rfl
  have hge := hquota.2
  rw [hused, RateLimiter.checkDailyReset_config, h.limit_eq] at hge
  omega

/-! ## The steps of `do_get` -/

theorem grants_concat_of_not {log : List Event} {e : Event} (h : e.isGrant = false) :
    grants (log ++ [e]) = grants log := by
  rw [grants_append, grants_singleton, h]
  rfl

theorem grantsOn_concat_of_not {log : List Event} {e : Event} (h : e.grantDay = none) (d : ℤ) :
    grantsOn d (log ++ [e]) = grantsOn d log := by
  rw [grantsOn_append, grantsOn_singleton, h]
  rfl

/-- An event that is neither an acquisition nor a request changes no count. -/
theorem Sound.concat {limit : Int32} {w w' : World} (h : Sound env limit w) {e : Event}
    (hlimiter : w'.limiter = w.limiter) (hreadings : w.readings ≤ w'.readings)
    (hlog : w'.log = w.log ++ [e]) (hday : e.grantDay = none)
    (hsafe : QuotaSafe limit (w.log ++ [e])) : Sound env limit w' where
  limit_eq := by rw [hlimiter, h.limit_eq]
  day_le := by
    intro n hn
    rw [hlimiter]
    exact h.day_le n (hreadings.trans hn)
  used_eq := by rw [hlimiter, hlog, grantsOn_concat_of_not hday, h.used_eq]
  later := by
    intro d hd
    rw [hlimiter] at hd
    rw [hlog, grantsOn_concat_of_not hday, h.later d hd]
  safe := hlog ▸ hsafe

variable {limit : Int32}

/-- What holds between two requests. -/
def Idle (env : Env) (limit : Int32) (w : World) : Prop := Sound env limit w ∧ Balanced w

theorem sleepNs_keeps (ns : ℤ) :
    Triple (Idle env limit) (sleepNs ns) fun _ => Idle env limit := by
  refine Triple.act fun w ⟨hs, hb⟩ =>
    ⟨hs.concat rfl le_rfl rfl rfl (hs.safe.append ?_ ?_ ?_ ?_), ?_⟩
  · simp [Event.grantDay]
  · simp [Event.isGet]
  · simp
  · simp
  · show grants (w.log ++ [_]) = gets (w.log ++ [_])
    rw [grants_concat_of_not rfl, gets_concat_of_not rfl]
    exact hb

theorem dailyRequestsRemaining_keeps (hlimit : 0 < limit.toInt) (hsys : Monotone env.sys) :
    Triple (Idle env limit) (dailyRequestsRemaining env)
      fun r w => Idle env limit w ∧
        ∀ remaining, r = some remaining → 0 < remaining → Headroom env limit w := by
  refine Triple.act fun w ⟨hs, hb⟩ => ?_
  have hremaining := hs.dailyRequestsRemaining hlimit (le_refl w.readings)
  refine ⟨⟨hs.concat rfl (Nat.le_succ _) rfl rfl (hs.safe.append ?_ ?_ ?_ ?_), ?_⟩, ?_⟩
  · simp [Event.grantDay]
  · simp [Event.isGet]
  · rintro sys remaining ⟨⟩
    exact hremaining
  · simp
  · show grants (w.log ++ [_]) = gets (w.log ++ [_])
    rw [grants_concat_of_not rfl, gets_concat_of_not rfl]
    exact hb
  · rintro remaining ⟨⟩ hpos n hn
    have hpos : 0 < w.limiter.dailyRequestsRemaining (env.sys w.readings) := hpos
    have hn : w.readings + 1 ≤ n := hn
    show (grantsOn (floorDays (env.sys n)) (w.log ++ [_]) : ℤ) < _
    rw [grantsOn_concat_of_not rfl]
    rw [hremaining] at hpos
    have hday := floorDays_mono (hsys (show w.readings ≤ n by omega))
    rcases hday.eq_or_lt with heq | hlt
    · rw [← heq]
      omega
    · rw [hs.later _ ((hs.day_le _ le_rfl).trans_lt hlt)]
      simpa using hlimit

/-- A successful attempt is one more acquisition on its day. -/
theorem grantsOn_concat_attempt (d : ℤ) (log : List Event) (limiter : RateLimiter) (sys now : ℤ) :
    grantsOn d (log ++ [.tryAcquire limiter sys now]) =
      grantsOn d log +
        if (limiter.tryAcquire sys now).1 = true ∧ d = floorDays sys then 1 else 0 := by
  rw [grantsOn_append, grantsOn_singleton, Event.grantDay]
  cases (limiter.tryAcquire sys now).1 <;> simp [eq_comm]

/-- An attempt with headroom keeps the counts, whether it succeeds or not. -/
theorem Sound.attempt (hsys : Monotone env.sys) {w w' : World} (hs : Sound env limit w)
    (hroom : Headroom env limit w) {sys now : ℤ} (hsysdef : sys = env.sys w.readings)
    (hlimiter : w'.limiter = (w.limiter.tryAcquire sys now).2)
    (hreadings : w'.readings = w.readings + 2)
    (hlog : w'.log = w.log ++ [.tryAcquire w.limiter sys now]) : Sound env limit w' := by
  subst hsysdef
  have hnot := hs.not_quotaReached hroom
  obtain ⟨hday, hused⟩ := hs.checkDailyReset (le_refl w.readings)
  have hlt := hroom w.readings le_rfl
  have hmax := limit.toInt_lt
  have hpast := hs.day_le w.readings le_rfl
  obtain ⟨hconfig, hday', hfail, hgrant⟩ := RateLimiter.tryAcquire_counts hnot now
  have hcount := fun d => grantsOn_concat_attempt d w.log w.limiter (env.sys w.readings) now
  rw [hday, ← hlimiter] at hday'
  rw [hused, ← hlimiter] at hfail hgrant
  rw [← hlimiter] at hconfig
  constructor
  · rw [hconfig, hs.limit_eq]
  · intro n hn
    rw [hreadings] at hn
    rw [hday']
    exact floorDays_mono (hsys (by omega))
  · rw [hday', hlog, hcount]
    cases hgranted : (w.limiter.tryAcquire (env.sys w.readings) now).1 with
    | false => simpa using hfail hgranted
    | true => simpa using hgrant hgranted (by unfold int32Max; omega)
  · intro d hd
    rw [hday'] at hd
    rw [hlog, hcount, hs.later d (by omega), if_neg (by omega)]
  · rw [hlog]
    apply hs.safe.append
    · intro d hd
      rw [Event.grantDay] at hd
      split_ifs at hd
      obtain rfl : floorDays (env.sys w.readings) = d := by simpa using hd
      exact hlt
    · simp [Event.isGet]
    · simp
    · rintro l s' n' ⟨⟩
      exact hnot

theorem tryAcquire_keeps (hsys : Monotone env.sys) :
    Triple (fun w => Idle env limit w ∧ Headroom env limit w) (tryAcquire env)
      fun r w => (r = some true → Sound env limit w ∧ Pending w) ∧
        (r ≠ some true → Idle env limit w ∧ Headroom env limit w) := by
  refine Triple.act fun w ⟨⟨hs, hb⟩, hroom⟩ => ?_
  have hsound : Sound env limit { w with
      limiter := (w.limiter.tryAcquire (env.sys w.readings) (env.steady (w.readings + 1))).2
      readings := w.readings + 2
      log := w.log ++
        [.tryAcquire w.limiter (env.sys w.readings) (env.steady (w.readings + 1))] } :=
    hs.attempt hsys hroom rfl rfl rfl rfl
  dsimp only
  generalize env.sys w.readings = sys at *
  generalize env.steady (w.readings + 1) = now at *
  have hisGrant : (Event.tryAcquire w.limiter sys now).isGrant =
      (w.limiter.tryAcquire sys now).1 := by
    rw [Event.isGrant, Event.grantDay]
    cases (w.limiter.tryAcquire sys now).1 <;> rfl
  constructor
  · intro htrue
    have htrue : (w.limiter.tryAcquire sys now).1 = true := by simpa using htrue
    exact ⟨hsound, w.log, _, rfl, by rw [hisGrant, htrue], hb⟩
  · intro hfalse
    have hfalse : (w.limiter.tryAcquire sys now).1 = false := by simpa using hfalse
    rw [hfalse] at hisGrant
    refine ⟨⟨hsound, ?_⟩, fun n hn => ?_⟩
    · show grants (w.log ++ [_]) = gets (w.log ++ [_])
      rw [grants_concat_of_not hisGrant, gets_concat_of_not rfl]
      exact hb
    · have hn : w.readings + 2 ≤ n := hn
      show (grantsOn _ (w.log ++ [_]) : ℤ) < _
      rw [grantsOn_concat_attempt, hfalse]
      simpa using hroom n (by omega)

/-- What `acquire` ends with: a fresh acquisition, or nothing was acquired. -/
def Acquired (env : Env) (limit : Int32) (r : Option Bool) (w : World) : Prop :=
  (r = some true → Sound env limit w ∧ Pending w) ∧ (r ≠ some true → Idle env limit w)

theorem sleepNs_headroom (ns : ℤ) :
    Triple (fun w => Idle env limit w ∧ Headroom env limit w) (sleepNs ns)
      fun _ w => Idle env limit w ∧ Headroom env limit w := by
  intro w ⟨hidle, hroom⟩
  refine ⟨sleepNs_keeps ns w hidle, fun n hn => ?_⟩
  show (grantsOn _ (w.log ++ [_]) : ℤ) < _
  rw [grantsOn_concat_of_not rfl]
  exact hroom n hn

theorem readSteady_headroom :
    Triple (fun w => Idle env limit w ∧ Headroom env limit w) (readSteady env)
      fun _ w => Idle env limit w ∧ Headroom env limit w := by
  refine Triple.act fun w ⟨⟨hs, hb⟩, hroom⟩ => ⟨⟨?_, hb⟩, ?_⟩
  · exact ⟨hs.limit_eq, fun n hn => hs.day_le n ((Nat.le_succ _).trans hn), hs.used_eq, hs.later,
      hs.safe⟩
  · exact fun n hn => hroom n ((Nat.le_succ _).trans hn)

theorem acquire_keeps (hsys : Monotone env.sys) :
    Triple (fun w => Idle env limit w ∧ Headroom env limit w) (acquire env)
      (Acquired env limit) :=
  (acquire_triple_granted (tryAcquire_keeps hsys) sleepNs_headroom
    readSteady_headroom).consequence (fun _ hw => hw)
      fun _ _ hw => ⟨hw.1, fun hfalse => (hw.2 hfalse).1⟩

/-- A request uses the acquisition that was just made. -/
theorem httpGet_keeps (path : Bytes) :
    Triple (fun w => Sound env limit w ∧ Pending w) (httpGet env path)
      fun _ => Idle env limit := by
  refine Triple.act fun w ⟨hs, hpending⟩ =>
    ⟨hs.concat rfl le_rfl rfl rfl (hs.safe.append ?_ (fun _ => hpending) ?_ ?_), ?_⟩
  · simp [Event.grantDay]
  · simp
  · simp
  · obtain ⟨l0, e, hlog, he, heq⟩ := hpending
    have hget : e.isGet = false := by
      cases e <;> simp_all [Event.isGrant, Event.grantDay, Event.isGet]
    show grants (w.log ++ [_]) = gets (w.log ++ [_])
    rw [grants_concat_of_not rfl, gets_append, hlog, gets_concat_of_not hget, grants_append,
      grants_singleton, if_pos he, heq]
    rfl

theorem attemptGet_keeps (hlimit : 0 < limit.toInt) (hsys : Monotone env.sys) (path : Bytes) :
    Triple (Idle env limit) (attemptGet env path) fun _ => Idle env limit := by
  refine Triple.bind (dailyRequestsRemaining_keeps hlimit hsys) (fun remaining => ?_)
    fun w hw => hw.1
  split_ifs with hremaining
  · exact Triple.pure fun w hw => hw.1
  · refine Triple.bind (Q := Acquired env limit) ((acquire_keeps hsys).of_pre ?_)
      (fun granted => ?_) ?_
    · exact fun w hw => ⟨hw.1, hw.2 remaining rfl (by omega)⟩
    · cases granted with
      | true => exact (httpGet_keeps path).of_pre fun w hw => hw.1 rfl
      | false => exact Triple.pure fun w hw => hw.2 (by simp)
    · exact fun w hw => hw.2 (by simp)

/-- One `do_get` keeps the invariant, with all its retries. -/
theorem doGet_keeps (hlimit : 0 < limit.toInt) (hsys : Monotone env.sys) (policy : RetryPolicy)
    (initialized : Bool) (path : Bytes) :
    Triple (Idle env limit) (doGet env policy initialized path) fun _ => Idle env limit := by
  unfold doGet
  split_ifs
  · exact Triple.pure fun w hw => hw
  · refine withRetryFrom_triple (P := fun _ => Idle env limit) (M := fun _ => Idle env limit)
      (fun a _ => ?_) (fun a => ?_) (fun a w _ hw => hw) 1
    · exact (attemptGet_keeps hlimit hsys path).consequence (fun _ h => h)
        fun r w hw => ⟨fun _ _ _ _ => hw, fun _ => hw⟩
    · exact (sleepNs_keeps _).consequence (fun _ h => h) fun r w hw => ⟨fun _ => hw, fun _ => hw⟩

theorem perform_keeps {α : Type} {get : Bytes → Exec World (Result HttpResponse)}
    {P : World → Prop} (hget : ∀ path, Triple P (get path) fun _ => P) (method : Client α) :
    Triple P (perform get method) fun _ => P := by
  induction method with
  | ret a => exact Triple.pure fun w hw => hw
  | ask path k ih => exact Triple.bind_invariant (hget path) ih

variable {T : Type} {glaze : Glaze} {readers : EntityReaders T}

theorem runCalls_keeps (hlimit : 0 < limit.toInt) (hsys : Monotone env.sys) (policy : RetryPolicy)
    (initialized : Bool) (calls : List Call) :
    Triple (Idle env limit) (runCalls env glaze readers policy initialized calls)
      fun _ => Idle env limit := by
  induction calls with
  | nil => exact Triple.pure fun w hw => hw
  | cons call calls ih =>
    exact Triple.bind_invariant
      (perform_keeps (doGet_keeps hlimit hsys policy initialized) _) fun _ => ih

theorem newWorld_idle {config : RateLimiter.Config} (hlimit : 0 < config.dailyLimit.toInt)
    (hsys : Monotone env.sys) : Idle env config.dailyLimit (newWorld env config) where
  left := {
    limit_eq := rfl
    day_le := fun _ hn => floorDays_mono (hsys ((Nat.le_succ 1).trans hn))
    used_eq := rfl
    later := fun _ _ => rfl
    safe := QuotaSafe.nil hlimit }
  right := rfl

/-- The quota of the day is used up when the day has as many acquisitions as it may have. -/
theorem Sound.exhausted_iff (hlimit : 0 < limit.toInt) {w : World} (h : Sound env limit w) :
    Exhausted env w ↔ (grantsOn (floorDays (env.sys w.readings)) w.log : ℤ) = limit.toInt := by
  have hquota := h.safe.quota (floorDays (env.sys w.readings))
  rw [Exhausted, h.dailyRequestsRemaining hlimit le_rfl]
  omega

/-! ## The result -/

/-- For a client with a positive daily limit and clocks that do not go back: the log of
    every run, complete or cut, is safe, and so is what each `do_get` adds to it. A `do_get`
    is a series of attempts that each begin with a check; from a world in which the quota of
    the day is used up, it returns the error and sends nothing. Behind every run, that is so
    when the day has `daily_limit` acquisitions. -/
theorem runCalls_quotaSafe (env : Env) (hsys : Monotone env.sys) (config : RateLimiter.Config)
    (hlimit : 0 < config.dailyLimit.toInt) (glaze : Glaze) (readers : EntityReaders T)
    (policy : RetryPolicy) (initialized : Bool) (calls : List Call) :
    let w' := (runCalls env glaze readers policy initialized calls (newWorld env config)).2
    QuotaSafe config.dailyLimit w'.log ∧
      (Exhausted env w' ↔
        (grantsOn (floorDays (env.sys w'.readings)) w'.log : ℤ) = config.dailyLimit.toInt) ∧
      (∀ path w, GetLogged w.log policy (doGet env policy initialized path w).1
        (doGet env policy initialized path w).2) ∧
      (initialized = true → 0 < policy.maxAttempts.toNat → ∀ path w,
        Attempts env policy path 1 w (doGet env policy initialized path w).1
            (doGet env policy initialized path w).2 ∧
          (Exhausted env w → doGet env policy initialized path w =
            (some (.error (Error.quotaExceeded (bytes "CDO daily request quota exceeded"))),
              checked env w))) := by
  intro w'
  have hidle : Idle env config.dailyLimit w' :=
    runCalls_keeps hlimit hsys policy initialized calls _ (newWorld_idle hlimit hsys)
  refine ⟨hidle.1.safe, hidle.1.exhausted_iff hlimit, doGet_log policy initialized, ?_⟩
  rintro rfl hmax path w
  exact ⟨doGet_attempts policy hmax path w, doGet_exhausted hmax path⟩

/-- One request a day: of two calls on one day the second one sends no request, since each
    `do_get` behind the first request returns the error. -/
theorem runCalls_quotaSafe_oneADay :
    let env : Env :=
      { sys := fun _ => 0, steady := fun n => n, transport := fun _ _ => .ok ⟨500, [], []⟩,
        retryDelay := fun _ => 0, turns := 4 }
    let glaze : Glaze := ⟨fun _ => none, fun _ => .error []⟩
    let readers : EntityReaders Unit := ⟨fun _ _ => .error [], fun _ _ => .error []⟩
    let start := newWorld env { dailyLimit := 1 }
    QuotaSafe 1 (runCalls env glaze readers {} true
        [.single .stations (bytes "X"), .single .stations (bytes "Y")] start).2.log ∧
      ∀ path, doGet env {} true path (tryAcquire env start).2 =
        (some (.error (Error.quotaExceeded (bytes "CDO daily request quota exceeded"))),
          checked env (tryAcquire env start).2) := by
  intro env glaze readers start
  obtain ⟨hsafe, -, -, hget⟩ := runCalls_quotaSafe env monotone_const { dailyLimit := 1 }
    (by decide) glaze readers {} true [.single .stations (bytes "X"), .single .stations (bytes "Y")]
  refine ⟨hsafe, fun path => (hget rfl (by decide) path _).2 ?_⟩
  show (_ : ℤ) ≤ 0
  decide +kernel

end NceiCpp.Api
