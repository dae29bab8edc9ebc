import NceiCpp.Api.CdoQuota
import NceiCpp.Core.RateLimitCallers

/-!
# The rate of the requests

The client is one of the callers of `RateLimitCallers`, and the only one of its limiter. So
the bound there on the acquisitions is one on the requests, since each has an acquisition of
its own, directly before it: also those of retries and of later pages.

* `tryAcquire_follows`: an attempt of the client is a step of a caller.
* `runCalls_paced`: the requests of every run keep to the rate of the limiter.
-/

namespace NceiCpp.Api

open Interaction Exec CreditRun NceiCpp.Core NceiCpp.Models

/-! ## The times of the acquisitions -/

/-- The reading of the steady clock of a successful acquisition. -/
def Event.grantTime : Event → Option ℤ
  | .tryAcquire limiter sys now => if (limiter.tryAcquire sys now).1 then some now else none
  | _ => none

/-- The times of the acquisitions. -/
def grantTimes (log : List Event) : List ℤ := log.filterMap Event.grantTime

/-- The times of the acquisitions directly before a request; the one before the log, if
    there is one, was at `granted`. -/
def requestTimes : Option ℤ → List Event → List ℤ
  | _, [] => []
  | granted, e :: log =>
    (if e.isGet then granted.toList else []) ++ requestTimes e.grantTime log

theorem grantTimes_append (log log' : List Event) :
    grantTimes (log ++ log') = grantTimes log ++ grantTimes log' := List.filterMap_append

theorem grantTimes_singleton (e : Event) : grantTimes [e] = e.grantTime.toList := by
  rw [grantTimes, List.filterMap_cons]
  cases e.grantTime <;> rfl

/-- Different requests have different acquisitions. -/
theorem requestTimes_sublist (granted : Option ℤ) (log : List Event) :
    (requestTimes granted log).Sublist (granted.toList ++ grantTimes log) := by
  induction log generalizing granted with
  | nil => exact List.nil_sublist _
  | cons e log ih =>
    rw [requestTimes, ← List.singleton_append, grantTimes_append, grantTimes_singleton]
    refine List.Sublist.append ?_ (ih e.grantTime)
    split_ifs
    · exact List.Sublist.refl _
    · exact List.nil_sublist _

/-- The acquisition at the end of a log. -/
def lastGrant (granted : Option ℤ) (log : List Event) : Option ℤ :=
  (log.getLast?).elim granted Event.grantTime

theorem requestTimes_concat (granted : Option ℤ) (log : List Event) (e : Event) :
    requestTimes granted (log ++ [e]) =
      requestTimes granted log ++ if e.isGet then (lastGrant granted log).toList else [] := by
  induction log generalizing granted with
  | nil => simp [requestTimes, lastGrant]
  | cons e' log ih =>
    have hlast : lastGrant granted (e' :: log) = lastGrant e'.grantTime log := by
      rw [lastGrant, List.getLast?_cons, lastGrant]
      cases log.getLast? <;> rfl
    rw [List.cons_append, requestTimes, ih, requestTimes, List.append_assoc, hlast]

/-! ## The client as a caller -/

/-- The time of a step that acquires. -/
def acquiredAt (e : RateLimitCallers.Event Unit) : Option ℤ :=
  if RateLimitCallers.Granted e then some e.now else none

variable {env : Env}

/-- The limiter is that of a run of one caller, whose acquisitions are those of the log; and
    each request in the log has its acquisition. -/
structure Follows (env : Env) (config : RateLimiter.Config) (w : World) : Prop where
  run : ∃ tr s, Run RateLimitCallers.Step
      (RateLimitCallers.start config (env.steady 0) (env.sys 1)) tr s ∧
    s.limiter = w.limiter ∧ s.callers () = .idle ∧ (∀ n, w.readings ≤ n → s.clock ≤ env.steady n) ∧
    (∀ e ∈ tr, e.op ≠ .reset) ∧ tr.filterMap acquiredAt = grantTimes w.log
  paid : (requestTimes none w.log).length = gets w.log

/-- The last thing the client did was to acquire. -/
def JustGranted (w : World) : Prop := (lastGrant none w.log).isSome

variable {config : RateLimiter.Config}

theorem newWorld_follows (hsteady : Monotone env.steady) :
    Follows env config (newWorld env config) :=
  ⟨⟨[], _, .nil, rfl, rfl, fun _ _ => hsteady (Nat.zero_le _), by simp, rfl⟩, rfl⟩

/-- An event that is neither an acquisition nor a request. -/
theorem Follows.concat {w w' : World} (h : Follows env config w) {e : Event}
    (hlimiter : w'.limiter = w.limiter) (hreadings : w.readings ≤ w'.readings)
    (hlog : w'.log = w.log ++ [e]) (hgrant : e.grantTime = none) (hget : e.isGet = false) :
    Follows env config w' := by
  obtain ⟨⟨tr, s, hrun, hs, hidle, hclock, hreset, htimes⟩, hpaid⟩ := h
  refine ⟨⟨tr, s, hrun, hs.trans hlimiter.symm, hidle, fun n hn => hclock n (hreadings.trans hn),
    hreset, ?_⟩, ?_⟩
  · rw [hlog, grantTimes_append, grantTimes_singleton, hgrant, htimes]
    exact (List.append_nil _).symm
  · rw [hlog, requestTimes_concat, hget, gets_concat_of_not hget, ← hpaid]
    simp

/-- An attempt of the client is a step of a caller. -/
theorem tryAcquire_follows (hsteady : Monotone env.steady) :
    Triple (Follows env config) (tryAcquire env)
      fun r w => Follows env config w ∧ (r = some true → JustGranted w) := by
  refine Triple.act fun w hw => ?_
  obtain ⟨⟨tr, s, hrun, hs, hidle, hclock, hreset, htimes⟩, hpaid⟩ := hw
  dsimp only
  generalize env.sys w.readings = sys
  generalize hnow : env.steady (w.readings + 1) = now
  generalize htry : w.limiter.tryAcquire sys now = result
  obtain ⟨granted, limiter⟩ := result
  have hstep : RateLimitCallers.Step s ⟨(), .tryAcquire granted, now⟩
      ⟨limiter, s.callers, now⟩ :=
    .tryAcquire sys (hnow ▸ hclock _ (Nat.le_succ _)) hidle (hs ▸ htry)
  have htime : Event.grantTime (.tryAcquire w.limiter sys now) =
      if granted then some now else none := by
    rw [Event.grantTime, htry]
  have hacquired : acquiredAt ⟨(), .tryAcquire granted, now⟩ =
      if granted then some now else none := by
    cases granted <;> simp [acquiredAt, RateLimitCallers.Granted]
  refine ⟨⟨⟨_, _, hrun.snoc hstep, rfl, hidle, fun n hn => ?_, ?_, ?_⟩, ?_⟩, ?_⟩
  · rw [← hnow]
    exact hsteady ((Nat.le_succ _).trans hn)
  · intro e he
    rcases List.mem_append.mp he with he | he
    · exact hreset e he
    · rw [List.mem_singleton.mp he]
      simp
  · rw [grantTimes_append, grantTimes_singleton, htime, List.filterMap_append, htimes,
      List.filterMap_cons, hacquired]
    cases granted <;> rfl
  · show (requestTimes none (w.log ++ [_])).length = gets (w.log ++ [_])
    rw [requestTimes_concat, gets_concat_of_not rfl, ← hpaid]
    simp [Event.isGet]
  · rintro ⟨⟩
    show (lastGrant none (w.log ++ [_])).isSome
    rw [lastGrant, List.getLast?_concat, Option.elim_some, htime]
    rfl

theorem sleepNs_follows (ns : ℤ) :
    Triple (Follows env config) (sleepNs ns) fun _ => Follows env config :=
  Triple.act fun _ hw => hw.concat rfl le_rfl rfl rfl rfl

theorem readSteady_follows :
    Triple (Follows env config) (readSteady env) fun _ => Follows env config := by
  refine Triple.act fun w ⟨⟨tr, s, hrun, hs, hidle, hclock, hrest⟩, hpaid⟩ => ⟨?_, hpaid⟩
  exact ⟨tr, s, hrun, hs, hidle, fun n hn => hclock n ((Nat.le_succ _).trans hn), hrest⟩

theorem httpGet_follows (path : Bytes) :
    Triple (fun w => Follows env config w ∧ JustGranted w) (httpGet env path)
      fun _ => Follows env config := by
  refine Triple.act fun w ⟨⟨⟨tr, s, hrun, hs, hidle, hclock, hreset, htimes⟩, hpaid⟩, hgrant⟩ => ?_
  obtain ⟨t, ht⟩ := Option.isSome_iff_exists.mp hgrant
  refine ⟨⟨tr, s, hrun, hs, hidle, hclock, hreset, ?_⟩, ?_⟩
  · rw [grantTimes_append, htimes]
    exact (List.append_nil _).symm
  · show (requestTimes none (w.log ++ [_])).length = gets (w.log ++ [_])
    rw [requestTimes_concat, gets_append, List.length_append, hpaid, ht]
    rfl

/-! ## Runs -/

theorem acquire_follows (hsteady : Monotone env.steady) : Triple (Follows env config) (acquire env)
    fun r w => Follows env config w ∧ (r = some true → JustGranted w) := by
  have htry : Triple (Follows env config) (tryAcquire env) fun r w =>
      (r = some true → Follows env config w ∧ JustGranted w) ∧
        (r ≠ some true → Follows env config w) :=
    (tryAcquire_follows hsteady).consequence (fun _ hw => hw)
      fun r w hw => ⟨fun hr => ⟨hw.1, hw.2 hr⟩, fun _ => hw.1⟩
  refine (acquire_triple_granted htry sleepNs_follows readSteady_follows).consequence
    (fun _ hw => hw) fun r w ⟨hgranted, hrest⟩ => ⟨?_, fun hr => ?_⟩
  · by_cases hr : r = some true
    · exact (hgranted hr).1
    · exact hrest hr
  · exact (hgranted hr).2

theorem attemptGet_follows (hsteady : Monotone env.steady) (path : Bytes) :
    Triple (Follows env config) (attemptGet env path) fun _ => Follows env config := by
  refine Triple.bind_invariant (Triple.act fun w hw => hw.concat rfl (Nat.le_succ _) rfl rfl rfl)
    fun remaining => ?_
  split_ifs
  · exact Triple.pure fun w hw => hw
  · refine Triple.bind (acquire_follows hsteady) (fun granted => ?_) fun w hw => hw.1
    cases granted with
    | true => exact (httpGet_follows path).of_pre fun w hw => ⟨hw.1, hw.2 rfl⟩
    | false => exact Triple.pure fun w hw => hw.1

theorem doGet_follows (hsteady : Monotone env.steady) (policy : RetryPolicy) (initialized : Bool)
    (path : Bytes) :
    Triple (Follows env config) (doGet env policy initialized path)
      fun _ => Follows env config := by
  unfold doGet
  split_ifs
  · exact Triple.pure fun w hw => hw
  · refine withRetryFrom_triple (P := fun _ => Follows env config)
      (M := fun _ => Follows env config) (fun a _ => ?_) (fun a => ?_) (fun a w _ hw => hw) 1
    · exact (attemptGet_follows hsteady path).consequence (fun _ h => h)
        fun r w hw => ⟨fun _ _ _ _ => hw, fun _ => hw⟩
    · exact (sleepNs_follows _).consequence (fun _ h => h) fun r w hw => ⟨fun _ => hw, fun _ => hw⟩

variable {T : Type} {glaze : Glaze} {readers : EntityReaders T}

theorem runCalls_follows (hsteady : Monotone env.steady) (policy : RetryPolicy)
    (initialized : Bool) (calls : List Call) :
    Triple (Follows env config) (runCalls env glaze readers policy initialized calls)
      fun _ => Follows env config := by
  induction calls with
  | nil => exact Triple.pure fun w hw => hw
  | cons call calls ih =>
    exact Triple.bind_invariant
      (perform_keeps (doGet_follows hsteady policy initialized) _) fun _ => ih

/-- The acquisitions of a client in a window of time. -/
theorem Follows.grants_le {w : World} (h : Follows env config w) {t1 t2 : ℤ} (ht : t1 ≤ t2) :
    ((grantTimes w.log).countP fun t => t1 ≤ t ∧ t ≤ t2 : ℤ) ≤
      (RateLimiter.sanitized config).maxTokens.toNat +
        (t2 - t1) / ((RateLimiter.sanitized config).refillInterval * nsPerMs) := by
  obtain ⟨tr, s, hrun, -, -, -, hreset, htimes⟩ := h.run
  have hsane := RateLimiter.sanitized_sane config
  have hI : 0 < (RateLimiter.sanitized config).refillInterval * nsPerMs :=
    mul_pos hsane.refillInterval_pos (by decide)
  have hle := (RateLimitCallers.creditSystem _ hsane).grants_le hrun
    (RateLimitCallers.start_invariant config _ _) ht fun e he _ _ => hreset e he
  have hcount : CreditSystem.grants RateLimitCallers.Event.now RateLimitCallers.Granted t1 t2 tr =
      (grantTimes w.log).countP fun t => t1 ≤ t ∧ t ≤ t2 := by
    rw [← htimes, List.countP_filterMap, CreditSystem.grants]
    refine List.countP_congr fun e _ => ?_
    by_cases hgranted : RateLimitCallers.Granted e <;> simp [acquiredAt, hgranted]
  rw [← sub_le_iff_le_add', Int.le_ediv_iff_mul_le hI, ← hcount]
  linarith

/-- In every run of a client, complete or cut, whose steady clock does not go back: each
    request has an acquisition of its own, the last thing the client did before it, and at
    most `max_tokens` requests and one more for each `refill_interval` of the window have
    theirs in a window of time. This counts the requests of retries and of all pages, under
    every retry policy and with every daily limit. -/
theorem runCalls_paced (hsteady : Monotone env.steady) (config : RateLimiter.Config)
    (policy : RetryPolicy) (initialized : Bool) (calls : List Call) :
    let log := (runCalls env glaze readers policy initialized calls (newWorld env config)).2.log
    (requestTimes none log).length = gets log ∧
      ∀ t1 t2, t1 ≤ t2 → ((requestTimes none log).countP fun t => t1 ≤ t ∧ t ≤ t2 : ℤ) ≤
        (RateLimiter.sanitized config).maxTokens.toNat +
          (t2 - t1) / ((RateLimiter.sanitized config).refillInterval * nsPerMs) := by
  intro log
  have hend : Follows env config (runCalls env glaze readers policy initialized calls _).2 :=
    runCalls_follows hsteady policy initialized calls _ (newWorld_follows hsteady)
  refine ⟨hend.paid, fun t1 t2 ht => ?_⟩
  have hsub : (requestTimes none log).Sublist (grantTimes log) := requestTimes_sublist none log
  have hcount := hsub.countP_le (p := fun t => t1 ≤ t ∧ t ≤ t2)
  have hle : ((grantTimes log).countP fun t => t1 ≤ t ∧ t ≤ t2 : ℤ) ≤ _ := hend.grants_le ht
  omega

/-- A client without a daily limit over a service that is down, 1 token for each 200 ms. -/
theorem runCalls_paced_unavailable :
    let env : Env :=
      { sys := fun _ => 0, steady := fun n => n * nsPerMs,
        transport := fun _ _ => .ok ⟨503, [], []⟩, retryDelay := fun _ => 200, turns := 400 }
    let glaze : Glaze := ⟨fun _ => none, fun _ => .error []⟩
    let readers : EntityReaders Unit := ⟨fun _ _ => .error [], fun _ _ => .error []⟩
    ((requestTimes none (runCalls env glaze readers {} true
      [.single .stations (bytes "X"), .single .stations (bytes "Y")]
      (newWorld env { maxTokens := 1, initialTokens := 1, dailyLimit := 0 })).2.log).countP
        fun t => 0 ≤ t ∧ t ≤ 1000000000 : ℤ) ≤ 1 + 5 := by
  intro env glaze readers
  have hsteady : Monotone env.steady := by
    intro m n hmn
    show (m : ℤ) * nsPerMs ≤ n * nsPerMs
    exact mul_le_mul_of_nonneg_right (by exact_mod_cast hmn) (by decide)
  exact (runCalls_paced hsteady { maxTokens := 1, initialTokens := 1, dailyLimit := 0 } {} true
    [.single .stations (bytes "X"), .single .stations (bytes "Y")]).2 0 1000000000 (by norm_num)

end NceiCpp.Api
