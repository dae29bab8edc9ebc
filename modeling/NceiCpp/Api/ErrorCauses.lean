import NceiCpp.Api.CdoRetries
import NceiCpp.Api.FaultyTransport
import NceiCpp.Api.GetDataAll

/-!
# What an error says

The error of a request method of `CDOClient`, traced back through the loops of the method, the
retries and the limiter to what happened.

* `Blames`: how an error comes from one answer. `Call.error_blames`: the error of a method is
  made of its last answer.
* `GaveUp`: what `do_get` did before it passed on the outcome of a request.
* `call_error_cause`: the causes of an error.
-/

namespace NceiCpp.Api

open Interaction CreditRun NceiCpp.Core NceiCpp.Models

/-- The error of a result. -/
def errorOf {α : Type} : Result α → Option Error
  | .error e => some e
  | .ok _ => none

variable {T : Type} (glaze : Glaze) (readers : EntityReaders T)

/-- The request method of a call, with the error it returns, if any. -/
def Call.error? : Call → Client (Option Error)
  | single col id => do
    let r ← Api.getSingle glaze.generic (readers.single col) col id
    return errorOf r
  | list col params => do
    let r ← getList glaze.generic (readers.list col) col params
    return errorOf r
  | data params => do
    let r ← getData glaze params
    return errorOf r
  | dataAll params => do
    let r ← getDataAll glaze params
    return errorOf r

variable {glaze} {readers}

/-! ## One answer -/

/-- The error comes from this answer: it is the error of `do_get`, tells of a status other than
    200, or of a body that is of no use. -/
inductive Blames (glaze : Glaze) : Result HttpResponse → Error → Prop
  | passed {e : Error} : Blames glaze (.error e) e
  | status {response : HttpResponse} : response.statusCode ≠ 200 →
      Blames glaze (.ok response)
        (Error.fromResponse glaze.generic response.statusCode response.body)
  | body {response : HttpResponse} {what : Bytes} : response.statusCode = 200 →
      Blames glaze (.ok response) (Error.parse what)

theorem finish_blames {α : Type} {parse : HttpResponse → Result α}
    (hparse : ∀ response e, parse response = .error e → ∃ what, e = Error.parse what)
    {answer : Result HttpResponse} {e : Error} (h : finish glaze.generic parse answer = .error e) :
    Blames glaze answer e := by
  cases answer with
  | error e' =>
    cases h
    exact .passed
  | ok response =>
    by_cases hstatus : response.statusCode = 200
    · have hfinish : finish glaze.generic parse (.ok response) = parse response :=
        if_neg (not_not.mpr hstatus)
      rw [hfinish] at h
      obtain ⟨what, rfl⟩ := hparse response e h
      exact .body hstatus
    · have hfinish : finish glaze.generic parse (.ok response) =
          .error (Error.fromResponse glaze.generic response.statusCode response.body) :=
        if_pos hstatus
      rw [hfinish] at h
      cases h
      exact .status hstatus

theorem parseListResponse_error {α : Type} {read : ListReader α} (response : HttpResponse)
    (e : Error) (h : parseListResponse read response = .error e) :
    ∃ what, e = Error.parse what := by
  unfold parseListResponse deserializeCdoListImpl at h
  cases hread : read response.body with
  | error what =>
    rw [hread] at h
    cases h
    exact ⟨what, rfl⟩
  | ok members =>
    rw [hread] at h
    cases h

theorem parseSingleResponse_error {α : Type} {read : Bytes → Except Bytes α}
    (response : HttpResponse) (e : Error) (h : parseSingleResponse read response = .error e) :
    ∃ what, e = Error.parse what := by
  unfold parseSingleResponse at h
  cases hread : read response.body with
  | error what =>
    rw [hread] at h
    cases h
    exact ⟨what, rfl⟩
  | ok obj =>
    rw [hread] at h
    cases h

theorem dataPage_blames {answer : Result HttpResponse} {e : Error}
    (h : dataPage glaze answer = .error e) : Blames glaze answer e :=
  finish_blames parseListResponse_error h

/-- A page can only be stuck if there is one. -/
theorem stuck_blames {answer : Result HttpResponse} {page : CDOResponse DataRecord}
    (h : dataPage glaze answer = .ok page) : Blames glaze answer stuckError := by
  cases answer with
  | error e => cases h
  | ok response =>
    by_cases hstatus : response.statusCode = 200
    · exact .body hstatus
    · have hpage : dataPage glaze (.ok response) = .error _ := if_pos hstatus
      rw [hpage] at h
      cases h

/-! ## Methods -/

/-- The last exchange has an answer that the error comes from. -/
def EndsWith (glaze : Glaze) (t : List Exchange) (e : Error) : Prop :=
  ∃ before x, t = before ++ [x] ∧ Blames glaze x.2 e

theorem EndsWith.append {t : List Exchange} {e : Error} (h : EndsWith glaze t e)
    (front : List Exchange) : EndsWith glaze (front ++ t) e := by
  obtain ⟨before, x, rfl, hx⟩ := h
  exact ⟨front ++ before, x, (List.append_assoc front before [x]).symm, hx⟩

theorem Pages.endsWith {params : GetDataParams} {range : DateRange} {offset : Int32}
    {acc : List DataRecord} {t : List Exchange} {res : Result (List DataRecord)}
    (h : Pages glaze params range offset acc t res) {e : Error} (he : res = .error e) :
    EndsWith glaze t e := by
  induction h with
  | failed hpage =>
    cases he
    exact ⟨[], _, rfl, dataPage_blames hpage⟩
  | stuck hpage _ =>
    cases he
    exact ⟨[], _, rfl, stuck_blames hpage⟩
  | last _ _ _ => cases he
  | more _ _ _ ih => exact (ih he).append [_]

theorem Chunks.endsWith {params : GetDataParams} {ranges : List DateRange}
    {acc : List DataRecord} {t : List Exchange} {res : Result (List DataRecord)}
    (h : Chunks glaze params ranges acc t res) {e : Error} (he : res = .error e) :
    EndsWith glaze t e := by
  induction h with
  | done => cases he
  | failed hpages =>
    cases he
    exact hpages.endsWith rfl
  | next _ _ ih => exact (ih he).append _

theorem runs_errorOf {α : Type} {method : Client (Result α)} {t : List Exchange} {e : Error} :
    (do
      let r ← method
      return errorOf r : Client (Option Error)).Runs t (some e) ↔ method.Runs t (.error e) := by
  rw [Program.runs_bind]
  constructor
  · rintro ⟨t1, t2, r, rfl, hruns, rfl, hr⟩
    rw [List.append_nil]
    cases r with
    | error e' =>
      cases hr
      exact hruns
    | ok a => cases hr
  · intro h
    exact ⟨t, [], _, (List.append_nil t).symm, h, rfl, rfl⟩

/-- A method that asks once. -/
theorem runs_once {α : Type} {path : Bytes} {parse : HttpResponse → Result α}
    (hparse : ∀ response e, parse response = .error e → ∃ what, e = Error.parse what)
    {t : List Exchange} {e : Error}
    (h : (do
      let response ← Program.perform path
      return finish glaze.generic parse response : Client (Result α)).Runs t (.error e)) :
    EndsWith glaze t e := by
  obtain ⟨r, t', rfl, rfl, hr⟩ := Program.runs_perform_bind.mp h
  exact ⟨[], (path, r), rfl, finish_blames hparse hr.symm⟩

/-- The dates of the call are no range: `split_date_range` throws this. -/
def Call.Throws (call : Call) (thrown : StdException) : Prop :=
  ∃ params, call = .dataAll params ∧
    splitDateRange params.startDate params.endDate = .error thrown

/-- The error of a method is made of its last answer; a method that asks nothing was given
    dates that do not split. -/
theorem Call.error_blames {call : Call} {t : List Exchange} {e : Error}
    (h : (call.error? glaze readers).Runs t (some e)) :
    EndsWith glaze t e ∨
      (t = [] ∧ ∃ thrown, call.Throws thrown ∧ e = Error.invalidRequest thrown.what) := by
  cases call with
  | single col id => exact .inl (runs_once parseSingleResponse_error (runs_errorOf.mp h))
  | list col params => exact .inl (runs_once parseListResponse_error (runs_errorOf.mp h))
  | data params => exact .inl (runs_once parseListResponse_error (runs_errorOf.mp h))
  | dataAll params =>
    rcases getDataAll_cases (runs_errorOf.mp h) with ⟨rfl, thrown, hsplit, he⟩ | ⟨hchunks, -⟩
    · cases he
      exact .inr ⟨rfl, thrown, ⟨params, rfl, hsplit⟩, rfl⟩
    · exact .inl (hchunks.endsWith rfl)

/-! ## Requests -/

/-- The last requests of a call, all for one path. Each before the last one was retried, and
    the last one had this outcome; it was not retried, or they are as many as the policy
    allows. -/
def GaveUp (env : Env) (policy : RetryPolicy) (w w' : World) (outcome : Result HttpResponse) :
    Prop :=
  ∃ path n first before, sentPaths w'.log =
      sentPaths w.log ++ before ++ List.replicate (n + 1) path ∧
    w'.requests = first + n + 1 ∧
    (∀ i < n, shouldRetry (env.transport (first + i) path) policy = true) ∧
    outcome = env.transport (first + n) path ∧ n < policy.maxAttempts.toNat ∧
    (shouldRetry outcome policy = true → n + 1 = policy.maxAttempts.toNat)

/-- Why a call that was made in `w` and left `w'` returned an error. -/
inductive Cause (env : Env) (glaze : Glaze) (policy : RetryPolicy) (call : Call) (w w' : World) :
    Error → Prop
  /-- The dates are no range, for the reason the error has; nothing was sent. -/
  | dates {thrown : StdException} : call.Throws thrown → sentPaths w'.log = sentPaths w.log →
      Cause env glaze policy call w w' (Error.invalidRequest thrown.what)
  /-- The policy allows no attempt; nothing was done. -/
  | noAttempts : policy.maxAttempts.toNat = 0 → w' = w →
      Cause env glaze policy call w w' (Error.network (bytes "Max retry attempts exceeded"))
  /-- The client refused to send a request: the quota or the time was over. -/
  | refused {e : Error} : Refusal w.limiter.config e → Cause env glaze policy call w w' e
  /-- The transport failed. -/
  | transport {e : Error} : GaveUp env policy w w' (.error e) →
      Cause env glaze policy call w w' e
  /-- The server answered with another status than 200. -/
  | status {response : HttpResponse} : GaveUp env policy w w' (.ok response) →
      response.statusCode ≠ 200 → Cause env glaze policy call w w'
        (Error.fromResponse glaze.generic response.statusCode response.body)
  /-- The server answered, and the body is of no use. -/
  | body {response : HttpResponse} {what : Bytes} : GaveUp env policy w w' (.ok response) →
      response.statusCode = 200 → Cause env glaze policy call w w' (Error.parse what)

variable {env : Env} {policy : RetryPolicy}

theorem Answered.gaveUp_or_refused {w w1 w' : World} {path : Bytes}
    {result : Result HttpResponse} {before : List Bytes}
    (h : Answered env policy w1 path w' result)
    (hbefore : sentPaths w1.log = sentPaths w.log ++ before) :
    GaveUp env policy w w' result ∨
      ∃ e, result = .error e ∧ Refusal w1.limiter.config e := by
  cases h with
  | @sent n hsince hretried hlt hlast =>
    refine .inl ⟨path, n, w1.requests, before, ?_, hsince.requests, hretried, rfl, hlt, hlast⟩
    rw [hsince.sent, hbefore]
  | refused _ _ _ hrefusal => exact .inr ⟨_, rfl, hrefusal⟩

theorem AnsweredRun.config {w w' : World} {t : List Exchange} (h : AnsweredRun env policy w t w') :
    w'.limiter.config = w.limiter.config := by
  induction h with
  | nil => rfl
  | cons h1 _ ih =>
    obtain ⟨n, hsince, -⟩ := h1.since
    exact ih.trans hsince.config

/-- Where no attempt is allowed, every answer says so, and nothing is done. -/
theorem answers_noAttempts (hmax : policy.maxAttempts.toNat = 0) {w w' : World}
    {t : List Exchange} (h : Run (Program.Answers (doGet env policy true)) w t w') :
    w' = w ∧ ∀ x ∈ t, x.2 = .error (Error.network (bytes "Max retry attempts exceeded")) := by
  induction h with
  | nil => exact ⟨rfl, by simp⟩
  | @cons w1 w2 w' x t hanswer _ ih =>
    have hget : doGet env policy true x.1 w1 = (some x.2, w2) := hanswer
    rw [doGet_noAttempts hmax] at hget
    obtain ⟨hx, rfl⟩ := Prod.mk.inj hget
    exact ⟨ih.1, List.forall_mem_cons.mpr ⟨(Option.some.inj hx).symm, ih.2⟩⟩

/-- Every error of every call, whatever the clocks and the transport do, has a cause that can be
    told from it. Nothing is reported that can be tried again before it was tried as often as
    the policy allows, in a row and for the same path; and the requests before the last answer
    leave no trace in the error. -/
theorem call_error_cause (call : Call) (w : World) {e : Error} {w' : World}
    (h : perform (doGet env policy true) (call.error? glaze readers) w = (some (some e), w')) :
    Cause env glaze policy call w w' e := by
  rw [perform_eq_handle, Program.handle_eq_some_iff] at h
  obtain ⟨t, hruns, hanswers⟩ := h
  rcases Call.error_blames hruns with ⟨before, x, rfl, hblames⟩ | ⟨rfl, thrown, hthrows, rfl⟩
  · rcases Nat.eq_zero_or_pos policy.maxAttempts.toNat with hmax | hmax
    · obtain ⟨hw, hall⟩ := answers_noAttempts hmax hanswers
      rw [hall x (by simp)] at hblames
      cases hblames
      exact .noAttempts hmax hw
    have hrun := answeredRun_of_answers hmax hanswers
    obtain ⟨w1, hbefore, hlast⟩ := Run.split hrun
    obtain ⟨sent, -, -, hlog⟩ := AnsweredRun.sent hbefore
    cases hlast with
    | cons hanswered hnil =>
      cases hnil
      rcases hanswered.gaveUp_or_refused hlog with hgaveUp | ⟨e', he', hrefusal⟩
      · obtain ⟨path, answer⟩ := x
        cases hblames with
        | passed => exact .transport hgaveUp
        | status hstatus => exact .status hgaveUp hstatus
        | body hstatus => exact .body hgaveUp hstatus
      · obtain ⟨path, answer⟩ := x
        cases he'
        cases hblames
        rw [AnsweredRun.config hbefore] at hrefusal
        exact .refused hrefusal
  · cases hanswers
    exact .dates hthrows rfl

/-- A station that does not exist is reported behind one request. -/
theorem call_error_cause_notFound :
    let env : Env :=
      { sys := fun _ => 0, steady := fun n => n, transport := fun _ _ => .ok ⟨404, [], []⟩,
        retryDelay := fun _ => 200, turns := 1 }
    let glaze : Glaze := ⟨fun _ => none, fun _ => .error []⟩
    let readers : EntityReaders Unit := ⟨fun _ _ => .ok (), fun _ _ => .error []⟩
    ∃ e w', perform (doGet env {} true)
        (Call.error? glaze readers (.single .stations (bytes "X"))) (newWorld env {}) =
          (some (some e), w') ∧
        Cause env glaze {} (.single .stations (bytes "X")) (newWorld env {}) w' e ∧
      e.code = .notFound := by
  intro env glaze readers
  have hattempt : attemptGet env (bytes "/stations/X") (newWorld env {}) = (some _, _) :=
    attemptGet_granted rfl rfl (by decide) rfl rfl
      (show RateLimiter.tryAcquire _ _ _ = (true, limiterLeft 4 4 1) by decide)
  have hget : doGet env {} true (bytes "/stations/X") (newWorld env {}) = (some _, _) :=
    withRetryFrom_done (by decide) hattempt (by decide)
  have hcall : perform (doGet env {} true)
      (Call.error? glaze readers (.single .stations (bytes "X"))) (newWorld env {}) =
        (some (some (Error.fromResponse glaze.generic 404 [])),
          granted env (bytes "/stations/X") (limiterLeft 4 4 1)
            (checked env (newWorld env {}))) := by
    change Exec.bind (doGet env {} true (bytes "/stations/X")) _ (newWorld env {}) = _
    rw [Exec.bind, hget]
    rfl
  exact ⟨_, _, hcall, call_error_cause _ _ hcall, by decide⟩

end NceiCpp.Api
