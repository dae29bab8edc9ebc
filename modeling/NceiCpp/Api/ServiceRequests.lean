import NceiCpp.Api.CdoClient
import NceiCpp.Core.Retry
import NceiCpp.Lib.Handler

/-!
# Requests without a limiter

`DataServiceClient::do_get` and `MonitoringClient::fetch` retry `HttpClient::get`, and nothing
else stands between a method and the transport. The transport answers the `n`-th request
of the client, counted from 0.

* `serviceGet_eq`: the answer of `do_get`, and all it does until then.
* `handle_once`: the same for a method that asks once.
* `AsksOnce.delivers`: such a method over a transport that fails now and then, and a server
  that publishes a value.
-/

namespace NceiCpp.Api

open Interaction Exec NceiCpp.Core

/-- What the client does: it sends a request, and sleeps behind an attempt for the delay of
    that attempt. -/
inductive ServiceEvent
  | httpGet (path : Bytes)
  | sleep (attempt : UInt8)
  deriving DecidableEq

/-- The paths of the requests in a log. -/
def servicePaths (log : List ServiceEvent) : List Bytes :=
  log.filterMap fun e => match e with
    | .httpGet path => some path
    | .sleep _ => none

variable (transport : ℕ → Bytes → Result HttpResponse)

/-- `impl_->http.get(path)`. -/
def serviceAttempt (path : Bytes) : Exec (List ServiceEvent) (Result HttpResponse) :=
  act fun log => (transport (servicePaths log).length path, log ++ [.httpGet path])

def serviceSleep (attempt : UInt8) : Exec (List ServiceEvent) Unit :=
  act fun log => ((), log ++ [.sleep attempt])

/-- `DataServiceClient::do_get`, and the request of `MonitoringClient::fetch`; `initialized`
    says that `impl_` is not null. -/
def serviceGet (policy : RetryPolicy) (initialized : Bool) (path : Bytes) :
    Exec (List ServiceEvent) (Result HttpResponse) :=
  if !initialized then return .error (Error.network (bytes "Client not initialized"))
  else withRetry (serviceAttempt transport path) serviceSleep policy

/-! ## One `do_get` -/

/-- `n` attempts for `path`, each with the sleep behind it. -/
def triedLog (path : Bytes) : ℕ → List ServiceEvent
  | 0 => []
  | n + 1 => triedLog path n ++ [.httpGet path, .sleep (UInt8.ofNat (n + 1))]

theorem servicePaths_append (log log' : List ServiceEvent) :
    servicePaths (log ++ log') = servicePaths log ++ servicePaths log' := List.filterMap_append

theorem servicePaths_triedLog (path : Bytes) (n : ℕ) :
    servicePaths (triedLog path n) = List.replicate n path := by
  induction n with
  | zero => rfl
  | succ n ih =>
    rw [triedLog, servicePaths_append, ih, List.replicate_succ']
    rfl

variable {transport} {policy : RetryPolicy} {path : Bytes} {log : List ServiceEvent}

variable (transport) in
/-- The outcome of the `i`-th attempt, counted from 1, behind the requests of `log`. -/
def outcomeOf (path : Bytes) (log : List ServiceEvent) (i : ℕ) : Result HttpResponse :=
  transport ((servicePaths log).length + (i - 1)) path

theorem serviceAttempt_eq (n : ℕ) : serviceAttempt transport path (log ++ triedLog path n) =
    (some (outcomeOf transport path log (n + 1)), log ++ triedLog path n ++ [.httpGet path]) := by
  rw [serviceAttempt, act, servicePaths_append, servicePaths_triedLog, List.length_append,
    List.length_replicate]
  rfl

/-- The loop from the attempt `n + 1` on, if no attempt so far was final. -/
theorem withRetryFrom_service {n : ℕ} (hn : n < policy.maxAttempts.toNat)
    (htried : ∀ i, 0 < i → i ≤ n → ¬ Final (outcomeOf transport path log) policy i) :
    ∃ k, IsLeast {i | 0 < i ∧ Final (outcomeOf transport path log) policy i} k ∧
      withRetryFrom (serviceAttempt transport path) serviceSleep policy (UInt8.ofNat (n + 1))
          (log ++ triedLog path n) =
        (some (outcomeOf transport path log k),
          log ++ triedLog path (k - 1) ++ [.httpGet path]) := by
  induction hd : policy.maxAttempts.toNat - n generalizing n with
  | zero => omega
  | succ d ih =>
    have hwidth := policy.maxAttempts.toNat_lt
    have hsize : UInt8.size = 256 := rfl
    have hnat : (UInt8.ofNat (n + 1)).toNat = n + 1 := UInt8.toNat_ofNat_of_lt' (by omega)
    by_cases hfinal : Final (outcomeOf transport path log) policy (n + 1)
    · refine ⟨n + 1, ⟨⟨n.succ_pos, hfinal⟩, fun i hi => ?_⟩, ?_⟩
      · by_contra hlt
        exact htried i hi.1 (by omega) hi.2
      · refine withRetryFrom_done ?_ (serviceAttempt_eq n) ?_
        · rw [UInt8.le_iff_toNat_le, hnat]
          omega
        · rintro ⟨hretry, hmore⟩
          rw [UInt8.lt_iff_toNat_lt, hnat] at hmore
          rcases hfinal with hmax | hreject
          · omega
          · rw [hretry] at hreject
            cases hreject
    · have hnot : n + 1 ≠ policy.maxAttempts.toNat ∧
          shouldRetry (outcomeOf transport path log (n + 1)) policy = true := by
        rw [Final, not_or, Bool.not_eq_false] at hfinal
        exact hfinal
      have hmore : UInt8.ofNat (n + 1) < policy.maxAttempts := by
        rw [UInt8.lt_iff_toNat_lt, hnat]
        omega
      obtain ⟨k, hleast, hk⟩ := ih (n := n + 1) (by omega) (fun i hi hle => by
        rcases Nat.le_succ_iff.mp hle with hle | rfl
        · exact htried i hi hle
        · exact hfinal) (by omega)
      refine ⟨k, hleast, ?_⟩
      have hnext : UInt8.ofNat (n + 1) + 1 = UInt8.ofNat (n + 1 + 1) := by
        rw [← UInt8.toNat_inj, toNat_succ hmore, hnat, UInt8.toNat_ofNat_of_lt' (by omega)]
      rw [withRetryFrom_again (serviceAttempt_eq n) hnot.2 hmore rfl, hnext, ← hk, triedLog]
      simp only [List.append_assoc]
      rfl

/-- `do_get` ends with its first final attempt. -/
theorem serviceGet_eq (hmax : 0 < policy.maxAttempts.toNat) (path : Bytes)
    (log : List ServiceEvent) :
    ∃ k, IsLeast {i | 0 < i ∧ Final (outcomeOf transport path log) policy i} k ∧
      serviceGet transport policy true path log =
        (some (outcomeOf transport path log k),
          log ++ triedLog path (k - 1) ++ [.httpGet path]) := by
  obtain ⟨k, hleast, hk⟩ := @withRetryFrom_service transport policy path log 0 hmax
    fun i hi hle => by omega
  refine ⟨k, hleast, ?_⟩
  rw [triedLog, List.append_nil] at hk
  exact hk

/-- `r` is what a method gives that asks once for `path` and makes `f` of the answer: the
    requests end with the first final attempt, and `f` gets its outcome. -/
def AsksOnce {α : Type} (transport : ℕ → Bytes → Result HttpResponse) (policy : RetryPolicy)
    (log : List ServiceEvent) (path : Bytes) (f : Result HttpResponse → α)
    (r : Option α × List ServiceEvent) : Prop :=
  ∃ k, IsLeast {i | 0 < i ∧ Final (outcomeOf transport path log) policy i} k ∧
    r = (some (f (outcomeOf transport path log k)),
      log ++ triedLog path (k - 1) ++ [.httpGet path])

theorem handle_once {α : Type} (hmax : 0 < policy.maxAttempts.toNat) (path : Bytes)
    (f : Result HttpResponse → α) (log : List ServiceEvent) :
    AsksOnce transport policy log path f ((do
      let response ← Program.perform path
      return f response : Client α).handle (serviceGet transport policy true) log) := by
  obtain ⟨k, hleast, hk⟩ := @serviceGet_eq transport policy hmax path log
  exact ⟨k, hleast, Program.handle_ask_some hk⟩

/-! ## Published bodies -/

/-- The outcome is a published body. -/
def ServesBody (IsBody : Bytes → Prop) (outcome : Result HttpResponse) : Prop :=
  ∃ body headers, outcome = .ok { statusCode := 200, body := body, headers := headers } ∧
    IsBody body

/-- There is no response of status 200. -/
def Fails (outcome : Result HttpResponse) : Prop :=
  ∀ response, outcome = .ok response → response.statusCode ≠ 200

/-- Each request for `path` is answered with a published body, or fails. -/
def Publishes (transport : ℕ → Bytes → Result HttpResponse) (log : List ServiceEvent)
    (path : Bytes) (IsBody : Bytes → Prop) : Prop :=
  ∀ i, ServesBody IsBody (outcomeOf transport path log i) ∨ Fails (outcomeOf transport path log i)

/-- The failures before the first body are such that the client tries again, and fewer than
    it tries. -/
def RecoversOnce (transport : ℕ → Bytes → Result HttpResponse) (policy : RetryPolicy)
    (log : List ServiceEvent) (path : Bytes) (IsBody : Bytes → Prop) : Prop :=
  ∃ n < policy.maxAttempts.toNat, ServesBody IsBody (outcomeOf transport path log (n + 1)) ∧
    ∀ i, 0 < i → i ≤ n → shouldRetry (outcomeOf transport path log i) policy = true

/-- `r` is what a method gives for the published `value`: nothing else, and it if the transport
    recovers; and only `path` is requested, as often as the policy allows. -/
structure Delivers {S : Type} (transport : ℕ → Bytes → Result HttpResponse) (policy : RetryPolicy)
    (log : List ServiceEvent) (path : Bytes) (IsBody : Bytes → Prop) (value : S)
    (r : Option (Result S) × List ServiceEvent) : Prop where
  sound : ∀ v, r.1 = some (.ok v) → v = value
  complete : RecoversOnce transport policy log path IsBody → r.1 = some (.ok value)
  requests : ∃ k, 0 < k ∧ k ≤ policy.maxAttempts.toNat ∧
    servicePaths r.2 = servicePaths log ++ List.replicate k path

theorem ServesBody.not_retried {IsBody : Bytes → Prop} {outcome : Result HttpResponse}
    (h : ServesBody IsBody outcome) (policy : RetryPolicy) :
    shouldRetry outcome policy = false := by
  obtain ⟨body, headers, rfl, -⟩ := h
  simp [shouldRetry, shouldRetryResponse]

/-- A method that makes the value of every published body, and an error of every failure. -/
theorem AsksOnce.delivers {S : Type} {f : Result HttpResponse → Result S} {value : S}
    {r : Option (Result S) × List ServiceEvent} (h : AsksOnce transport policy log path f r)
    (hmax : 0 < policy.maxAttempts.toNat) {IsBody : Bytes → Prop}
    (hserved : ∀ outcome, ServesBody IsBody outcome → f outcome = .ok value)
    (hfailed : ∀ outcome, Fails outcome → ∃ e, f outcome = .error e)
    (hserver : Publishes transport log path IsBody) :
    Delivers transport policy log path IsBody value r := by
  obtain ⟨k, ⟨⟨hk, hfinal⟩, hleast⟩, rfl⟩ := h
  refine ⟨fun v hv => ?_, fun hrecovers => ?_, ?_⟩
  · have hv := Option.some.inj hv
    rcases hserver k with hserves | hfails
    · rw [hserved _ hserves] at hv
      exact (Except.ok.inj hv).symm
    · obtain ⟨e, he⟩ := hfailed _ hfails
      rw [he] at hv
      cases hv
  · obtain ⟨n, hn, hserves, hretried⟩ := hrecovers
    have hfinal' : Final (outcomeOf transport path log) policy (n + 1) :=
      .inr (hserves.not_retried policy)
    have hle : k ≤ n + 1 := hleast ⟨n.succ_pos, hfinal'⟩
    have heq : k = n + 1 := by
      by_contra hne
      rcases hfinal with hlast | hrejected
      · omega
      · rw [hretried k hk (by omega)] at hrejected
        cases hrejected
    subst heq
    exact congrArg some (hserved _ hserves)
  · refine ⟨k, hk, hleast ⟨hmax, .inl rfl⟩, ?_⟩
    obtain ⟨m, rfl⟩ : ∃ m, k = m + 1 := ⟨k - 1, by omega⟩
    rw [servicePaths_append, servicePaths_append, Nat.add_sub_cancel, servicePaths_triedLog,
      List.append_assoc, List.replicate_succ']
    rfl

/-- Every method ends with an error where the status is not 200. -/
theorem finish_failed {S : Type} {outcome : Result HttpResponse} (h : Fails outcome)
    (generic : Bytes → Option Json) (parse : HttpResponse → Result S) :
    ∃ e, finish generic parse outcome = .error e := by
  cases outcome with
  | error e => exact ⟨e, rfl⟩
  | ok response => exact ⟨_, if_pos (h response rfl)⟩

theorem finish_served {S : Type} (generic : Bytes → Option Json)
    (parse : HttpResponse → Result S) {response : HttpResponse} (h : response.statusCode = 200) :
    finish generic parse (.ok response) = parse response := if_neg (not_not.mpr h)

end NceiCpp.Api
