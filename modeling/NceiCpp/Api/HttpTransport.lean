import NceiCpp.Api.Clients
import NceiCpp.Api.ServiceRequests
import NceiCpp.Http.Transfers

/-!
# The clients over HTTP

The transport of the clients is `HttpClient::get`. A server is honest if the bodies that
complete are the right ones; transfers may break off at any byte, exceed the limit or end with
any other status.

* `HonestFrom.publishes`: the service clients over an honest server.
* `getDataAll_over_http`: `get_data_all` down to the deliveries of libcurl.
-/

namespace NceiCpp.Api

open Interaction Exec IntervalChunks NceiCpp.Core NceiCpp.Models NceiCpp.Http

/-- `HttpClient::get`; `curls n` is what libcurl does in the `n`-th request. -/
def httpTransport (curls : ℕ → Curl) (http : ClientConfig) (n : ℕ) (path : Bytes) :
    Result HttpResponse :=
  Http.get (curls n) http path

/-- A body that completes for `path` is one of these. -/
def Honest (curl : Curl) (http : ClientConfig) (path : Bytes) (IsBody : Bytes → Prop) : Prop :=
  ∀ request body, prepare curl http path = .ok request → Completes curl request body → IsBody body

/-- The transfer for `path` ends in a way that the policy retries. -/
def Disturbed (policy : RetryPolicy) (curl : Curl) (http : ClientConfig) (path : Bytes) : Prop :=
  (policy.retryOnNetworkError = true ∧ BreaksOff curl http path) ∨
    ∃ status, shouldRetryResponse ⟨status, [], []⟩ policy = true ∧
      EndsWithStatus curl http path status

variable {curl : Curl} {curls : ℕ → Curl} {http : ClientConfig} {path : Bytes}
  {IsBody : Bytes → Prop}

theorem Disturbed.retried {policy : RetryPolicy} (h : Disturbed policy curl http path)
    (hplain : PlainTransfers curl) : shouldRetry (Http.get curl http path) policy = true := by
  rcases h with ⟨hretry, hbreaks⟩ | ⟨status, hretry, hends⟩
  · obtain ⟨text, hget⟩ := get_breaksOff hplain hbreaks
    rw [hget]
    simp [shouldRetry, shouldRetryError, hretry, Error.network]
  · obtain ⟨body, headers, hget⟩ := get_endsWithStatus hplain hends
    rw [hget]
    exact hretry

theorem Honest.isBody (h : Honest curl http path IsBody) {body : Bytes}
    (harrives : Arrives curl http path body) : IsBody body := by
  obtain ⟨request, hprepare, hcompletes, -⟩ := harrives
  exact h request body hprepare hcompletes

/-- Over an honest server a request is answered with one of the bodies, or fails. -/
theorem Honest.served (h : Honest curl http path IsBody) (hplain : PlainTransfers curl) :
    (∃ body, Arrives curl http path body ∧ IsBody body) ∨ Fails (Http.get curl http path) := by
  by_cases hserves : ∃ response, Http.get curl http path = .ok response ∧ response.statusCode = 200
  · obtain ⟨response, hget, hstatus⟩ := hserves
    have harrives : Arrives curl http path response.body := by
      refine (get_arrives_iff hplain).mp ⟨response.headers, ?_⟩
      rw [hget, ← hstatus]
    exact .inl ⟨response.body, harrives, h.isBody harrives⟩
  · exact .inr fun response hget hstatus => hserves ⟨response, hget, hstatus⟩

theorem servesBody_of_arrives (hplain : ∀ n, PlainTransfers (curls n)) {n : ℕ} {body : Bytes}
    (harrives : Arrives (curls n) http path body) (hbody : IsBody body) :
    ServesBody IsBody (httpTransport curls http n path) := by
  obtain ⟨headers, hget⟩ := (get_arrives_iff (hplain n)).mpr harrives
  exact ⟨body, headers, hget, hbody⟩

/-- Behind the requests of `log`, a body that completes for `path` is one of these. -/
def HonestFrom (curls : ℕ → Curl) (http : ClientConfig) (log : List ServiceEvent) (path : Bytes)
    (IsBody : Bytes → Prop) : Prop :=
  ∀ n, (servicePaths log).length ≤ n → Honest (curls n) http path IsBody

theorem HonestFrom.publishes (hplain : ∀ n, PlainTransfers (curls n)) {log : List ServiceEvent}
    (h : HonestFrom curls http log path IsBody) :
    Publishes (httpTransport curls http) log path IsBody := by
  intro i
  rcases (h _ (Nat.le_add_right _ (i - 1))).served (hplain _) with ⟨body, harrives, hbody⟩ | hfails
  · exact .inl (servesBody_of_arrives hplain harrives hbody)
  · exact .inr hfails

/-- A service that fails once, and then answers with this body. -/
def answersSecond (body : Bytes) (h : body.length < 2 ^ 64) (n : ℕ) : Curl :=
  if n = 0 then replay [] 503 else replay [.body (.ofBytes body h)] 200

theorem plainTransfers_answersSecond {body : Bytes} (h : body.length < 2 ^ 64) (n : ℕ) :
    PlainTransfers (answersSecond body h n) := by
  intro request e he
  rcases n with _ | n
  · cases he
  · obtain rfl := List.mem_singleton.mp he
    exact ⟨rfl, rfl⟩

theorem honest_answersSecond {body : Bytes} (h : body.length < 2 ^ 64) {IsBody : Bytes → Prop}
    (hbody : IsBody body) (n : ℕ) (http : ClientConfig) (path : Bytes) :
    Honest (answersSecond body h n) http path IsBody := by
  rintro request received - ⟨-, ⟨status, hcode, hstatus⟩, hpieces⟩
  rcases n with _ | n
  · cases hcode
    cases (show toInt16 503 = 503 by decide).symm.trans hstatus
  · have hbody' : received = body := hpieces.symm.trans List.flatten_singleton
    rw [hbody']
    exact hbody

/-! ## `get_data_all` -/

/-- The outside of a client whose requests are made by `HttpClient::get`. -/
def httpEnv (curls : ℕ → Curl) (http : ClientConfig) (env : Env) : Env :=
  { env with transport := httpTransport curls http }

/-- The body of the page that answers `path`, from a server with these records. -/
def IsPage (glaze : Glaze) (matching : GetDataParams → List DataRecord) (path body : Bytes) :
    Prop :=
  (matching (requestOf path)).length ≤ 2 ^ 31 - 1 ∧
    glaze.records body = .ok (serverMembers (matching (requestOf path)) (requestOf path))

variable {env : Env} {glaze : Glaze} {params : GetDataParams}
  {matching : GetDataParams → List DataRecord}

theorem serves_of_servesBody {r : Result HttpResponse}
    (h : ServesBody (IsPage glaze matching path) r) : Serves glaze matching (path, r) := by
  obtain ⟨body, headers, rfl, hcount, hpage⟩ := h
  exact ⟨hcount, _, rfl, rfl, hpage⟩

theorem dataPage_of_fails {r : Result HttpResponse} (h : Fails r) :
    ∃ e, dataPage glaze r = .error e := finish_failed h _ _

/-- The servers answer each request since `w` with the page of `R`, if they complete. -/
def HonestSince (curls : ℕ → Curl) (http : ClientConfig) (glaze : Glaze)
    (matching : GetDataParams → List DataRecord) (w w' : World) : Prop :=
  ∀ n path, SentAs w w' n path → Honest (curls n) http path (IsPage glaze matching path)

/-- Each transfer since `w` arrives, or is retried; of as many in a row as the policy allows
    attempts, one arrives. -/
structure ArrivesSince (curls : ℕ → Curl) (http : ClientConfig) (policy : RetryPolicy)
    (w w' : World) : Prop where
  disturbed : ∀ n path, SentAs w w' n path →
    (∃ body, Arrives (curls n) http path body) ∨ Disturbed policy (curls n) http path
  arrives : ∀ n path, (∀ i < policy.maxAttempts.toNat, SentAs w w' (n + i) path) →
    ∃ i < policy.maxAttempts.toNat, ∃ body, Arrives (curls (n + i)) http path body

section

variable {w w' : World} (hplain : ∀ n, PlainTransfers (curls n))
  (hhonest : HonestSince curls http glaze matching w w')

include hplain hhonest

theorem HonestSince.serves {n : ℕ} {body : Bytes} (hsent : SentAs w w' n path)
    (harrives : Arrives (curls n) http path body) :
    Serves glaze matching (path, (httpEnv curls http env).transport n path) :=
  serves_of_servesBody
    (servesBody_of_arrives hplain harrives ((hhonest n path hsent).isBody harrives))

theorem HonestSince.servesOrFails :
    ServesOrFails (httpEnv curls http env) glaze matching w w' := by
  intro n path hsent
  rcases (hhonest n path hsent).served (hplain n) with ⟨body, harrives, -⟩ | hfails
  · exact .inl (hhonest.serves hplain hsent harrives)
  · exact .inr (dataPage_of_fails hfails)

theorem HonestSince.recovers {policy : RetryPolicy}
    (harrives : ArrivesSince curls http policy w w') :
    Recovers (httpEnv curls http env) glaze matching policy w w' := by
  refine ⟨fun n path hsent => ?_, fun n path hsent => ?_⟩
  · rcases harrives.disturbed n path hsent with ⟨body, hbody⟩ | hdisturbed
    · exact .inl (hhonest.serves hplain hsent hbody)
    · exact .inr (hdisturbed.retried (hplain n))
  · obtain ⟨i, hi, body, hbody⟩ := harrives.arrives n path hsent
    exact ⟨i, hi, hhonest.serves hplain (hsent i hi) hbody⟩

end

/-- `get_data_all` of a `CDOClient`, down to the deliveries of libcurl. The pages that complete
    are those of a server that holds `R`; the transfers may break off behind any part of a page,
    be longer than the client allows, and end with any other status and body, in any order.
    What is returned has the records of `R` in the range, each once, and in the order of `R` if
    that is the order of the dates. Where each transfer arrives or is retried, and fewer in a
    row fail than the policy allows attempts, it is returned, or the client has refused to send
    a request. -/
theorem getDataAll_over_http (config : CdoConfig) (hplain : ∀ n, PlainTransfers (curls n))
    (day : DataRecord → ℤ) (R : List DataRecord) {m n : ℤ}
    (hm : dayOf params.startDate = .ok m) (hn : dayOf params.endDate = .ok n) (hmn : m ≤ n)
    (hmeta : params.includeMetadata ≠ some false)
    (hlimit : ∀ l, params.limit = some l → 1 ≤ l.toInt)
    (hmax : 0 < config.retry.maxAttempts.toNat) {w w' : World} (hw : Counted w)
    {res : Result (List DataRecord)}
    (h : perform (doGet (httpEnv curls (cdoHttp config) env) config.retry true)
      (getDataAll glaze params) w = (some res, w'))
    (hserver : HonestSince curls (cdoHttp config) glaze (matchingOf day R) w w') :
    (∀ records, res = .ok records → records.Perm (within day R m n) ∧
      (R.Pairwise (fun a b => day a ≤ day b) → records = within day R m n)) ∧
    (ArrivesSince curls (cdoHttp config) config.retry w w' →
      (∃ records, res = .ok records) ∨ ∃ e, res = .error e ∧ Refusal w.limiter.config e) := by
  refine ⟨?_, fun harrives => getDataAll_recovers day R hm hn hmn hmeta hlimit hmax hw h
    (hserver.recovers hplain harrives)⟩
  rintro records rfl
  have hrecords := getDataAll_sound day R hm hn hmn hmeta hlimit hmax hw h
    (hserver.servesOrFails hplain)
  rw [hrecords]
  exact records_chunksOf day R hm hn hmn

/-! ### A transfer that breaks off -/

/-- A body in two pieces. -/
def inPieces (body : Bytes) (h : body.length < 2 ^ 64) : List Http.Event :=
  [.body (.ofBytes (body.take 20) (by rw [List.length_take]; omega)),
    .body (.ofBytes (body.drop 20) (by rw [List.length_drop]; omega))]

/-- The first transfer breaks off within a page, the others bring the two pages. -/
def breaksOffOnce (n : ℕ) : Curl :=
  if n = 0 then
    { replay [] 200 with
      transfer := fun _ =>
        { events := (inPieces (twoRecordsBody "1") (by decide +kernel)).take 1
          outcome := some (bytes "Transferred a partial file") } }
  else if n = 1 then replay (inPieces (twoRecordsBody "1") (by decide +kernel)) 200
  else replay (inPieces (twoRecordsBody "2") (by decide +kernel)) 200

/-- Two records, over a service whose first transfer breaks off. -/
theorem getDataAll_over_http_breaksOffOnce :
    twoRecords.Perm (within recordDay twoRecords 19723 19753) := by
  let config : CdoConfig := { token := bytes "secret", http := { baseUrl := [] } }
  let env := quietEnv (httpTransport breaksOffOnce (cdoHttp config))
  have hplain : ∀ n, PlainTransfers (breaksOffOnce n) := by
    intro n request e he
    rcases n with _ | _ | n
    · obtain rfl := List.mem_singleton.mp he
      exact ⟨rfl, rfl⟩
    · rcases List.mem_pair.mp he with rfl | rfl <;> exact ⟨rfl, rfl⟩
    · rcases List.mem_pair.mp he with rfl | rfl <;> exact ⟨rfl, rfl⟩
  obtain ⟨w', hperform, hlog⟩ := @perform_again (httpTransport breaksOffOnce (cdoHttp config))
    (by decide +kernel) (by decide +kernel) (by decide +kernel)
  obtain ⟨hm, hn⟩ := dayOf_twoRecordsParams
  have hserver : HonestSince breaksOffOnce (cdoHttp config) twoRecordsGlaze
      (matchingOf recordDay twoRecords) (newWorld env {}) w' := by
    obtain ⟨h1, h2⟩ := List.forall_mem_cons.mp serves_twoRecords
    have h2 := List.forall_mem_singleton.mp h2
    rintro n path ⟨-, hsent⟩ request body - ⟨houtcome, -, hpieces⟩
    rw [hlog] at hsent
    rcases n with _ | _ | _ | n
    · cases houtcome
    · cases hsent
      obtain ⟨hcount, _, ⟨⟩, -, hread⟩ := h1
      subst hpieces
      exact ⟨hcount, hread⟩
    · cases hsent
      obtain ⟨hcount, _, ⟨⟩, -, hread⟩ := h2
      subst hpieces
      exact ⟨hcount, hread⟩
    · simp at hsent
  have hcounted : Counted (newWorld env {}) := rfl
  obtain ⟨hcomplete, -⟩ := @getDataAll_over_http _ env _ _ config hplain recordDay twoRecords _ _
    hm hn (by norm_num) (by decide) (by rintro l ⟨⟩; decide) (by decide) _ _ hcounted _ hperform
    hserver
  exact (hcomplete _ rfl).1

end NceiCpp.Api
