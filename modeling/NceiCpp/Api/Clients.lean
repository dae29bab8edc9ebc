import NceiCpp.Api.FaultyTransport
import NceiCpp.Api.RequestUrls
import NceiCpp.Http.RequestHeaders

/-!
# The clients and their configurations

The constructors of the three clients: which configuration their `HttpClient` gets. The
token of `CDOClient` is one of its header fields.

* `runCalls_sentClean`: the paths of all requests of a run.
* `runCalls_authenticated`: where these requests go, and what they say.
-/

namespace NceiCpp.Api

open Interaction Exec NceiCpp.Core NceiCpp.Models NceiCpp.Http

/-- `CDOClient::Config`. -/
structure CdoConfig where
  token : Bytes
  http : ClientConfig
  rateLimit : RateLimiter.Config := {}
  retry : RetryPolicy := {}

/-- `DataServiceClient::Config` and `MonitoringClient::Config`. -/
structure ServiceConfig where
  http : ClientConfig
  retry : RetryPolicy := {}

def withBaseUrl (http : ClientConfig) (baseUrl : Bytes) : ClientConfig :=
  if http.baseUrl = [] then { http with baseUrl := baseUrl } else http

/-- `CDOClient::CDOClient` (lines 24–31). -/
def cdoHttp (config : CdoConfig) : ClientConfig :=
  let http := withBaseUrl config.http (bytes "https://www.ncei.noaa.gov/cdo-web/api/v2")
  { http with extraHeaders := http.extraHeaders ++ [(bytes "token", config.token)] }

/-- `DataServiceClient::DataServiceClient` (lines 22–28). -/
def dataServiceHttp (config : ServiceConfig) : ClientConfig :=
  withBaseUrl config.http (bytes "https://www.ncei.noaa.gov/access/services")

/-- `MonitoringClient::MonitoringClient` (lines 21–25). -/
def monitoringHttp (config : ServiceConfig) : ClientConfig := config.http

theorem withBaseUrl_extraHeaders (http : ClientConfig) (baseUrl : Bytes) :
    (withBaseUrl http baseUrl).extraHeaders = http.extraHeaders := by
  unfold withBaseUrl
  split_ifs <;> rfl

theorem withBaseUrl_accept (http : ClientConfig) (baseUrl : Bytes) :
    (withBaseUrl http baseUrl).accept = http.accept := by
  unfold withBaseUrl
  split_ifs <;> rfl

/-! ## The requests of a run -/

/-- All requests so far were for clean paths. -/
def SentClean (w : World) : Prop := ∀ path ∈ sentPaths w.log, CleanPath path

variable {env : Env}

theorem Since.sentClean {path : Bytes} {w w' : World} {n : ℕ} (h : Since path w n w')
    (hpath : CleanPath path) (hw : SentClean w) : SentClean w' := by
  intro p hp
  rw [h.sent, List.mem_append] at hp
  rcases hp with hp | hp
  · exact hw p hp
  · rw [List.eq_of_mem_replicate hp]
    exact hpath

theorem attemptGet_sentClean {path : Bytes} (hpath : CleanPath path) :
    Triple SentClean (attemptGet env path) fun _ => SentClean := by
  intro w hw
  rcases @attemptGet_since env path w 0 w (Since.refl path w) with
    ⟨_, -, hsince, -⟩ | ⟨hsince, -⟩
  · exact hsince.sentClean hpath hw
  · exact hsince.sentClean hpath hw

theorem doGet_sentClean (policy : RetryPolicy) (initialized : Bool) {path : Bytes}
    (hpath : CleanPath path) :
    Triple SentClean (doGet env policy initialized path) fun _ => SentClean := by
  unfold doGet
  split_ifs
  · exact Triple.pure fun w hw => hw
  · refine withRetryFrom_triple (P := fun _ => SentClean) (M := fun _ => SentClean)
      (fun a _ => ?_) (fun a => Triple.act fun w hw => ?_) (fun a w _ hw => hw) 1
    · exact (attemptGet_sentClean hpath).consequence (fun _ h => h)
        fun r w hw => ⟨fun _ _ _ _ => hw, fun _ => hw⟩
    · have hlog : sentPaths (w.log ++ [.sleep (env.retryDelay a * nsPerMs)]) =
          sentPaths w.log := by
        rw [sentPaths, List.filterMap_append]
        exact List.append_nil _
      have hsleep : SentClean { w with log := w.log ++ [.sleep (env.retryDelay a * nsPerMs)] } := by
        rw [SentClean, hlog]
        exact hw
      exact ⟨fun _ => hsleep, fun _ => hsleep⟩

variable {T : Type} {glaze : Glaze} {readers : EntityReaders T}

/-- Every run of a client, complete or cut, asks for clean paths only. -/
theorem runCalls_sentClean (policy : RetryPolicy) (initialized : Bool) (calls : List Call) :
    Triple SentClean (runCalls env glaze readers policy initialized calls)
      fun _ => SentClean := by
  induction calls with
  | nil => exact Triple.pure fun w hw => hw
  | cons call calls ih =>
    have hnonempty : Nonempty (Result HttpResponse) := ⟨.error stuckError⟩
    refine Triple.bind_invariant ?_ fun _ => ih
    rw [perform_eq_handle]
    exact Program.handle_keeps (P := CleanPath) (fun t _ hruns => Call.clean hruns)
      fun path hpath => doGet_sentClean policy initialized hpath

/-- The header fields of a `CDOClient`. -/
theorem cdoHttp_fields (config : CdoConfig) :
    (cdoHttp config).fields = (bytes "Accept", config.http.accept) ::
      (config.http.extraHeaders ++ [(bytes "token", config.token)]) := by
  rw [cdoHttp, ClientConfig.fields]
  dsimp only
  rw [withBaseUrl_accept, withBaseUrl_extraHeaders]

/-- Where a `CDOClient` sends its requests unless it is told otherwise. -/
theorem baseUrl_cdoHttp_default {config : CdoConfig} (h : config.http.baseUrl = []) :
    BaseUrl (cdoHttp config).baseUrl (bytes "https") (bytes "www.ncei.noaa.gov")
      (bytes "/cdo-web/api/v2") := by
  have hbase : (cdoHttp config).baseUrl = bytes "https://www.ncei.noaa.gov/cdo-web/api/v2" := by
    rw [cdoHttp, withBaseUrl, if_pos h]
  rw [hbase]
  refine ⟨rfl, ⟨ch 'h', bytes "ttps", rfl, ?_⟩, ?_, ?_⟩
  · simp [bytes, ch, isLetter]
  · simp [bytes, ch]
  · simp [bytes]

/-- In every run of a client, complete or cut: each request, first or repeated, of a method
    or of a later page, goes to the origin of the base URL. The list of its header lines is
    that of `Accept`, the `extra_headers` and last the token as it was configured, each one
    line, and no client with another token has this list; and a redirect, which would take the
    token along, is not followed. With a token that has a CR, an LF or a NUL no request is
    made. -/
theorem runCalls_authenticated (config : CdoConfig) (env : Env) (calls : List Call) :
    let log := (runCalls env glaze readers config.retry true calls
      (newWorld env config.rateLimit)).2.log
    ∀ path ∈ sentPaths log, ∀ curl, Appends curl → ∀ request,
      prepare curl (cdoHttp config) path = .ok request →
      (request.url = (cdoHttp config).baseUrl ++ path ∧
        (∀ scheme authority basePath, BaseUrl (cdoHttp config).baseUrl scheme authority basePath →
          urlOrigin request.url = some (scheme, authority)) ∧
        (config.http.baseUrl = [] →
          urlOrigin request.url = some (bytes "https", bytes "www.ncei.noaa.gov"))) ∧
      (request.headers = ((bytes "Accept", config.http.accept) ::
          config.http.extraHeaders).map fieldLine ++ [bytes "token: " ++ config.token] ∧
        (∀ line ∈ request.headers, invalidHeader line = false) ∧
        ∀ config' path' request', prepare curl (cdoHttp config') path' = .ok request' →
          request'.headers = request.headers → config'.token = config.token) ∧
      invalidHeader config.token = false ∧
      request.followLocation = false := by
  intro log path hpath curl hcurl request h
  have hclean : CleanPath path :=
    @runCalls_sentClean env T glaze readers config.retry true calls
      (newWorld env config.rateLimit) (fun p hp => by cases hp) path hpath
  obtain ⟨⟨-, -, -, -, hvalid⟩, hurl, -, -, hfollow, -⟩ := prepare_ok hcurl h
  obtain ⟨hheaders, -, hlines⟩ := prepare_lines hcurl h
  have hurl : request.url = (cdoHttp config).baseUrl ++ path := by
    rw [hurl, requestUrl, hclean.not_absolute]
    rfl
  have horigin : ∀ scheme authority basePath,
      BaseUrl (cdoHttp config).baseUrl scheme authority basePath →
        urlOrigin request.url = some (scheme, authority) := by
    intro scheme authority basePath hbase
    rw [hurl]
    exact (hbase.append hclean.1).origin
  have htoken : (bytes "token", config.token) ∈ (cdoHttp config).extraHeaders :=
    List.mem_append_right _ (List.mem_singleton.mpr rfl)
  refine ⟨⟨hurl, horigin, fun hbase => horigin _ _ _ (baseUrl_cdoHttp_default hbase)⟩,
    ⟨?_, hlines, ?_⟩, (hvalid _ htoken).value_clean, ?_⟩
  · rw [hheaders, cdoHttp_fields, ← List.cons_append, List.map_append]
    rfl
  · intro config' path' request' h' hsame
    have hlast := congrArg List.getLast? (fields_of_headers hcurl h h' hsame)
    rw [cdoHttp_fields, cdoHttp_fields, ← List.cons_append, ← List.cons_append,
      List.getLast?_concat, List.getLast?_concat] at hlast
    exact congrArg Prod.snd (Option.some.inj hlast)
  · rw [hfollow]
    rw [List.isEmpty_eq_false_iff]
    exact List.ne_nil_of_mem htoken

/-- The request of a client for a station, over a libcurl that grants everything. -/
theorem runCalls_authenticated_station :
    let config : CdoConfig := { token := bytes "secret", http := { baseUrl := [] } }
    ∃ request, prepare (replay [] 200) (cdoHttp config) (bytes "/stations/X") = .ok request ∧
      request.url = bytes "https://www.ncei.noaa.gov/cdo-web/api/v2/stations/X" ∧
      request.headers = [bytes "Accept: application/json", bytes "token: secret"] ∧
      request.followLocation = false := by
  intro config
  let env : Env :=
    { sys := fun _ => 0, steady := fun n => n, transport := fun _ _ => .ok ⟨200, [], []⟩,
      retryDelay := fun _ => 200, turns := 1 }
  let glaze : Glaze := ⟨fun _ => none, fun _ => .error []⟩
  let readers : EntityReaders Unit := ⟨fun _ _ => .ok (), fun _ _ => .error []⟩
  have hattempt : attemptGet env (bytes "/stations/X") (newWorld env {}) = (some _, _) :=
    attemptGet_granted rfl rfl (by decide) rfl rfl
      (show RateLimiter.tryAcquire _ _ _ = (true, limiterLeft 4 4 1) by decide)
  have hget : doGet env {} true (bytes "/stations/X") (newWorld env {}) = (some _, _) :=
    withRetryFrom_done (by decide) hattempt (by decide)
  have hmem : bytes "/stations/X" ∈ sentPaths (runCalls env glaze readers {} true
      [.single .stations (bytes "X")] (newWorld env {})).2.log := by
    change _ ∈ sentPaths (Exec.bind (Exec.bind (doGet env {} true (bytes "/stations/X"))
      fun _ => pure ()) (fun _ => pure ()) (newWorld env {})).2.log
    rw [Exec.bind, Exec.bind, hget]
    decide
  have hcurl : Appends (replay [] 200) := fun _ _ _ h => (Option.some.inj h).symm
  have hprepare : ∃ request, prepare (replay [] 200) (cdoHttp config) (bytes "/stations/X") =
      .ok request := ⟨_, rfl⟩
  obtain ⟨request, hrequest⟩ := hprepare
  obtain ⟨⟨hurl, -⟩, ⟨hheaders, -⟩, -, hfollow⟩ := @runCalls_authenticated Unit glaze readers
    config env [.single .stations (bytes "X")] _ hmem _ hcurl _ hrequest
  exact ⟨request, hrequest, hurl, hheaders, hfollow⟩

end NceiCpp.Api
