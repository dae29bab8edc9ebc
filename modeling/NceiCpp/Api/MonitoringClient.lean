import NceiCpp.Api.Clients
import NceiCpp.Api.DataServiceClient
import NceiCpp.Api.ServiceRequests
import NceiCpp.Http.Urls
import NceiCpp.Models.FeedPeriods

/-!
# The monitoring client

Model of the request methods of `MonitoringClient` (`src/api/monitoring_client.cpp`), as
programs that ask for absolute URLs. A year and a month are an `int` each; they are plain
integers here, as they are only compared and written.

* `feeds_fetched`: what a method returns and requests, over every transport.
* `feed_urls`: where the URLs lead to, whatever the base URL is, and that different feeds
  have different ones.
-/

namespace NceiCpp.Api.Monitoring

open Interaction NceiCpp.Core NceiCpp.Models NceiCpp.Http

/-- `MonitoringClient::fetch` (lines 45–58). -/
def fetch (generic : Bytes → Option Json) (url : Bytes) : Client (Result HttpResponse) := do
  let r ← Program.perform url
  return Api.finish generic .ok r

/-- What the methods do with the response of `fetch`. -/
def parseFeed {S : Type} (deserialize : Bytes → S → Result Unit × S) (out : S)
    (resp : Result HttpResponse) : Result S :=
  match resp with
  | .error e => .error e
  | .ok resp =>
    match deserialize resp.body out with
    | (.error e, _) => .error e
    | (.ok _, out) => .ok out

theorem parseFeed_ok {S : Type} {deserialize : Bytes → S → Result Unit × S} {out series : S}
    {resp : HttpResponse} (h : deserialize resp.body out = (.ok (), series)) :
    parseFeed deserialize out (.ok resp) = .ok series := by
  unfold parseFeed
  dsimp only
  rw [h]

/-- The methods behind the check of their arguments. -/
def getFeed {S : Type} (glaze : GlazeGeneric) (url : Bytes)
    (deserialize : Bytes → S → Result Unit × S) (out : S) : Client (Result S) := do
  let resp ← fetch (DataService.generic glaze) url
  return parseFeed deserialize out resp

/-- The URL of `get_cag_global_annual` (lines 64–67). -/
def cagUrl (startYear endYear : ℤ) : Bytes :=
  bytes "https://www.ncei.noaa.gov/access/monitoring/climate-at-a-glance/global/" ++
    bytes "time-series/globe/land_ocean/12/1/" ++ formatInt startYear ++ bytes "-" ++
    formatInt endYear ++ bytes "/data.json"

/-- The URL of `get_gistemp_global` (line 82). -/
def gistempUrl : Bytes := bytes "https://data.giss.nasa.gov/gistemp/tabledata_v4/GLB.Ts+dSST.csv"

/-- The URL of `get_nsidc_arctic_extent` (lines 98–106). -/
def nsidcUrl (monthly : Bool) (month : ℤ) : Bytes :=
  if monthly then
    bytes "https://noaadata.apps.nsidc.org/NOAA/G02135/north/monthly/" ++ bytes "data/N_" ++
      formatPadded 2 month ++ bytes "_extent_v4.0.csv"
  else
    bytes "https://noaadata.apps.nsidc.org/NOAA/G02135/north/daily/data/" ++
      bytes "N_seaice_extent_daily_v4.0.csv"

variable (glaze : GlazeGeneric)

/-- `MonitoringClient::get_cag_global_annual` (lines 60–78). -/
def getCagGlobalAnnual (startYear endYear : ℤ) : Client (Result CagSeries) :=
  if startYear < 1 ∨ endYear > 9999 ∨ startYear > endYear then
    return .error (Error.invalidRequest (bytes "Invalid year range"))
  else getFeed glaze (cagUrl startYear endYear) (deserializeCagSeries glaze) {}

/-- `MonitoringClient::get_gistemp_global` (lines 80–92). -/
def getGistempGlobal : Client (Result GistempSeries) :=
  getFeed glaze gistempUrl deserializeGistempCsv {}

/-- `MonitoringClient::get_nsidc_arctic_extent` (lines 94–118). -/
def getNsidcArcticExtent (monthly : Bool) (month : ℤ) : Client (Result SeaIceSeries) :=
  if monthly ∧ (month < 1 ∨ month > 12) then
    return .error (Error.invalidRequest (bytes "Invalid month"))
  else
    getFeed glaze (nsidcUrl monthly month)
      (fun body out => deserializeNsidcSeaIceCsv body monthly out) { region := bytes "arctic" }

/-! ## Requests -/

section

variable {glaze} {transport : ℕ → Bytes → Result HttpResponse} {policy : RetryPolicy}
  {log : List ServiceEvent}

/-- `r` is what a feed gives: only `url` was requested, until an attempt that is not retried
    or the last one allowed, and the result is made of the outcome of that attempt. -/
def Fetched {S : Type} (glaze : GlazeGeneric) (transport : ℕ → Bytes → Result HttpResponse)
    (policy : RetryPolicy) (log : List ServiceEvent) (url : Bytes)
    (deserialize : Bytes → S → Result Unit × S) (out : S)
    (r : Option (Result S) × List ServiceEvent) : Prop :=
  AsksOnce transport policy log url (fun resp =>
    parseFeed deserialize out (Api.finish (DataService.generic glaze) .ok resp)) r

theorem getFeed_fetched {S : Type} (hmax : 0 < policy.maxAttempts.toNat) (url : Bytes)
    (deserialize : Bytes → S → Result Unit × S) (out : S) :
    Fetched glaze transport policy log url deserialize out
      ((getFeed glaze url deserialize out).handle (serviceGet transport policy true) log) :=
  handle_once hmax url _ log

/-- The methods over their retries, whatever the transport does: with arguments that do not
    pass the check nothing is sent; otherwise only the URL of the feed is requested, and a
    series is returned only if it was parsed from a response of the last request. -/
theorem feeds_fetched (hmax : 0 < policy.maxAttempts.toNat) :
    (∀ startYear endYear,
      let r := (getCagGlobalAnnual glaze startYear endYear).handle
        (serviceGet transport policy true) log
      if 1 ≤ startYear ∧ startYear ≤ endYear ∧ endYear ≤ 9999 then
        Fetched glaze transport policy log (cagUrl startYear endYear)
          (deserializeCagSeries glaze) {} r
      else r = (some (.error (Error.invalidRequest (bytes "Invalid year range"))), log)) ∧
    Fetched glaze transport policy log gistempUrl deserializeGistempCsv {}
      ((getGistempGlobal glaze).handle (serviceGet transport policy true) log) ∧
    ∀ monthly month,
      let r := (getNsidcArcticExtent glaze monthly month).handle
        (serviceGet transport policy true) log
      if monthly = true → 1 ≤ month ∧ month ≤ 12 then
        Fetched glaze transport policy log (nsidcUrl monthly month)
          (fun body out => deserializeNsidcSeaIceCsv body monthly out)
          { region := bytes "arctic" } r
      else r = (some (.error (Error.invalidRequest (bytes "Invalid month"))), log) := by
  refine ⟨fun startYear endYear => ?_, getFeed_fetched hmax _ _ _, fun monthly month => ?_⟩
  · intro r
    split_ifs with hvalid
    · have hcheck : ¬ (startYear < 1 ∨ endYear > 9999 ∨ startYear > endYear) := by omega
      have hmethod : getCagGlobalAnnual glaze startYear endYear = getFeed glaze _ _ _ :=
        if_neg hcheck
      show Fetched _ _ _ _ _ _ _ ((getCagGlobalAnnual glaze startYear endYear).handle _ log)
      rw [hmethod]
      exact getFeed_fetched hmax _ _ _
    · have hcheck : startYear < 1 ∨ endYear > 9999 ∨ startYear > endYear := by omega
      show Program.handle _ (getCagGlobalAnnual glaze startYear endYear) log = _
      rw [getCagGlobalAnnual, if_pos hcheck]
      rfl
  · intro r
    split_ifs with hvalid
    · have hcheck : ¬ (monthly = true ∧ (month < 1 ∨ month > 12)) := by
        rintro ⟨hmonthly, hmonth⟩
        have := hvalid hmonthly
        omega
      have hmethod : getNsidcArcticExtent glaze monthly month = getFeed glaze _ _ _ :=
        if_neg hcheck
      show Fetched _ _ _ _ _ _ _ ((getNsidcArcticExtent glaze monthly month).handle _ log)
      rw [hmethod]
      exact getFeed_fetched hmax _ _ _
    · push Not at hvalid
      obtain ⟨hmonthly, hmonth⟩ := hvalid
      have hcheck : monthly = true ∧ (month < 1 ∨ month > 12) := ⟨hmonthly, by omega⟩
      show Program.handle _ (getNsidcArcticExtent glaze monthly month) log = _
      rw [getNsidcArcticExtent, if_pos hcheck]
      rfl

end

/-! ## URLs -/

/-- The calls of the request methods. -/
inductive Feed
  | cagGlobalAnnual (startYear endYear : ℤ)
  | gistempGlobal
  | nsidcArcticExtent (monthly : Bool) (month : ℤ)
  deriving DecidableEq

namespace Feed

/-- The arguments pass the check of the method. -/
def Valid : Feed → Prop
  | cagGlobalAnnual startYear endYear => 1 ≤ startYear ∧ startYear ≤ endYear ∧ endYear ≤ 9999
  | gistempGlobal => True
  | nsidcArcticExtent monthly month => monthly = true → 1 ≤ month ∧ month ≤ 12

def url : Feed → Bytes
  | cagGlobalAnnual startYear endYear => cagUrl startYear endYear
  | gistempGlobal => gistempUrl
  | nsidcArcticExtent monthly month => nsidcUrl monthly month

def host : Feed → Bytes
  | cagGlobalAnnual _ _ => bytes "www.ncei.noaa.gov"
  | gistempGlobal => bytes "data.giss.nasa.gov"
  | nsidcArcticExtent _ _ => bytes "noaadata.apps.nsidc.org"

/-- The month is one of the monthly files; the daily file is the same for all. -/
def selection : Feed → Feed
  | nsidcArcticExtent false _ => nsidcArcticExtent false 9
  | feed => feed

end Feed

theorem isDigit_formatInt {n : ℤ} (hn : 0 ≤ n) : ∀ c ∈ formatInt n, isDigit c = true := by
  rw [formatInt, if_neg (not_lt.mpr hn), formatNat]
  exact isDigit_of_mem_map fun d hd => DecimalDigits.digitsOf_lt hd

theorem isDigit_formatPadded {w : ℕ} {n : ℤ} (hn : 0 ≤ n) :
    ∀ c ∈ formatPadded w n, isDigit c = true := by
  rw [formatPadded, if_neg (not_lt.mpr hn)]
  exact isDigit_of_mem_map fun d hd =>
    DecimalDigits.padTo_lt (fun _ => DecimalDigits.digitsOf_lt) hd

theorem formatInt_inj {m n : ℤ} (hm : int32Min ≤ m ∧ m ≤ int32Max)
    (hn : int32Min ≤ n ∧ n ≤ int32Max) (h : formatInt m = formatInt n) : m = n := by
  have hread := fromChars_formatInt hm.1 hm.2
  rw [h, fromChars_formatInt hn.1 hn.2] at hread
  exact (Prod.mk.inj (Option.some.inj hread)).1.symm

/-- The range of years is read off its URL. -/
theorem cagUrl_inj {s e s' e' : ℤ} (hs : 1 ≤ s ∧ s ≤ e ∧ e ≤ 9999)
    (hs' : 1 ≤ s' ∧ s' ≤ e' ∧ e' ≤ 9999) (h : cagUrl s e = cagUrl s' e') : s = s' ∧ e = e' := by
  have hyears : formatInt s ++ ch '-' :: (formatInt e ++ bytes "/data.json") =
      formatInt s' ++ ch '-' :: (formatInt e' ++ bytes "/data.json") := by
    simp only [cagUrl, List.append_assoc] at h
    exact List.append_cancel_left (List.append_cancel_left h)
  obtain ⟨hstart, hend⟩ := append_dash_inj (isDigit_formatInt (by omega))
    (isDigit_formatInt (by omega)) hyears
  have hrange : ∀ n, 1 ≤ n → n ≤ 9999 → int32Min ≤ n ∧ n ≤ int32Max := by
    intro n h0 h1
    unfold int32Min int32Max
    omega
  exact ⟨formatInt_inj (hrange s (by omega) (by omega)) (hrange s' (by omega) (by omega)) hstart,
    formatInt_inj (hrange e (by omega) (by omega)) (hrange e' (by omega) (by omega))
      (List.append_cancel_right hend)⟩

theorem nsidcUrl_inj {month month' : ℤ} (hm : 1 ≤ month ∧ month ≤ 12)
    (hm' : 1 ≤ month' ∧ month' ≤ 12) (h : nsidcUrl true month = nsidcUrl true month') :
    month = month' := by
  have hpad : formatPadded 2 month = formatPadded 2 month' := by
    simp only [nsidcUrl, if_true, List.append_assoc] at h
    exact List.append_cancel_right (List.append_cancel_left (List.append_cancel_left h))
  have hread : ∀ n, 1 ≤ n → n ≤ 12 → fromChars (formatPadded 2 n) = some (n, []) :=
    fun n h0 h1 => fromChars_formatPadded (by decide) (by omega) (by omega)
      (by unfold int32Max; omega)
  have hboth := hread month hm.1 hm.2
  rw [hpad, hread month' hm'.1 hm'.2] at hboth
  exact (Prod.mk.inj (Option.some.inj hboth)).1.symm

/-- The directory of the Arctic files. -/
def nsidcNorth : Bytes := bytes "https://noaadata.apps.nsidc.org/NOAA/G02135/north/"

theorem nsidcUrl_eq (monthly : Bool) (month : ℤ) : nsidcUrl monthly month = nsidcNorth ++
    if monthly then
      bytes "monthly/" ++ bytes "data/N_" ++ formatPadded 2 month ++ bytes "_extent_v4.0.csv"
    else bytes "daily/data/" ++ bytes "N_seaice_extent_daily_v4.0.csv" := by
  have hmonthly : bytes "https://noaadata.apps.nsidc.org/NOAA/G02135/north/monthly/" =
      nsidcNorth ++ bytes "monthly/" := rfl
  have hdaily : bytes "https://noaadata.apps.nsidc.org/NOAA/G02135/north/daily/data/" =
      nsidcNorth ++ bytes "daily/data/" := rfl
  rw [nsidcUrl, hmonthly, hdaily]
  split_ifs
  · simp only [List.append_assoc]
  · rw [List.append_assoc]

/-- The monthly files are in another directory than the daily one. -/
theorem nsidcUrl_ne (month month' : ℤ) : nsidcUrl true month ≠ nsidcUrl false month' := by
  rw [nsidcUrl_eq, nsidcUrl_eq, if_pos rfl, if_neg Bool.false_ne_true]
  intro h
  have hhead := congrArg List.head? (List.append_cancel_left h)
  cases hhead

theorem Feed.baseUrl (feed : Feed) : ∃ path, BaseUrl feed.url (bytes "https") feed.host path := by
  have hscheme : IsScheme (bytes "https") :=
    ⟨ch 'h', bytes "ttps", rfl, by simp [bytes, ch, isLetter]⟩
  cases feed with
  | cagGlobalAnnual startYear endYear =>
    have hglobal : BaseUrl
        (bytes "https://www.ncei.noaa.gov/access/monitoring/climate-at-a-glance/global/")
        (bytes "https") (bytes "www.ncei.noaa.gov")
        (bytes "/access/monitoring/climate-at-a-glance/global/") :=
      ⟨rfl, hscheme, by simp [bytes, ch], by simp [bytes]⟩
    have hurl := hglobal.append_text (by simp [bytes])
      (bytes "time-series/globe/land_ocean/12/1/" ++ formatInt startYear ++ bytes "-" ++
        formatInt endYear ++ bytes "/data.json")
    simp only [← List.append_assoc] at hurl
    exact ⟨_, hurl⟩
  | gistempGlobal =>
    exact ⟨bytes "/gistemp/tabledata_v4/GLB.Ts+dSST.csv", rfl, hscheme,
      by simp [Feed.host, bytes, ch], by simp [bytes]⟩
  | nsidcArcticExtent monthly month =>
    have hnorth : BaseUrl nsidcNorth (bytes "https") (bytes "noaadata.apps.nsidc.org")
        (bytes "/NOAA/G02135/north/") :=
      ⟨rfl, hscheme, by simp [bytes, ch], by simp [bytes]⟩
    rw [Feed.url, nsidcUrl_eq]
    exact ⟨_, hnorth.append_text (by simp [bytes]) _⟩

/-- Of a literal it is computed that it has no NUL. -/
theorem noNul_of_all {text : Bytes} (h : (text.all fun c => c ≠ 0) = true) : 0 ∉ text := by
  intro hmem
  have hne := List.all_eq_true.mp h 0 hmem
  simp at hne

theorem noNul_of_digits {text : Bytes} (h : ∀ c ∈ text, isDigit c = true) : 0 ∉ text := by
  intro hmem
  have hdigit := h 0 hmem
  revert hdigit
  decide

theorem Feed.noNul {feed : Feed} (h : feed.Valid) : 0 ∉ feed.url := by
  cases feed with
  | cagGlobalAnnual startYear endYear =>
    have hvalid : 1 ≤ startYear ∧ startYear ≤ endYear ∧ endYear ≤ 9999 := h
    simp only [Feed.url, cagUrl, List.mem_append, not_or]
    exact ⟨⟨⟨⟨⟨noNul_of_all rfl, noNul_of_all rfl⟩,
      noNul_of_digits (isDigit_formatInt (by omega))⟩, noNul_of_all rfl⟩,
      noNul_of_digits (isDigit_formatInt (by omega))⟩, noNul_of_all rfl⟩
  | gistempGlobal => exact noNul_of_all rfl
  | nsidcArcticExtent monthly month =>
    have hvalid : monthly = true → 1 ≤ month ∧ month ≤ 12 := h
    rw [Feed.url, nsidcUrl]
    split_ifs with hmonthly
    · have hmonth := hvalid hmonthly
      simp only [List.mem_append, not_or]
      exact ⟨⟨⟨noNul_of_all rfl, noNul_of_all rfl⟩,
        noNul_of_digits (isDigit_formatPadded (by omega))⟩, noNul_of_all rfl⟩
    · simp only [List.mem_append, not_or]
      exact ⟨noNul_of_all rfl, noNul_of_all rfl⟩

/-- Feeds of different hosts have different URLs. -/
theorem Feed.host_eq {feed feed' : Feed} (h : feed.url = feed'.url) : feed.host = feed'.host := by
  obtain ⟨path, hbase⟩ := feed.baseUrl
  obtain ⟨path', hbase'⟩ := feed'.baseUrl
  have horigin := hbase.origin
  rw [h, hbase'.origin] at horigin
  exact (Prod.mk.inj (Option.some.inj horigin)).2.symm

theorem Feed.url_selection (feed : Feed) : feed.selection.url = feed.url := by
  cases feed with
  | nsidcArcticExtent monthly month => cases monthly <;> rfl
  | _ => rfl

theorem Feed.url_inj {feed feed' : Feed} (hvalid : feed.Valid) (hvalid' : feed'.Valid)
    (h : feed.url = feed'.url) : feed.selection = feed'.selection := by
  have hhost := Feed.host_eq h
  cases feed with
  | cagGlobalAnnual startYear endYear =>
    cases feed' with
    | cagGlobalAnnual startYear' endYear' =>
      obtain ⟨rfl, rfl⟩ := cagUrl_inj hvalid hvalid' h
      rfl
    | gistempGlobal => simp [Feed.host, bytes, ch] at hhost
    | nsidcArcticExtent _ _ => simp [Feed.host, bytes, ch] at hhost
  | gistempGlobal =>
    cases feed' with
    | cagGlobalAnnual _ _ => simp [Feed.host, bytes, ch] at hhost
    | gistempGlobal => rfl
    | nsidcArcticExtent _ _ => simp [Feed.host, bytes, ch] at hhost
  | nsidcArcticExtent monthly month =>
    cases feed' with
    | cagGlobalAnnual _ _ => simp [Feed.host, bytes, ch] at hhost
    | gistempGlobal => simp [Feed.host, bytes, ch] at hhost
    | nsidcArcticExtent monthly' month' =>
      cases monthly with
      | true =>
        cases monthly' with
        | true =>
          obtain rfl := nsidcUrl_inj (hvalid rfl) (hvalid' rfl) h
          rfl
        | false => exact absurd h (nsidcUrl_ne month month')
      | false =>
        cases monthly' with
        | true => exact absurd h.symm (nsidcUrl_ne month' month)
        | false => rfl

/-- The URLs of the feeds. With every configuration of the client, a base URL included, a
    request for a feed whose arguments are valid goes to the URL of the feed as it stands,
    over HTTPS to the host that publishes it; the URL has no NUL, and a configuration without
    header fields of its own, which asks for no credentials to be sent, is accepted. The URL
    says which feed it is: two calls have the same one only if they ask for the same years, or
    for the same file. -/
theorem feed_urls (config : ServiceConfig) (feed : Feed) (hvalid : feed.Valid) :
    requestUrl (monitoringHttp config) feed.url = feed.url ∧
    urlOrigin feed.url = some (bytes "https", feed.host) ∧
    (∀ curl, Grants curl → config.http.extraHeaders = [] →
      ((∃ request, prepare curl (monitoringHttp config) feed.url = .ok request) ↔
        invalidHeader config.http.userAgent = false ∧ invalidHeader config.http.accept = false ∧
          0 ≤ config.http.timeout)) ∧
    ∀ feed' : Feed, feed'.Valid → (feed.url = feed'.url ↔ feed.selection = feed'.selection) := by
  obtain ⟨path, hbase⟩ := feed.baseUrl
  have hurl : requestUrl (monitoringHttp config) feed.url = feed.url := by
    rw [requestUrl, hbase.absolute]
    rfl
  refine ⟨hurl, hbase.origin, fun curl hcurl hfields => ?_, fun feed' hvalid' => ⟨?_, ?_⟩⟩
  · have happends : Appends curl := fun headers header appended happend => by
      rw [hcurl.append] at happend
      exact (Option.some.inj happend).symm
    constructor
    · rintro ⟨request, hrequest⟩
      obtain ⟨⟨-, hagent, haccept, htimeout, -⟩, -⟩ := prepare_ok happends hrequest
      exact ⟨hagent, haccept, htimeout⟩
    · rintro ⟨hagent, haccept, htimeout⟩
      refine prepare_of_valid hcurl ?_ hagent haccept htimeout ?_
      · rw [hurl]
        exact Feed.noNul hvalid
      · rw [show (monitoringHttp config).extraHeaders = [] from hfields]
        exact List.forall_mem_nil _
  · exact Feed.url_inj hvalid hvalid'
  · intro h
    rw [← feed.url_selection, h, feed'.url_selection]

/-- The September file, for a client with a base URL: where the request goes, that it is made, and
    that the file of August has another URL. -/
theorem feed_urls_september :
    let config : ServiceConfig := { http := { baseUrl := bytes "https://host" } }
    let september := Feed.nsidcArcticExtent true 9
    september.url = bytes
      "https://noaadata.apps.nsidc.org/NOAA/G02135/north/monthly/data/N_09_extent_v4.0.csv" ∧
    requestUrl (monitoringHttp config) september.url = september.url ∧
    urlOrigin september.url = some (bytes "https", bytes "noaadata.apps.nsidc.org") ∧
    (∃ request, prepare (replay [] 200) (monitoringHttp config) september.url = .ok request) ∧
    september.url ≠ (Feed.nsidcArcticExtent true 8).url := by
  intro config september
  have hvalid : september.Valid := fun _ => by decide
  have hgrants : Grants (replay [] 200) := ⟨rfl, fun _ _ => rfl, fun _ => rfl⟩
  obtain ⟨hurl, horigin, hmade, htells⟩ := feed_urls config september hvalid
  refine ⟨rfl, hurl, horigin, ?_, fun hsame => ?_⟩
  · exact (hmade _ hgrants rfl).mpr ⟨by decide, by decide, by decide⟩
  · have hselection := (htells (Feed.nsidcArcticExtent true 8) fun _ => by decide).mp hsame
    revert hselection
    decide

end NceiCpp.Api.Monitoring
