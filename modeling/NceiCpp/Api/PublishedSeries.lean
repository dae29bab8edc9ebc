import NceiCpp.Api.HttpTransport
import NceiCpp.Api.MonitoringClient
import NceiCpp.Api.Query
import NceiCpp.Models.PublishedFeed
import NceiCpp.Models.PublishedTable

/-!
# From the publisher to the caller

The methods of `MonitoringClient` and `DataServiceClient::get_data` over HTTP, whose transfers
fail now and then, and servers that publish measurements in files of their own layout: what the
methods return are the measurements.

* `feeds_published`: the three feeds.
* `getData_published`: the tables of the Data Service.
-/

namespace NceiCpp.Api.Monitoring

open DelimitedText Interaction NceiCpp.Core NceiCpp.Models NceiCpp.Http

variable {glaze : GlazeGeneric} {transport : ℕ → Bytes → Result HttpResponse}
  {policy : RetryPolicy} {log : List ServiceEvent} {S : Type}

theorem Fetched.delivers {url : Bytes} {deserialize : Bytes → S → Result Unit × S}
    {out series : S} {r : Option (Result S) × List ServiceEvent}
    (h : Fetched glaze transport policy log url deserialize out r)
    (hmax : 0 < policy.maxAttempts.toNat) {IsBody : Bytes → Prop}
    (hbody : ∀ body, IsBody body → deserialize body out = (.ok (), series))
    (hserver : Publishes transport log url IsBody) :
    Delivers transport policy log url IsBody series r := by
  refine AsksOnce.delivers h hmax ?_ ?_ hserver
  · rintro _ ⟨body, headers, rfl, hbody'⟩
    rw [finish_served _ _ rfl]
    exact parseFeed_ok (hbody body hbody')
  · intro outcome hfails
    obtain ⟨e, he⟩ := finish_failed (S := HttpResponse) hfails (DataService.generic glaze) .ok
    exact ⟨e, by rw [he]; rfl⟩

/-- From the publisher to the caller. The three feeds are published with measurements that are
    not all missing: in every spelling of the values, with the columns in every order and every
    way of writing delimited text. A transfer that completes brings such a file, in pieces of any
    length; others break off, are too long or end with another status. Then the series a method
    returns are the measurements that are not missing, in their order, whatever failed before;
    it returns them if the client does not give up before; and no other URL is requested. The
    periods of sea ice that is published in the order of the dates are strictly increasing
    texts. -/
theorem feeds_published (config : ServiceConfig) {curls : ℕ → Curl}
    (hplain : ∀ n, PlainTransfers (curls n)) (hmax : 0 < config.retry.maxAttempts.toNat) :
    let http := monitoringHttp config
    let transport := httpTransport curls http
    (∀ startYear endYear, 1 ≤ startYear ∧ startYear ≤ endYear ∧ endYear ≤ 9999 →
      ∀ description data, cagPoints data ≠ [] →
        HonestFrom curls http log (cagUrl startYear endYear) (CagBody glaze description data) →
        Delivers transport config.retry log (cagUrl startYear endYear)
          (CagBody glaze description data) { description with data := cagPoints data }
          ((getCagGlobalAnnual glaze startYear endYear).handle
            (serviceGet transport config.retry true) log)) ∧
    (∀ data, annualPoints data ≠ [] →
      HonestFrom curls http log gistempUrl (GistempBody data) →
      Delivers transport config.retry log gistempUrl (GistempBody data)
        { annual := annualPoints data }
        ((getGistempGlobal glaze).handle (serviceGet transport config.retry true) log)) ∧
    ∀ monthly month, (monthly = true → 1 ≤ month ∧ month ≤ 12) →
      ∀ data, seaIcePoints monthly data ≠ [] →
        HonestFrom curls http log (nsidcUrl monthly month) (SeaIceBody monthly data) →
        Delivers transport config.retry log (nsidcUrl monthly month) (SeaIceBody monthly data)
          { monthly := monthly, extent := seaIcePoints monthly data }
          ((getNsidcArcticExtent glaze monthly month).handle
            (serviceGet transport config.retry true) log) ∧
        ∀ body, SeaIceBody monthly data body → data.Pairwise (Extent.Before monthly) →
          (seaIcePoints monthly data).Pairwise fun p q => p.period < q.period := by
  intro http transport
  obtain ⟨hcag, hgistemp, hnsidc⟩ := @feeds_fetched glaze transport config.retry log hmax
  refine ⟨fun startYear endYear hvalid description data hdata hserver => ?_,
    fun data hdata hserver => ?_, fun monthly month hvalid data hdata hserver => ⟨?_, ?_⟩⟩
  · have hfetched := hcag startYear endYear
    dsimp only at hfetched
    rw [if_pos hvalid] at hfetched
    refine hfetched.delivers hmax (fun body hbody => ?_) (hserver.publishes hplain)
    rw [deserialize_cagBody hbody, finishCag, if_neg hdata]
  · refine hgistemp.delivers hmax (fun body hbody => ?_) (hserver.publishes hplain)
    rw [deserialize_gistempBody hbody, if_neg hdata]
  · have hfetched := hnsidc monthly month
    dsimp only at hfetched
    rw [if_pos hvalid] at hfetched
    refine hfetched.delivers hmax (fun body hbody => ?_) (hserver.publishes hplain)
    show deserializeNsidcSeaIceCsv body monthly _ = _
    rw [deserialize_seaIceBody hbody, if_neg hdata]
  · intro body hbody hsorted
    exact seaIcePoints_sorted hbody.fits hsorted

theorem gistempFile_annualTable : GistempFile annualTable [⟨2020, some 12⟩] := by
  have hvalue : twelve.value = 12 := by
    norm_num [twelve, Numeral.value, Numeral.magnitude, DecimalDigits.value]
  have hspells : StringSpells 12 (bytes "12") :=
    ⟨twelve, false, [], [], hvalue, by simp, by simp, rfl⟩
  have hrange : InRange 12 := by apply inRange_of_le <;> norm_num
  have hmarker : ¬ IsMarker 12 := by norm_num [IsMarker]
  have hall : (bytes "2020").all isDigit = true := rfl
  have hyear : FourDigits (bytes "2020") 2020 := ⟨⟨rfl, List.all_eq_true.mp hall⟩, rfl⟩
  exact ⟨⟨0, 1, by decide, by decide, .cons ⟨hyear, hspells, hrange, hmarker⟩ .nil⟩⟩

theorem length_annualRows : (render true annualRows).length < 2 ^ 64 := by decide

/-- The annual means over a service that fails once. -/
theorem feeds_published_annual :
    ((getGistempGlobal ⟨fun _ => .error [], fun _ => none⟩).handle
      (serviceGet (httpTransport (answersSecond (render true annualRows) length_annualRows)
        { baseUrl := [] }) {} true) []).1 =
      some (.ok { annual := [{ period := bytes "2020", value := .finite 12 }] }) := by
  have hbody : GistempBody [⟨2020, some 12⟩] (render true annualRows) :=
    ⟨2, annualTable, [], annualRows, true, gistempFile_annualTable, List.forall_mem_nil _, rfl, rfl⟩
  have hpoints : annualPoints [⟨2020, some 12⟩] =
      [{ period := bytes "2020", value := .finite 12 }] := by decide
  obtain ⟨-, hgistemp, -⟩ := @feeds_published ⟨fun _ => .error [], fun _ => none⟩ []
    { http := { baseUrl := [] } } _ (plainTransfers_answersSecond length_annualRows) (by decide)
  have hdelivers := hgistemp [⟨2020, some 12⟩] (by rw [hpoints]; exact List.cons_ne_nil _ _)
    fun n _ => honest_answersSecond length_annualRows hbody n _ _
  rw [← hpoints]
  refine hdelivers.complete ⟨1, by decide, ⟨_, [], by decide +kernel, hbody⟩, fun i hi hle => ?_⟩
  obtain rfl : i = 1 := by omega
  decide +kernel

end NceiCpp.Api.Monitoring

namespace NceiCpp.Api.DataService

open DelimitedText Interaction NceiCpp.Core NceiCpp.Models NceiCpp.Http

variable {glaze : GlazeGeneric} {log : List ServiceEvent}

/-- The delimiter of a format, for the formats of delimited text. -/
def delimiterOf : ResponseFormat → Option Delimiter
  | .csv => some .comma
  | .ssv => some .space
  | _ => none

/-- The Data Service publishes a table: a transfer that completes brings it in the format that
    was asked for, in pieces of any length, and others fail. Then `get_data` returns the table
    or an error: its columns and its rows in order, with the text of each cell and the number of
    each coordinate, however the fields are quoted and the lines are ended. It returns the table
    if it does not give up before, and asks for nothing but the query of its parameters. -/
theorem getData_published (config : ServiceConfig) {curls : ℕ → Curl}
    (hplain : ∀ n, PlainTransfers (curls n)) (hmax : 0 < config.retry.maxAttempts.toNat)
    (params : DataRequestParams) {delim : Delimiter}
    (hformat : delimiterOf (params.format.getD .csv) = some delim) (t : Table)
    (hserver : HonestFrom curls (dataServiceHttp config) log (buildServiceQuery params)
      (TableBody delim t)) :
    let transport := httpTransport curls (dataServiceHttp config)
    Delivers transport config.retry log (buildServiceQuery params) (TableBody delim t) t.collection
      ((getData glaze params).handle (serviceGet transport config.retry true) log) ∧
    ∀ r ∈ t.records, ∀ key, r.dataPoint.get key =
      if key ∈ knownFields then none else (r.named.lookup key).map Cell.bytes := by
  intro transport
  refine ⟨(handle_once hmax (buildServiceQuery params) _ log).delivers hmax ?_ ?_
      (hserver.publishes hplain), fun r _ key => r.get_dataPoint key⟩
  · rintro _ ⟨body, headers, rfl, hbody⟩
    rw [finish_served _ _ rfl]
    have hparse := parseDelimited_tableBody hbody
    generalize params.format.getD .csv = format at hformat
    cases format with
    | csv =>
      cases hformat
      exact congrArg Except.ok hparse
    | ssv =>
      cases hformat
      exact congrArg Except.ok hparse
    | _ => cases hformat
  · intro outcome hfails
    exact finish_failed hfails _ _

theorem length_stationRows : (render true stationRows).length < 2 ^ 64 := by decide

/-- The table of one station over a service that fails once. -/
theorem getData_published_stationTable :
    let transport := httpTransport (answersSecond (render true stationRows) length_stationRows)
      (dataServiceHttp { http := { baseUrl := [] } })
    ((getData ⟨fun _ => .error [], fun _ => none⟩ { dataset := bytes "daily-summaries" }).handle
      (serviceGet transport {} true) []).1 = some (.ok stationTable.collection) := by
  intro transport
  have hbody : TableBody .comma stationTable (render true stationRows) :=
    ⟨stationRows, true, stationRows_fields, rfl⟩
  obtain ⟨hdelivers, -⟩ := @getData_published ⟨fun _ => .error [], fun _ => none⟩ []
    { http := { baseUrl := [] } } _ (plainTransfers_answersSecond length_stationRows) (by decide)
    { dataset := bytes "daily-summaries" } _ rfl stationTable
    fun n _ => honest_answersSecond length_stationRows hbody n _ _
  refine hdelivers.complete ⟨1, by decide, ⟨_, [], by decide +kernel, hbody⟩, fun i hi hle => ?_⟩
  obtain rfl : i = 1 := by omega
  decide +kernel

end NceiCpp.Api.DataService
