import NceiCpp.Api.CdoRequests
import NceiCpp.Api.DataServiceClient
import NceiCpp.Api.GetDataAll
import NceiCpp.Api.PathIds
import NceiCpp.Http.Urls

/-!
# The URLs of the requests

The paths the two clients hand to `HttpClient::get`, and where the requests go. The client
sends its token with every request, so no path may look like an absolute URL.

* `Handed`: the paths of all methods.
* `Handed.clean`: each starts with a slash and consists of the bytes of a path.
* `requests_stay_on_host`: the URL of a request is the base URL with the path behind it.
-/

namespace NceiCpp.Api

open Interaction NceiCpp.Core NceiCpp.Models NceiCpp.Http

/-- A path that starts with a slash and has no other bytes than a path may have. -/
def CleanPath (path : Bytes) : Prop := path.head? = some (ch '/') ∧ ∀ c ∈ path, UrlChar c

/-- `path` is asked for by a run of a method of `CDOClient` or of `DataServiceClient`. -/
def Handed {T M : Type} (glaze : Glaze) (readers : EntityReaders T) (generic : GlazeGeneric)
    (read : Bytes → Except Bytes M) (path : Bytes) : Prop :=
  (∃ (call : Call) (t : List Exchange), (call.method glaze readers).Runs t () ∧
    path ∈ t.map Prod.fst) ∨
  ∃ (call : DataService.Call) (t : List Exchange), (call.method generic read).Runs t () ∧
    path ∈ t.map Prod.fst

/-! ## The paths of the builders -/

theorem head?_renderPath {base : Bytes} {c : Byte} (h : base.head? = some c)
    (kvs : List (Bytes × Bytes)) : (renderPath base kvs).head? = some c := by
  obtain ⟨rest, rfl⟩ := List.head?_eq_some_iff.mp h
  unfold renderPath QueryString.render
  split_ifs <;> rfl

theorem cleanPath_buildListQuery (col : Collection) (params : CDOListParams) :
    CleanPath (buildListQuery col.path params) := by
  refine ⟨?_, urlChar_buildListQuery col params⟩
  rw [buildListQuery_eq]
  exact head?_renderPath (by cases col <;> rfl) _

theorem cleanPath_buildDataQuery (params : GetDataParams) : CleanPath (buildDataQuery params) := by
  refine ⟨?_, urlChar_buildDataQuery params⟩
  rw [buildDataQuery_eq]
  exact head?_renderPath rfl _

theorem cleanPath_buildServiceQuery (params : DataRequestParams) :
    CleanPath (buildServiceQuery params) := by
  refine ⟨?_, urlChar_buildServiceQuery params⟩
  rw [buildServiceQuery_eq]
  exact head?_renderPath rfl _

/-- An encoded id between two fixed texts. -/
theorem cleanPath_encode {front back : Bytes} (hhead : front.head? = some (ch '/'))
    (hfront : front.all (UrlChar ·) = true) (hback : back.all (UrlChar ·) = true) (id : Bytes) :
    CleanPath (front ++ encode id ++ back) := by
  constructor
  · obtain ⟨rest, rfl⟩ := List.head?_eq_some_iff.mp hhead
    rfl
  · intro c hc
    rcases List.mem_append.mp hc with hc | hc
    · rcases List.mem_append.mp hc with hc | hc
      · simpa using List.all_eq_true.mp hfront c hc
      · exact urlChar_encode hc
    · simpa using List.all_eq_true.mp hback c hc

theorem cleanPath_single (col : Collection) (id : Bytes) :
    CleanPath (col.path ++ ch '/' :: encode id) := by
  have h := @cleanPath_encode (col.path ++ [ch '/']) [] (by cases col <;> rfl)
    (by cases col <;> rfl) rfl id
  simpa using h

/-! ## The paths of the methods -/

/-- A method that asks once and throws the result away. -/
theorem runs_discard {α : Type} {path : Bytes} {f : Result HttpResponse → α} {t : List Exchange}
    (h : (do
      let _ ← (Program.perform path >>= fun response => pure (f response) : Client α)
      return () : Client Unit).Runs t ()) :
    t.map Prod.fst = [path] := by
  obtain ⟨r, t', rfl, rfl, -⟩ := Program.runs_perform_bind.mp h
  rfl

theorem Chunks.clean {glaze : Glaze} {params : GetDataParams} {ranges : List DateRange}
    {acc : List DataRecord} {t : List Exchange} {res : Result (List DataRecord)}
    (h : Chunks glaze params ranges acc t res) : ∀ path ∈ t.map Prod.fst, CleanPath path := by
  intro path hpath
  obtain ⟨x, hx, rfl⟩ := List.mem_map.mp hpath
  obtain ⟨range, -, o, ho⟩ := h.asksFor x hx
  rw [ho]
  exact cleanPath_buildDataQuery _

theorem getDataAll_clean {glaze : Glaze} {params : GetDataParams} {t : List Exchange}
    {res : Result (List DataRecord)} (h : (getDataAll glaze params).Runs t res) :
    ∀ path ∈ t.map Prod.fst, CleanPath path := by
  cases hsplit : splitDateRange params.startDate params.endDate with
  | ok ranges => exact ((getDataAll_runs hsplit).mp h).clean
  | error e =>
    rw [(getDataAll_runs_invalid hsplit h).1]
    exact List.forall_mem_nil _

theorem Call.clean {T : Type} {glaze : Glaze} {readers : EntityReaders T} {call : Call}
    {t : List Exchange} (h : (call.method glaze readers).Runs t ()) :
    ∀ path ∈ t.map Prod.fst, CleanPath path := by
  cases call with
  | single col id =>
    rw [runs_discard h]
    exact List.forall_mem_singleton.mpr (cleanPath_single col id)
  | list col params =>
    rw [runs_discard h]
    exact List.forall_mem_singleton.mpr (cleanPath_buildListQuery col params)
  | data params =>
    rw [runs_discard h]
    exact List.forall_mem_singleton.mpr (cleanPath_buildDataQuery params)
  | dataAll params =>
    obtain ⟨t1, t2, res, rfl, h1, rfl, -⟩ := Program.runs_bind.mp h
    rw [List.append_nil]
    exact getDataAll_clean h1

theorem DataService.Call.clean {M : Type} {generic : GlazeGeneric}
    {read : Bytes → Except Bytes M} {call : DataService.Call} {t : List Exchange}
    (h : (call.method generic read).Runs t ()) : ∀ path ∈ t.map Prod.fst, CleanPath path := by
  cases call with
  | data params =>
    rw [runs_discard h]
    exact List.forall_mem_singleton.mpr (cleanPath_buildServiceQuery params)
  | dataRaw params =>
    rw [runs_discard h]
    exact List.forall_mem_singleton.mpr (cleanPath_buildServiceQuery params)
  | metadata datasetId =>
    rw [runs_discard h]
    exact List.forall_mem_singleton.mpr (cleanPath_encode rfl rfl rfl datasetId)

section

variable {T M : Type} {glaze : Glaze} {readers : EntityReaders T} {generic : GlazeGeneric}
  {read : Bytes → Except Bytes M}

theorem Handed.clean {path : Bytes} (h : Handed glaze readers generic read path) :
    CleanPath path := by
  rcases h with ⟨call, t, hrun, hpath⟩ | ⟨call, t, hrun, hpath⟩
  · exact Call.clean hrun path hpath
  · exact DataService.Call.clean hrun path hpath

/-- A path that starts with a slash is not absolute. -/
theorem CleanPath.not_absolute {path : Bytes} (h : CleanPath path) :
    isAbsoluteUrl path = false := by
  rw [Bool.eq_false_iff, Ne, isAbsoluteUrl_iff]
  rintro ⟨scheme, rest, hpath, c, tail, rfl, hletter, -⟩
  have hc : c = ch '/' := by
    have hhead := h.1
    rw [hpath] at hhead
    exact Option.some.inj hhead
  rw [hc] at hletter
  revert hletter
  decide

theorem not_mem_cleanPath {path : Bytes} (h : CleanPath path) : (0 : Byte) ∉ path := by
  intro hmem
  have := (h.2 0 hmem).pathByte.1
  revert this
  decide

/-- **Requests stay on the configured host.** `is_absolute_url` accepts the absolute URLs;
    every path of the two clients starts with a slash, consists of the bytes of a path and
    is not absolute, so that its URL is the base URL with the path behind it, with the
    scheme and authority of the base URL and without a NUL. -/
theorem requests_stay_on_host :
    (∀ value, isAbsoluteUrl value = true ↔ IsAbsolute value) ∧
    ∀ path, Handed glaze readers generic read path →
      path.head? = some (ch '/') ∧ (∀ c ∈ path, UrlChar c) ∧ isAbsoluteUrl path = false ∧
      ∀ (config : ClientConfig) (scheme authority basePath : Bytes),
        BaseUrl config.baseUrl scheme authority basePath → 0 ∉ config.baseUrl →
        requestUrl config path = config.baseUrl ++ path ∧
        urlOrigin config.baseUrl = some (scheme, authority) ∧
        urlOrigin (requestUrl config path) = some (scheme, authority) ∧
        0 ∉ requestUrl config path := by
  refine ⟨isAbsoluteUrl_iff, fun path hpath => ?_⟩
  have hclean := hpath.clean
  have habsolute := hclean.not_absolute
  refine ⟨hclean.1, hclean.2, habsolute, fun config scheme authority basePath hbase hnul => ?_⟩
  have hurl : requestUrl config path = config.baseUrl ++ path := by
    rw [requestUrl, habsolute]
    rfl
  refine ⟨hurl, hbase.origin, ?_, ?_⟩
  · rw [hurl]
    exact (hbase.append hclean.1).origin
  · rw [hurl, List.mem_append, not_or]
    exact ⟨hnul, not_mem_cleanPath hclean⟩

end

/-- The request for a station whose id looks like a URL. -/
theorem requests_stay_on_host_station :
    urlOrigin (requestUrl { baseUrl := bytes "https://host/api" }
      (bytes "/stations/ftp%3A%2F%2Fevil")) = some (bytes "https", bytes "host") := by
  have hhanded : Handed ⟨fun _ => none, fun _ => .ok {}⟩ ⟨fun _ _ => .ok (), fun _ _ => .ok {}⟩
      ⟨fun _ => .error [], fun _ => none⟩ (fun _ => .ok ())
      (bytes "/stations/ftp%3A%2F%2Fevil") :=
    .inl ⟨.single .stations (bytes "ftp://evil"), [(_, .error stuckError)],
      ⟨_, [], rfl, rfl, rfl⟩, by decide⟩
  have hbase : BaseUrl (bytes "https://host/api") (bytes "https") (bytes "host")
      (bytes "/api") := by
    refine ⟨rfl, ⟨ch 'h', bytes "ttps", rfl, rfl, ?_⟩, ?_, ?_⟩
    · simp [bytes, ch, isLetter]
    · simp [bytes, ch]
    · simp [bytes]
  have hurl := (requests_stay_on_host.2 _ hhanded).2.2.2 { baseUrl := bytes "https://host/api" }
    _ _ _ hbase (by decide)
  exact hurl.2.2.1

end NceiCpp.Api
