import NceiCpp.Api.PagingServer

/-!
# What a successful `get_data_all` may have left out

A chunk ends with the first page that has no more, has no records or gives no further
offset; only the last of the three is an error. A page without a `metadata` object has
no more, whatever it holds.

`ChunksComplete` is the property that no chunk ended early, `HidesMore` a page that ends
a chunk early without an error.

* `getDataAll_complete_iff`: a run that succeeds is complete if and only if none of its
  pages hides more.
* `getDataAll_drops_records`: both kinds of such pages occur in successful runs.
-/

namespace NceiCpp.Api

open Interaction NceiCpp.Core NceiCpp.Models

/-- What Glaze finds in an answer that `get_data` parses without an error. -/
def pageMembers (glaze : Glaze) (r : Result HttpResponse) : Option (EnvelopeMembers DataRecord) :=
  match r with
  | .error _ => none
  | .ok response =>
    if response.statusCode ≠ 200 then none else (glaze.records response.body).toOption

/-- The page of a body. -/
def pageOf (m : EnvelopeMembers DataRecord) : CDOResponse DataRecord :=
  ⟨m.fill.metadata, m.fill.results⟩

/-- The limit an exchange asks for. -/
def requestedLimit (x : Exchange) : ℤ := ((requestOf x.1).limit.getD 1000).toInt

/-- Every chunk ended with a page that has no more, and every page without a `metadata`
    object held fewer records than were asked for. -/
def ChunksComplete (glaze : Glaze) (params : GetDataParams) (t : List Exchange) : Prop :=
  (∀ range ∈ chunksOf params, ∃ x page, (chunkExchanges range t).getLast? = some x ∧
    dataPage glaze x.2 = .ok page ∧ page.hasMore = false) ∧
  ∀ x ∈ t, ∀ m, pageMembers glaze x.2 = some m → m.metadata = none →
    ((pageOf m).results.length : ℤ) < requestedLimit x

/-- The page has more and no records, or it has no `metadata` object and as many records
    as were asked for. -/
def HidesMore (glaze : Glaze) (x : Exchange) : Prop :=
  match pageMembers glaze x.2 with
  | none => False
  | some m =>
    ((pageOf m).hasMore = true ∧ (pageOf m).results = []) ∨
      (m.metadata.isNone ∧ requestedLimit x ≤ (pageOf m).results.length)

instance (glaze : Glaze) (x : Exchange) : Decidable (HidesMore glaze x) := by
  unfold HidesMore
  split <;> infer_instance

/-! ## Pages -/

variable {glaze : Glaze} {params : GetDataParams}

theorem dataPage_eq_ok {r : Result HttpResponse} {page : CDOResponse DataRecord} :
    dataPage glaze r = .ok page ↔ ∃ m, pageMembers glaze r = some m ∧ page = pageOf m := by
  unfold dataPage finish pageMembers
  cases r with
  | error e => simp
  | ok response =>
    by_cases hstatus : response.statusCode = 200
    · simp only [hstatus, ne_eq, not_true_eq_false, if_false, parseListResponse,
        deserializeCdoListImpl]
      cases glaze.records response.body with
      | error ec => simp [Except.toOption]
      | ok m =>
        simp only [Except.toOption, Except.ok.injEq, Option.some.injEq]
        constructor
        · rintro rfl
          exact ⟨m, rfl, rfl⟩
        · rintro ⟨_, rfl, rfl⟩
          rfl
    · simp [hstatus]

/-- A chunk that does not fail ends with its last page, which has no more or has no
    records; every page before it has records. -/
theorem Pages.ok_last {range : DateRange} {offset : Int32} {acc out : List DataRecord}
    {t : List Exchange} (h : Pages glaze params range offset acc t (.ok out)) :
    ∃ t' x page, t = t' ++ [x] ∧ dataPage glaze x.2 = .ok page ∧
      (page.hasMore = true → page.results = []) ∧
      ∀ y ∈ t', ∃ p, dataPage glaze y.2 = .ok p ∧ p.results ≠ [] := by
  generalize hres : (Except.ok out : Result (List DataRecord)) = res at h
  induction h with
  | failed _ => cases hres
  | stuck _ _ => cases hres
  | @last offset acc r page hpage hstuck hadv =>
    refine ⟨[], _, page, rfl, hpage, ?_, List.forall_mem_nil _⟩
    intro hmore
    by_contra hne
    have hnext : ¬ page.nextOffset ≤ offset := fun hle => hstuck ⟨hmore, hle⟩
    exact hadv ⟨hmore, by simpa using hne, Int32.not_le.mp hnext⟩
  | @more offset acc r page t res hpage hadv _ ih =>
    obtain ⟨t', x, last, rfl, hlast, hempty, hbefore⟩ := ih hres
    refine ⟨_ :: t', x, last, rfl, hlast, hempty,
      List.forall_mem_cons.mpr ⟨⟨page, hpage, ?_⟩, hbefore⟩⟩
    intro hnil
    have := hadv.2.1
    simp [hnil] at this

/-- An empty page is the last one of its chunk. -/
theorem Pages.last_of_empty {range : DateRange} {offset : Int32} {acc out : List DataRecord}
    {t : List Exchange} (h : Pages glaze params range offset acc t (.ok out)) {x : Exchange}
    (hx : x ∈ t) {page : CDOResponse DataRecord} (hpage : dataPage glaze x.2 = .ok page)
    (hempty : page.results = []) : t.getLast? = some x := by
  obtain ⟨t', y, -, rfl, -, -, hbefore⟩ := h.ok_last
  rw [List.getLast?_concat]
  rcases List.mem_append.mp hx with hx | hx
  · obtain ⟨p, hp, hne⟩ := hbefore x hx
    rw [hpage, Except.ok.injEq] at hp
    exact absurd (hp ▸ hempty) hne
  · rw [List.mem_singleton.mp hx]

theorem hidesMore_iff {x : Exchange} :
    HidesMore glaze x ↔
      (∃ page, dataPage glaze x.2 = .ok page ∧ page.hasMore = true ∧ page.results = []) ∨
        ∃ m, pageMembers glaze x.2 = some m ∧ m.metadata = none ∧
          requestedLimit x ≤ (pageOf m).results.length := by
  simp only [dataPage_eq_ok]
  unfold HidesMore
  cases pageMembers glaze x.2 with
  | none => simp
  | some m => simp

/-- Every exchange of a run is one of the exchanges for some chunk. -/
theorem Chunks.mem_chunkExchanges {ranges : List DateRange} {acc : List DataRecord}
    {t : List Exchange} {res : Result (List DataRecord)}
    (h : Chunks glaze params ranges acc t res) {x : Exchange} (hx : x ∈ t) :
    ∃ range ∈ ranges, x ∈ chunkExchanges range t := by
  obtain ⟨range, hr, o, ho⟩ := h.asksFor x hx
  refine ⟨range, hr, List.mem_filter.mpr ⟨hx, decide_eq_true ?_⟩⟩
  obtain ⟨path, r⟩ := x
  rw [show path = _ from ho]
  exact asksFor_pagePath.mpr rfl

/-- A run that succeeds is complete if and only if no page hides more. -/
theorem getDataAll_complete_iff {t : List Exchange} {records : List DataRecord}
    (h : (getDataAll glaze params).Runs t (.ok records)) :
    ChunksComplete glaze params t ↔ ∀ x ∈ t, ¬ HidesMore glaze x := by
  obtain ⟨-, e, -, hres⟩ | ⟨hchunks, hnd⟩ := getDataAll_cases h
  · cases hres
  constructor
  · rintro ⟨hlast, hfull⟩ x hx hhides
    rcases hidesMore_iff.mp hhides with ⟨page, hpage, hmore, hnil⟩ | ⟨m, hm, hnone, hle⟩
    · obtain ⟨range, hr, hmem⟩ := hchunks.mem_chunkExchanges hx
      obtain ⟨acc', out, hp⟩ := hchunks.ok_pages hnd hr
      obtain ⟨z, zpage, hz, hzpage, hzmore⟩ := hlast range hr
      rw [hp.last_of_empty hmem hpage hnil, Option.some.injEq] at hz
      rw [← hz, hpage, Except.ok.injEq] at hzpage
      rw [← hzpage, hmore] at hzmore
      cases hzmore
    · have hlt := hfull x hx m hm hnone
      omega
  · intro hno
    constructor
    · intro range hr
      obtain ⟨acc', out, hp⟩ := hchunks.ok_pages hnd hr
      obtain ⟨t', x, page, ht, hpage, hempty, -⟩ := hp.ok_last
      refine ⟨x, page, by rw [ht, List.getLast?_concat], hpage, ?_⟩
      have hx : x ∈ chunkExchanges range t := by
        rw [ht]
        exact List.mem_append_right _ (List.mem_singleton_self x)
      rw [← Bool.not_eq_true]
      intro hmore
      apply hno x (List.mem_filter.mp hx).1
      exact hidesMore_iff.mpr (.inl ⟨page, hpage, hmore, hempty hmore⟩)
    · intro x hx m hm hnone
      by_contra hle
      apply hno x hx
      exact hidesMore_iff.mpr (.inr ⟨m, hm, hnone, by omega⟩)

/-- A run of two pages with a record each: the first one has more, and the second one does not. -/
theorem getDataAll_complete_iff_twoRecords :
    ChunksComplete twoRecordsGlaze twoRecordsParams twoRecordsExchanges := by
  have hne : twoRecordsBody "2" ≠ twoRecordsBody "1" := by decide
  have h1 : pageMembers twoRecordsGlaze (.ok ⟨200, twoRecordsBody "1", []⟩) =
      some ⟨some (some ⟨some 1, some 2, some 1⟩), some (twoRecords.take 1)⟩ := by
    simp only [pageMembers, twoRecordsGlaze, if_true]
    rfl
  have h2 : pageMembers twoRecordsGlaze (.ok ⟨200, twoRecordsBody "2", []⟩) =
      some ⟨some (some ⟨some 2, some 2, some 1⟩), some (twoRecords.drop 1)⟩ := by
    simp only [pageMembers, twoRecordsGlaze, if_neg hne, if_true]
    rfl
  refine (getDataAll_complete_iff runs_twoRecords).mpr ?_
  refine List.forall_mem_cons.mpr ⟨?_, List.forall_mem_singleton.mpr ?_⟩
  · rw [HidesMore, h1]
    decide
  · rw [HidesMore, h2]
    decide

/-! ## Runs that succeed and are not complete -/

/-- `{"metadata":{"resultset":{"offset":1,"count":2,"limit":1}},"results":[]}`: two
    records, none of them here. -/
def emptyBody : Bytes :=
  bytes ("\x7b\"metadata\":\x7b\"resultset\":\x7b\"offset\":1,\"count\":2,\"limit\":1\x7d\x7d," ++
    "\"results\":[]\x7d")

/-- `{"results":[{}]}`: one record and no metadata. -/
def bareBody : Bytes := bytes "\x7b\"results\":[\x7b\x7d]\x7d"

/-- What Glaze reads from the two bodies. -/
def sampleGlaze : Glaze where
  generic := fun _ => none
  records := fun body =>
    if body = emptyBody then .ok ⟨some (some ⟨some 1, some 2, some 1⟩), some []⟩
    else if body = bareBody then .ok ⟨none, some [{}]⟩
    else .error []

/-- One day, one record per request. -/
def sampleParams (metadata : Option Bool) : GetDataParams where
  datasetId := bytes "GHCND"
  startDate := bytes "2024-01-01"
  endDate := bytes "2024-01-01"
  limit := some 1
  includeMetadata := metadata

def sampleRange : DateRange := (bytes "2024-01-01", bytes "2024-01-01")

/-- The request for the first page of that day, answered with `body`. -/
def sampleExchange (metadata : Option Bool) (body : Bytes) : Exchange :=
  (pagePath (sampleParams metadata) sampleRange 1, .ok ⟨200, body, []⟩)

theorem splitDateRange_sampleParams (metadata : Option Bool) :
    splitDateRange (sampleParams metadata).startDate (sampleParams metadata).endDate =
      .ok [sampleRange] := by
  have hday : dayOf (bytes "2024-01-01") = .ok 19723 := by decide
  exact splitDateRange_single hday hday le_rfl (by decide)

theorem dataPage_emptyBody : dataPage sampleGlaze (.ok ⟨200, emptyBody, []⟩) =
    .ok ⟨⟨1, 2, 1⟩, []⟩ := by
  simp only [dataPage, finish, parseListResponse, deserializeCdoListImpl, sampleGlaze, if_true]
  rfl

theorem pageMembers_bareBody : pageMembers sampleGlaze (.ok ⟨200, bareBody, []⟩) =
    some ⟨none, some [{}]⟩ := by
  have hne : bareBody ≠ emptyBody := by decide
  simp only [pageMembers, sampleGlaze, if_neg hne, if_true]
  rfl

/-- A page that has no more, or has no records, is all that is requested. -/
theorem sample_runs (metadata : Option Bool) {body : Bytes} {page : CDOResponse DataRecord}
    (hpage : dataPage sampleGlaze (.ok ⟨200, body, []⟩) = .ok page) (hstuck : ¬ Stuck 1 page)
    (hadv : ¬ Advances 1 page) :
    (getDataAll sampleGlaze (sampleParams metadata)).Runs [sampleExchange metadata body]
      (.ok page.results) := by
  rw [getDataAll_runs (splitDateRange_sampleParams metadata)]
  exact .next (.last hpage hstuck hadv) .done

theorem sample_runs_emptyBody :
    (getDataAll sampleGlaze (sampleParams none)).Runs [sampleExchange none emptyBody]
      (.ok []) := by
  apply sample_runs none dataPage_emptyBody
  · unfold Stuck
    decide
  · unfold Advances
    decide

theorem sample_runs_bareBody :
    (getDataAll sampleGlaze (sampleParams (some false))).Runs
      [sampleExchange (some false) bareBody] (.ok [{}]) := by
  apply sample_runs _ (dataPage_eq_ok.mpr ⟨_, pageMembers_bareBody, rfl⟩)
  · unfold Stuck
    decide
  · unfold Advances
    decide

theorem requestedLimit_sampleExchange (metadata : Option Bool) (body : Bytes) :
    requestedLimit (sampleExchange metadata body) = 1 := by
  rw [requestedLimit, sampleExchange, requestOf_pagePath]
  rfl

/-- Where a page without records says there are two, the call succeeds with none; where
    a page has one record, which is the limit, and no metadata, it succeeds with that one. -/
theorem getDataAll_drops_records :
    ((getDataAll sampleGlaze (sampleParams none)).Runs [sampleExchange none emptyBody] (.ok []) ∧
      ¬ ChunksComplete sampleGlaze (sampleParams none) [sampleExchange none emptyBody]) ∧
    ((getDataAll sampleGlaze (sampleParams (some false))).Runs
        [sampleExchange (some false) bareBody] (.ok [{}]) ∧
      ¬ ChunksComplete sampleGlaze (sampleParams (some false))
        [sampleExchange (some false) bareBody]) := by
  refine ⟨⟨sample_runs_emptyBody, fun h => ?_⟩, sample_runs_bareBody, fun h => ?_⟩
  · have hmem : sampleRange ∈ chunksOf (sampleParams none) := by
      rw [chunksOf, splitDateRange_sampleParams]
      exact List.mem_singleton_self _
    have hself : ∀ x ∈ [sampleExchange none emptyBody],
        ∃ o, x.1 = pagePath (sampleParams none) sampleRange o :=
      List.forall_mem_singleton.mpr ⟨1, rfl⟩
    obtain ⟨x, page, hlast, hpage, hmore⟩ := h.1 _ hmem
    rw [chunkExchanges_self hself, List.getLast?_singleton, Option.some.injEq] at hlast
    rw [← hlast, sampleExchange, dataPage_emptyBody, Except.ok.injEq] at hpage
    rw [← hpage] at hmore
    revert hmore
    decide
  · have hlt := h.2 _ (List.mem_singleton_self _) _ pageMembers_bareBody rfl
    rw [requestedLimit_sampleExchange] at hlt
    revert hlt
    decide

end NceiCpp.Api
