import NceiCpp.Api.GetDataAll

/-!
# `get_data_all` against a server that pages

The server has, for every request, a list of records that match; it answers with the
window of the list that the offset and the limit select, and, unless the request says
`includemetadata=false`, with the offset, the number of matching records and the limit.

* `Pages.served`: where there is metadata, a chunk is read completely, with one request
  for every `limit` records.
* `Pages.served_once`: where there is none, or the limit is not positive, a chunk is one
  request.
* `getDataAll_lossless`: against a server that holds `R`, a call without failing requests
  returns the records of `R` in the range, each once; the first request that fails ends
  the call.
-/

namespace NceiCpp.Api

open Interaction IntervalChunks NceiCpp.Core NceiCpp.Models

/-- At most `limit` records from the one-based `offset` on. -/
def window (records : List DataRecord) (offset limit : ℤ) : List DataRecord :=
  (records.drop (offset - 1).toNat).take limit.toNat

/-- The body of the answer to a request that `records` match, as Glaze reads it. -/
def serverMembers (records : List DataRecord) (p : GetDataParams) :
    EnvelopeMembers DataRecord where
  metadata :=
    if p.includeMetadata = some false then none
    else some (some ⟨some (p.offset.getD 1), some (Int32.ofInt records.length),
      some (p.limit.getD 25)⟩)
  results := some (window records (p.offset.getD 1).toInt (p.limit.getD 25).toInt)

/-- The exchange is answered by the server whose records for a request are `matching`;
    their number fits the `count` of the metadata. -/
def Serves (glaze : Glaze) (matching : GetDataParams → List DataRecord) (x : Exchange) : Prop :=
  (matching (requestOf x.1)).length ≤ 2 ^ 31 - 1 ∧
    ∃ response, x.2 = .ok response ∧ response.statusCode = 200 ∧
      glaze.records response.body =
        .ok (serverMembers (matching (requestOf x.1)) (requestOf x.1))

/-- The limit of every request of `get_data_all`. -/
def pageLimit (params : GetDataParams) : Int32 := params.limit.getD 1000

/-- The page a server answers a request of `get_data_all` with. -/
def serverPage (params : GetDataParams) (records : List DataRecord) (offset : Int32) :
    CDOResponse DataRecord where
  metadata :=
    if params.includeMetadata = some false then {}
    else ⟨offset, Int32.ofInt records.length, pageLimit params⟩
  results := window records offset.toInt (pageLimit params).toInt

variable {glaze : Glaze} {params : GetDataParams}

theorem Serves.length_le {matching : GetDataParams → List DataRecord} {path : Bytes}
    {r : Result HttpResponse} {records : List DataRecord} (h : Serves glaze matching (path, r))
    (hrecords : matching (requestOf path) = records) : records.length ≤ 2 ^ 31 - 1 :=
  hrecords ▸ h.1

theorem Serves.dataPage {matching : GetDataParams → List DataRecord} {range : DateRange}
    {offset : Int32} {r : Result HttpResponse} {records : List DataRecord}
    (h : Serves glaze matching (pagePath params range offset, r))
    (hrecords : matching (requestOf (pagePath params range offset)) = records) :
    dataPage glaze r = .ok (serverPage params records offset) := by
  obtain ⟨-, response, rfl, hstatus, hread⟩ := h
  rw [hrecords, requestOf_pagePath] at hread
  simp only [Api.dataPage, finish, hstatus, ne_eq, not_true_eq_false, if_false,
    parseListResponse, deserializeCdoListImpl, hread]
  by_cases hmeta : params.includeMetadata = some false <;>
    simp [hmeta, serverMembers, serverPage, pageLimit, EnvelopeMembers.fill,
      ResultSetMembers.fill, chunkParams, GetDataParams.normalized]

theorem Serves.not_error {matching : GetDataParams → List DataRecord} {range : DateRange}
    {offset : Int32} {r : Result HttpResponse} {records : List DataRecord} {e : Error}
    (h : Serves glaze matching (pagePath params range offset, r))
    (hrecords : matching (requestOf (pagePath params range offset)) = records) :
    Api.dataPage glaze r ≠ .error e := by
  rw [h.dataPage hrecords]
  simp

theorem Serves.page_eq {matching : GetDataParams → List DataRecord} {range : DateRange}
    {offset : Int32} {r : Result HttpResponse} {records : List DataRecord}
    {page : CDOResponse DataRecord}
    (h : Serves glaze matching (pagePath params range offset, r))
    (hrecords : matching (requestOf (pagePath params range offset)) = records)
    (hpage : Api.dataPage glaze r = .ok page) : page = serverPage params records offset := by
  rw [h.dataPage hrecords, Except.ok.injEq] at hpage
  exact hpage.symm

/-- The server has more behind a window that does not reach the end of the list. -/
theorem hasMore_serverPage {records : List DataRecord} {offset : Int32}
    (hmeta : params.includeMetadata ≠ some false) (hoffset : 1 ≤ offset.toInt)
    (hlimit : 1 ≤ (pageLimit params).toInt) (hcount : records.length ≤ 2 ^ 31 - 1) :
    (serverPage params records offset).hasMore = true ↔
      offset.toInt + (pageLimit params).toInt ≤ records.length := by
  have hcast : (Int32.ofInt records.length).toInt = records.length := by
    apply Int32.toInt_ofInt_of_le <;> omega
  rw [hasMore_iff]
  simp only [serverPage, if_neg hmeta, hcast]
  omega

theorem nextOffset_serverPage {records : List DataRecord} {offset : Int32}
    (hmeta : params.includeMetadata ≠ some false) (hoffset : 1 ≤ offset.toInt)
    (hmore : (serverPage params records offset).hasMore = true) :
    (serverPage params records offset).nextOffset.toInt =
      offset.toInt + (pageLimit params).toInt := by
  rw [(nextOffset_of_hasMore hmore).1]
  simp only [serverPage, if_neg hmeta]
  omega

/-- A server that pages never leaves the loop without a further offset, and has records on
    every page with more behind it. -/
theorem advances_serverPage {records : List DataRecord} {offset : Int32}
    (hmeta : params.includeMetadata ≠ some false) (hoffset : 1 ≤ offset.toInt)
    (hlimit : 1 ≤ (pageLimit params).toInt) (hcount : records.length ≤ 2 ^ 31 - 1)
    (hmore : (serverPage params records offset).hasMore = true) :
    Advances offset (serverPage params records offset) := by
  have hle := (hasMore_serverPage hmeta hoffset hlimit hcount).mp hmore
  have hnext := nextOffset_serverPage hmeta hoffset hmore
  refine ⟨hmore, ?_, ?_⟩
  · rw [List.isEmpty_eq_false_iff, ← List.length_pos_iff]
    simp only [serverPage, window, List.length_take, List.length_drop]
    omega
  · rw [gt_iff_lt, Int32.lt_iff_toInt_lt, hnext]
    omega

/-- Requests for the records behind the first `k` of `n`. -/
def requestCount (n k l : ℕ) : ℕ := max 1 ((n - k + l - 1) / l)

theorem requestCount_last {n k l : ℕ} (hl : 1 ≤ l) (h : n ≤ k + l) : requestCount n k l = 1 := by
  have hlt : (n - k + l - 1) / l < 2 := by
    rw [Nat.div_lt_iff_lt_mul hl]
    omega
  unfold requestCount
  omega

theorem requestCount_more {n k l : ℕ} (hl : 1 ≤ l) (h : k + l < n) :
    requestCount n k l = requestCount n (k + l) l + 1 := by
  have hstep : (n - k + l - 1) / l = (n - (k + l) + l - 1) / l + 1 := by
    rw [← Nat.add_div_right _ hl]
    congr 1
    omega
  have hpos : 1 ≤ (n - (k + l) + l - 1) / l := (Nat.one_le_div_iff hl).mpr (by omega)
  unfold requestCount
  omega

/-- Where the server sends metadata, a chunk is read completely. -/
theorem Pages.served {matching : GetDataParams → List DataRecord} {range : DateRange}
    {records : List DataRecord} (hmeta : params.includeMetadata ≠ some false)
    (hlimit : 1 ≤ (pageLimit params).toInt)
    (hrecords : ∀ o, matching (requestOf (pagePath params range o)) = records)
    {offset : Int32} {acc : List DataRecord} {t : List Exchange}
    {res : Result (List DataRecord)} (h : Pages glaze params range offset acc t res)
    (hserves : ∀ x ∈ t, Serves glaze matching x) (hoffset : 1 ≤ offset.toInt) :
    res = .ok (acc ++ records.drop (offset.toInt - 1).toNat) ∧
      t.length = requestCount records.length (offset.toInt - 1).toNat
        (pageLimit params).toInt.toNat := by
  induction h with
  | failed hpage =>
    exact absurd hpage ((List.forall_mem_singleton.mp hserves).not_error (hrecords _))
  | @stuck offset acc r page hpage hstuck =>
    have hcount := (List.forall_mem_singleton.mp hserves).length_le (hrecords _)
    obtain rfl := (List.forall_mem_singleton.mp hserves).page_eq (hrecords _) hpage
    exact absurd hstuck
      (advances_serverPage hmeta hoffset hlimit hcount hstuck.1).not_stuck
  | @last offset acc r page hpage _ hadv =>
    have hcount := (List.forall_mem_singleton.mp hserves).length_le (hrecords _)
    obtain rfl := (List.forall_mem_singleton.mp hserves).page_eq (hrecords _) hpage
    have hno : ¬ (serverPage params records offset).hasMore = true := fun hmore =>
      hadv (advances_serverPage hmeta hoffset hlimit hcount hmore)
    rw [hasMore_serverPage hmeta hoffset hlimit hcount] at hno
    constructor
    · simp only [serverPage, window]
      rw [List.take_of_length_le]
      rw [List.length_drop]
      omega
    · rw [requestCount_last (by omega) (by omega)]
      rfl
  | @more offset acc r page t res hpage hadv _ ih =>
    obtain ⟨hfirst, hrest⟩ := List.forall_mem_cons.mp hserves
    have hcount := hfirst.length_le (hrecords _)
    obtain rfl := hfirst.page_eq (hrecords _) hpage
    have hle := (hasMore_serverPage hmeta hoffset hlimit hcount).mp hadv.1
    have hnext := nextOffset_serverPage hmeta hoffset hadv.1
    obtain ⟨hres, hlen⟩ := ih hrest (by omega)
    have hk : (offset.toInt + (pageLimit params).toInt - 1).toNat =
        (offset.toInt - 1).toNat + (pageLimit params).toInt.toNat := by omega
    rw [hnext, hk] at hres hlen
    constructor
    · rw [hres]
      simp only [serverPage, window]
      rw [List.append_assoc, ← List.drop_drop, List.take_append_drop]
    · rw [List.length_cons, hlen]
      exact (requestCount_more (by omega) (by omega)).symm

/-- Where the server sends no metadata, or the limit is not positive, a chunk is one
    request. -/
theorem Pages.served_once {matching : GetDataParams → List DataRecord} {range : DateRange}
    {records : List DataRecord}
    (honce : params.includeMetadata = some false ∨ (pageLimit params).toInt ≤ 0)
    (hrecords : ∀ o, matching (requestOf (pagePath params range o)) = records)
    {offset : Int32} {acc : List DataRecord} {t : List Exchange}
    {res : Result (List DataRecord)} (h : Pages glaze params range offset acc t res)
    (hserves : ∀ x ∈ t, Serves glaze matching x) :
    res = .ok (acc ++ window records offset.toInt (pageLimit params).toInt) := by
  have hno : ∀ o, ¬ (serverPage params records o).hasMore = true := by
    intro o hmore
    rw [hasMore_iff] at hmore
    by_cases hmeta : params.includeMetadata = some false
    · simp only [serverPage, if_pos hmeta] at hmore
      revert hmore
      decide
    · simp only [serverPage, if_neg hmeta] at hmore
      rcases honce with h | h
      · exact hmeta h
      · omega
  cases h with
  | failed hpage =>
    exact absurd hpage ((List.forall_mem_singleton.mp hserves).not_error (hrecords _))
  | stuck hpage hstuck =>
    obtain rfl := (List.forall_mem_singleton.mp hserves).page_eq (hrecords _) hpage
    exact absurd hstuck.1 (hno _)
  | last hpage _ _ =>
    rw [(List.forall_mem_singleton.mp hserves).page_eq (hrecords _) hpage]
    rfl
  | more hpage hadv _ =>
    obtain rfl := (List.forall_mem_cons.mp hserves).1.page_eq (hrecords _) hpage
    exact absurd hadv.1 (hno _)

/-- Where every chunk has its answer, the call returns the answers in chunk order. -/
theorem Chunks.result {ranges : List DateRange} {answer : DateRange → List DataRecord}
    {P : Exchange → Prop}
    (hpages : ∀ range ∈ ranges, ∀ acc t res, Pages glaze params range 1 acc t res →
      (∀ x ∈ t, P x) → res = .ok (acc ++ answer range))
    {acc : List DataRecord} {t : List Exchange} {res : Result (List DataRecord)}
    (h : Chunks glaze params ranges acc t res) (hP : ∀ x ∈ t, P x) :
    res = .ok (acc ++ ranges.flatMap answer) := by
  induction h with
  | done => simp
  | failed h1 =>
    have := hpages _ List.mem_cons_self _ _ _ h1 hP
    cases this
  | next h1 _ ih =>
    obtain ⟨hP1, hP2⟩ := List.forall_mem_append.mp hP
    have h1 := hpages _ List.mem_cons_self _ _ _ h1 hP1
    rw [Except.ok.injEq] at h1
    rw [ih (fun range hr => hpages range (List.mem_cons_of_mem _ hr)) hP2, h1,
      List.flatMap_cons, List.append_assoc]

/-! ## A server that holds a list of dated records -/

/-- The records of `R` in the range of a request, in the order of `R`; `day` is the
    calendar date of a record. -/
def matchingOf (day : DataRecord → ℤ) (R : List DataRecord) (p : GetDataParams) :
    List DataRecord :=
  within day R (dayNumber p.startDate) (dayNumber p.endDate)

/-- The records of `R` in a chunk. -/
def recordsIn (day : DataRecord → ℤ) (R : List DataRecord) (range : DateRange) :
    List DataRecord :=
  within day R (rangeDays range).1 (rangeDays range).2

theorem matchingOf_pagePath (day : DataRecord → ℤ) (R : List DataRecord) (range : DateRange)
    (o : Int32) :
    matchingOf day R (requestOf (pagePath params range o)) = recordsIn day R range := by
  rw [requestOf_pagePath]
  rfl

theorem chunksOf_chunked {m n : ℤ} (hm : dayOf params.startDate = .ok m)
    (hn : dayOf params.endDate = .ok n) (hmn : m ≤ n) :
    Chunked 365 m n ((chunksOf params).map rangeDays) := by
  obtain ⟨l, hl, hc, -⟩ := splitDateRange_eq (show (0 : ℤ) ≤ 365 by norm_num) hm hn hmn
  rw [chunksOf, hl]
  exact hc

theorem getDataAll_chunks {m n : ℤ} (hm : dayOf params.startDate = .ok m)
    (hn : dayOf params.endDate = .ok n) (hmn : m ≤ n) {t : List Exchange}
    {res : Result (List DataRecord)} (hrun : (getDataAll glaze params).Runs t res) :
    Chunks glaze params (chunksOf params) [] t res ∧ (chunksOf params).Nodup := by
  obtain ⟨l, hl, -, -⟩ := splitDateRange_eq (show (0 : ℤ) ≤ 365 by norm_num) hm hn hmn
  rw [chunksOf, hl]
  exact ⟨(getDataAll_runs hl).mp hrun, splitDateRange_nodup hl⟩

/-- Let a server hold `R`, and let every request be answered with its page of the records
    in its range, or fail. If no request fails, the call returns the records of `R` in the
    range, each once, in the order of `R` if that is the order of the dates, and a chunk
    with `N` records takes `max 1 ⌈N / l⌉` requests. A request that fails is the last one
    and its error is the result. -/
theorem getDataAll_lossless (day : DataRecord → ℤ) (R : List DataRecord) {m n : ℤ}
    (hm : dayOf params.startDate = .ok m) (hn : dayOf params.endDate = .ok n) (hmn : m ≤ n)
    (hmeta : params.includeMetadata ≠ some false)
    (hlimit : ∀ l, params.limit = some l → 1 ≤ l.toInt ∧ l.toInt ≤ 1000)
    {t : List Exchange} {res : Result (List DataRecord)}
    (hrun : (getDataAll glaze params).Runs t res)
    (hserver : ∀ x ∈ t, Serves glaze (matchingOf day R) x ∨ ∃ e, dataPage glaze x.2 = .error e) :
    ((∀ x ∈ t, ∀ e, dataPage glaze x.2 ≠ .error e) →
      ∃ records, res = .ok records ∧
        records = (chunksOf params).flatMap (recordsIn day R) ∧
        records.Perm (within day R m n) ∧
        (R.Pairwise (fun a b => day a ≤ day b) → records = within day R m n) ∧
        ∀ range ∈ chunksOf params, (chunkExchanges range t).length =
          max 1 (((recordsIn day R range).length + (pageLimit params).toInt.toNat - 1) /
            (pageLimit params).toInt.toNat)) ∧
    ∀ t1 x t2 e, t = t1 ++ x :: t2 → dataPage glaze x.2 = .error e →
      t2 = [] ∧ res = .error e := by
  obtain ⟨hchunks, hnd⟩ := getDataAll_chunks hm hn hmn hrun
  refine ⟨fun hok => ?_, fun t1 x t2 e ht he => hchunks.of_failed ht he⟩
  have hone : (1 : Int32).toInt = 1 := rfl
  have hpos : 1 ≤ (pageLimit params).toInt := by
    unfold pageLimit
    cases hl : params.limit with
    | none => decide
    | some l => exact (hlimit l hl).1
  have hserves : ∀ x ∈ t, Serves glaze (matchingOf day R) x := by
    intro x hx
    rcases hserver x hx with h | ⟨e, he⟩
    · exact h
    · exact absurd he (hok x hx e)
  have hpages : ∀ range ∈ chunksOf params, ∀ acc t' res', Pages glaze params range 1 acc t' res' →
      (∀ x ∈ t', Serves glaze (matchingOf day R) x) → res' = .ok (acc ++ recordsIn day R range) ∧
        t'.length =
          requestCount (recordsIn day R range).length 0 (pageLimit params).toInt.toNat := by
    intro range hr acc t' res' hp hs
    exact hp.served hmeta hpos (matchingOf_pagePath day R range) hs (by omega)
  have hres := hchunks.result
    (fun range hr acc t' res' hp hs => (hpages range hr acc t' res' hp hs).1) hserves
  have hc := chunksOf_chunked hm hn hmn
  have hflat : (chunksOf params).flatMap (recordsIn day R) =
      ((chunksOf params).map rangeDays).flatMap fun c => within day R c.1 c.2 := by
    rw [List.flatMap_map]
    rfl
  refine ⟨_, hres, List.nil_append _, ?_, ?_, ?_⟩
  · rw [List.nil_append, hflat]
    exact hc.flatMap_perm day (by norm_num) R
  · intro hsorted
    rw [List.nil_append, hflat]
    exact hc.flatMap_eq day (by norm_num) hsorted
  · intro range hr
    rw [hres] at hchunks
    obtain ⟨acc', out, hp⟩ := hchunks.ok_pages hnd hr
    have hs : ∀ x ∈ chunkExchanges range t, Serves glaze (matchingOf day R) x :=
      fun x hx => hserves x (List.mem_filter.mp hx).1
    exact (hpages range hr _ _ _ hp hs).2

/-! ### Two pages -/

def twoRecords : List DataRecord :=
  [{ date := bytes "2024-01-01T00:00:00", value := 1 },
    { date := bytes "2024-01-01T00:00:00", value := 2 }]

/-- `{"metadata":{"resultset":{"offset":o,"count":2,"limit":1}},`
    `"results":[{"date":"2024-01-01T00:00:00","value":o}]}`. -/
def twoRecordsBody (o : String) : Bytes :=
  bytes "\x7b\"metadata\":\x7b\"resultset\":\x7b\"offset\":" ++ bytes o ++
    bytes ",\"count\":2,\"limit\":1\x7d\x7d,\"results\":[\x7b\"date\":" ++
    bytes "\"2024-01-01T00:00:00\",\"value\":" ++ bytes o ++ bytes "\x7d]\x7d"

def twoRecordsGlaze : Glaze where
  generic := fun _ => none
  records := fun body =>
    if body = twoRecordsBody "1" then
      .ok ⟨some (some ⟨some 1, some 2, some 1⟩), some (twoRecords.take 1)⟩
    else if body = twoRecordsBody "2" then
      .ok ⟨some (some ⟨some 2, some 2, some 1⟩), some (twoRecords.drop 1)⟩
    else .error []

def twoRecordsParams : GetDataParams where
  datasetId := bytes "GHCND"
  startDate := bytes "2024-01-01"
  endDate := bytes "2024-01-31"
  limit := some 1

def twoRecordsRange : DateRange := (bytes "2024-01-01", bytes "2024-01-31")

def twoRecordsExchanges : List Exchange :=
  [(pagePath twoRecordsParams twoRecordsRange 1, .ok ⟨200, twoRecordsBody "1", []⟩),
    (pagePath twoRecordsParams twoRecordsRange 2, .ok ⟨200, twoRecordsBody "2", []⟩)]

/-- The day of the first ten characters of the date. -/
def recordDay (r : DataRecord) : ℤ := dayNumber (r.date.take 10)

theorem dayOf_twoRecordsParams : dayOf twoRecordsParams.startDate = .ok 19723 ∧
    dayOf twoRecordsParams.endDate = .ok 19753 := by decide

theorem recordsIn_twoRecords : recordsIn recordDay twoRecords twoRecordsRange = twoRecords := by
  decide

theorem serves_twoRecords :
    ∀ x ∈ twoRecordsExchanges, Serves twoRecordsGlaze (matchingOf recordDay twoRecords) x := by
  have hne : twoRecordsBody "2" ≠ twoRecordsBody "1" := by decide
  intro x hx
  simp only [twoRecordsExchanges, List.mem_cons, List.not_mem_nil, or_false] at hx
  rcases hx with rfl | rfl
  · rw [Serves, matchingOf_pagePath, recordsIn_twoRecords, requestOf_pagePath]
    refine ⟨by decide, _, rfl, rfl, ?_⟩
    simp only [twoRecordsGlaze, if_true]
    rfl
  · rw [Serves, matchingOf_pagePath, recordsIn_twoRecords, requestOf_pagePath]
    refine ⟨by decide, _, rfl, rfl, ?_⟩
    simp only [twoRecordsGlaze, if_neg hne, if_true]
    rfl

theorem runs_twoRecords : (getDataAll twoRecordsGlaze twoRecordsParams).Runs twoRecordsExchanges
    (.ok twoRecords) := by
  obtain ⟨hm, hn⟩ := dayOf_twoRecordsParams
  rw [getDataAll_runs (splitDateRange_single hm hn (by norm_num) (by norm_num))]
  obtain ⟨h1, h2⟩ := List.forall_mem_cons.mp serves_twoRecords
  have h2 := List.forall_mem_singleton.mp h2
  have hrecords : ∀ o, matchingOf recordDay twoRecords
      (requestOf (pagePath twoRecordsParams twoRecordsRange o)) = _ :=
    matchingOf_pagePath recordDay twoRecords twoRecordsRange
  have p1 := h1.dataPage ((hrecords 1).trans recordsIn_twoRecords)
  have p2 := h2.dataPage ((hrecords 2).trans recordsIn_twoRecords)
  have hpages : Pages twoRecordsGlaze twoRecordsParams twoRecordsRange 1 [] twoRecordsExchanges
      (.ok twoRecords) := by
    refine .more p1 ?_ (.last p2 ?_ ?_)
    · unfold Advances
      decide
    · unfold Stuck
      decide
    · unfold Advances
      decide
  exact .next hpages .done

theorem chunksOf_twoRecordsParams : chunksOf twoRecordsParams = [twoRecordsRange] := by
  obtain ⟨hm, hn⟩ := dayOf_twoRecordsParams
  rw [chunksOf, splitDateRange_single hm hn (by norm_num) (by norm_num)]
  rfl

theorem getDataAll_lossless_twoRecords :
    twoRecords.Perm (within recordDay twoRecords 19723 19753) ∧
      (chunkExchanges twoRecordsRange twoRecordsExchanges).length = max 1 ((2 + 1 - 1) / 1) := by
  obtain ⟨hm, hn⟩ := dayOf_twoRecordsParams
  have hchunks := chunksOf_twoRecordsParams
  have hok : ∀ x ∈ twoRecordsExchanges, ∀ e, dataPage twoRecordsGlaze x.2 ≠ .error e := by
    intro x hx e he
    obtain ⟨-, response, hresponse, hstatus, hread⟩ := serves_twoRecords x hx
    rw [hresponse] at he
    simp [dataPage, finish, hstatus, parseListResponse, deserializeCdoListImpl, hread] at he
  obtain ⟨hall, -⟩ := getDataAll_lossless recordDay twoRecords hm hn (by norm_num) (by decide)
    (by rintro l ⟨⟩; decide) runs_twoRecords (fun x hx => .inl (serves_twoRecords x hx))
  obtain ⟨records, hres, -, hperm, -, hlen⟩ := hall hok
  rw [Except.ok.injEq] at hres
  refine ⟨hres ▸ hperm, ?_⟩
  rw [hlen twoRecordsRange (by rw [hchunks]; exact List.mem_singleton_self _),
    recordsIn_twoRecords]
  rfl

end NceiCpp.Api
