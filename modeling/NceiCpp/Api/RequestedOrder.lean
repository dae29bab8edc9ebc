import NceiCpp.Api.PagingServer

/-!
# The order of the records of `get_data_all`

`get_data_all` forwards the caller's sort parameters to every request and asks for the
chunks in the order of the calendar. The server sorts the records of each request.

* `getDataAll_ordered_iff`: exactly when the records come in the requested order, and
  are those of one query over the whole range. Ascending order is kept; descending order
  is kept only where no two chunks have records.
* `getDataAll_not_descending`: a descending call over two chunks.
-/

namespace NceiCpp.Api

open Interaction IntervalChunks NceiCpp.Core NceiCpp.Models

inductive SortOrder
  | asc
  | desc
  deriving DecidableEq, Repr

def SortOrder.toText : SortOrder → Bytes
  | asc => bytes "asc"
  | desc => bytes "desc"

/-- Dates that grow or fall, as the order says. -/
def SortOrder.le (order : SortOrder) (a b : ℤ) : Prop :=
  match order with
  | asc => a ≤ b
  | desc => b ≤ a

instance (order : SortOrder) (a b : ℤ) : Decidable (order.le a b) := by
  unfold SortOrder.le
  cases order <;> infer_instance

/-- The records come in the order of their dates. -/
def SortedBy (day : DataRecord → ℤ) (order : SortOrder) (records : List DataRecord) : Prop :=
  records.Pairwise fun a b => order.le (day a) (day b)

instance (day : DataRecord → ℤ) (order : SortOrder) (records : List DataRecord) :
    Decidable (SortedBy day order records) := by
  unfold SortedBy
  infer_instance

/-- A server that holds `R`: for every request it has the list of the records in the
    range, sorted by date as requested, of which it sends windows. -/
structure SortingServer (day : DataRecord → ℤ) (R : List DataRecord) where
  matching : GetDataParams → List DataRecord
  perm : ∀ p, (matching p).Perm (matchingOf day R p)
  sorted : ∀ p order, p.sortField = some (bytes "date") → p.sortOrder = some order.toText →
    SortedBy day order (matching p)
  paged : ∀ p offset limit, matching { p with offset := offset, limit := limit } = matching p

/-- The query of a range without a window. -/
def rangeQuery (params : GetDataParams) (range : DateRange) : GetDataParams :=
  { params.normalized with startDate := range.1, endDate := range.2 }

/-- The chunk is not read beyond its first page. -/
def OnePage (params : GetDataParams) : Prop :=
  params.includeMetadata = some false ∨ (pageLimit params).toInt ≤ 0

instance (params : GetDataParams) : Decidable (OnePage params) := by
  unfold OnePage
  infer_instance

/-- What `get_data_all` takes of the records `records` of a chunk. -/
def chunkAnswer (params : GetDataParams) (records : List DataRecord) : List DataRecord :=
  if OnePage params then records.take (pageLimit params).toInt.toNat else records

variable {glaze : Glaze} {params : GetDataParams} {day : DataRecord → ℤ} {R : List DataRecord}

theorem SortingServer.matching_pagePath (server : SortingServer day R) (range : DateRange)
    (o : Int32) :
    server.matching (requestOf (pagePath params range o)) =
      server.matching (rangeQuery params range) := by
  rw [requestOf_pagePath]
  exact server.paged (rangeQuery params range) (some o) (some (params.limit.getD 1000))

/-- The records of a chunk, up to their order. -/
theorem SortingServer.perm_rangeQuery (server : SortingServer day R) (range : DateRange) :
    (server.matching (rangeQuery params range)).Perm (recordsIn day R range) :=
  server.perm _

theorem SortingServer.result (server : SortingServer day R) {m n : ℤ}
    (hm : dayOf params.startDate = .ok m) (hn : dayOf params.endDate = .ok n) (hmn : m ≤ n)
    {t : List Exchange} {res : Result (List DataRecord)}
    (hrun : (getDataAll glaze params).Runs t res)
    (hserves : ∀ x ∈ t, Serves glaze server.matching x) :
    res = .ok ((chunksOf params).flatMap fun range =>
      chunkAnswer params (server.matching (rangeQuery params range))) := by
  have hone : (1 : Int32).toInt = 1 := rfl
  obtain ⟨hchunks, -⟩ := getDataAll_chunks hm hn hmn hrun
  rw [← List.nil_append (List.flatMap _ _)]
  refine hchunks.result (fun range hr acc t' res' hp hs => ?_) hserves
  have hrecords : ∀ o, server.matching (requestOf (pagePath params range o)) = _ :=
    server.matching_pagePath range
  unfold chunkAnswer
  split_ifs with honce
  · rw [hp.served_once honce hrecords hs]
    rfl
  · obtain ⟨hmeta, hlimit⟩ := not_or.mp honce
    obtain ⟨hres, -⟩ := hp.served hmeta (by omega) hrecords hs (by omega)
    exact hres

/-! ## The order of the whole -/

theorem chunkAnswer_sublist (records : List DataRecord) :
    (chunkAnswer params records).Sublist records := by
  unfold chunkAnswer
  split_ifs
  · exact List.take_sublist _ _
  · exact List.Sublist.refl _

/-- A chunk gives nothing if it has no records or none are asked for. -/
theorem chunkAnswer_eq_nil {records : List DataRecord} :
    chunkAnswer params records = [] ↔ (pageLimit params).toInt ≤ 0 ∨ records = [] := by
  unfold chunkAnswer
  split_ifs with honce
  · rw [List.take_eq_nil_iff]
    have : (pageLimit params).toInt.toNat = 0 ↔ (pageLimit params).toInt ≤ 0 := by omega
    rw [this]
  · obtain ⟨-, hlimit⟩ := not_or.mp honce
    tauto

/-- Records of an earlier chunk have earlier dates. -/
theorem chunks_pairwise_lt (day : DataRecord → ℤ) (R : List DataRecord) {m n : ℤ}
    (hc : Chunked 365 m n ((chunksOf params).map rangeDays)) :
    (chunksOf params).Pairwise fun r r' => ∀ x ∈ recordsIn day R r, ∀ y ∈ recordsIn day R r',
      day x < day y := by
  refine (List.pairwise_map.mp (hc.pairwise (by norm_num))).imp ?_
  intro r r' hlt x hx y hy
  have h1 := ((mem_within day).mp hx).2.2
  have h2 := ((mem_within day).mp hy).2.1
  omega

/-- Sorted chunks in calendar order are sorted in ascending order; in descending order they
    are sorted exactly if no two of them have records. -/
theorem sortedBy_flatMap {ranges : List DateRange} {order : SortOrder}
    {answer : DateRange → List DataRecord}
    (hsorted : ∀ range ∈ ranges, SortedBy day order (answer range))
    (hlt : ranges.Pairwise fun r r' => ∀ x ∈ answer r, ∀ y ∈ answer r', day x < day y) :
    SortedBy day order (ranges.flatMap answer) ↔
      order = .asc ∨ ranges.Pairwise fun r r' => answer r = [] ∨ answer r' = [] := by
  unfold SortedBy
  rw [List.pairwise_flatMap]
  cases order with
  | asc =>
    refine ⟨fun _ => .inl rfl, fun _ => ⟨hsorted, hlt.imp fun h x hx y hy => ?_⟩⟩
    exact (h x hx y hy).le
  | desc =>
    constructor
    · rintro ⟨-, hdesc⟩
      refine .inr (hlt.imp₂ ?_ hdesc)
      intro r r' h1 h2
      by_contra hne
      obtain ⟨hr, hr'⟩ := not_or.mp hne
      obtain ⟨x, hx⟩ := List.exists_mem_of_ne_nil _ hr
      obtain ⟨y, hy⟩ := List.exists_mem_of_ne_nil _ hr'
      have h3 := h1 x hx y hy
      have h4 : day y ≤ day x := h2 x hx y hy
      omega
    · rintro (h | h)
      · cases h
      · refine ⟨hsorted, h.imp ?_⟩
        rintro r r' (hnil | hnil) x hx y hy
        · rw [hnil] at hx
          cases hx
        · rw [hnil] at hy
          cases hy

/-- Lists with the same records of distinct dates in the same order are equal. -/
theorem sortedBy_unique {order : SortOrder} {l l' : List DataRecord} (hperm : l.Perm l')
    (hdistinct : l'.Pairwise fun a b => day a ≠ day b) (hl : SortedBy day order l)
    (hl' : SortedBy day order l') : l = l' := by
  refine List.Perm.eq_of_pairwise ?_ hl hl' hperm
  intro a b ha hb hab hba
  have hday : day a = day b := by
    cases order with
    | asc => exact le_antisymm hab hba
    | desc => exact le_antisymm hba hab
  have : Std.Symm fun a b : DataRecord => day a ≠ day b := ⟨fun _ _ h => h.symm⟩
  by_contra hne
  exact hdistinct.forall (hperm.subset ha) hb hne hday

/-- What is taken of every chunk is all of it. -/
theorem flatMap_chunkAnswer_length {ranges : List DateRange}
    {records : DateRange → List DataRecord}
    (h : (ranges.flatMap fun range => chunkAnswer params (records range)).length =
      (ranges.flatMap records).length) :
    ∀ range ∈ ranges, OnePage params →
      (records range).length ≤ (pageLimit params).toInt.toNat := by
  intro range hr honce
  by_contra hlt
  rw [List.length_flatMap, List.length_flatMap] at h
  refine (List.sum_lt_sum (fun range => (chunkAnswer params (records range)).length)
    (fun range => (records range).length) ?_ ⟨range, hr, ?_⟩).ne h
  · intro range _
    exact (chunkAnswer_sublist _).length_le
  · rw [chunkAnswer, if_pos honce, List.length_take]
    omega

/-- The records of all chunks are those of the range. -/
theorem SortingServer.chunks_perm (server : SortingServer day R) {m n : ℤ}
    (hc : Chunked 365 m n ((chunksOf params).map rangeDays)) :
    ((chunksOf params).flatMap fun range => server.matching (rangeQuery params range)).Perm
      (within day R m n) := by
  have h := hc.flatMap_perm day (by norm_num) R
  rw [List.flatMap_map] at h
  exact (List.Perm.flatMap_left _ fun range _ => server.perm_rangeQuery range).trans h

/-- When what is taken of the chunks is sorted. -/
theorem SortingServer.sortedBy_chunks (server : SortingServer day R) {order : SortOrder} {m n : ℤ}
    (hfield : params.sortField = some (bytes "date"))
    (horder : params.sortOrder = some order.toText)
    (hc : Chunked 365 m n ((chunksOf params).map rangeDays)) :
    SortedBy day order ((chunksOf params).flatMap fun range =>
        chunkAnswer params (server.matching (rangeQuery params range))) ↔
      order = .asc ∨ (pageLimit params).toInt ≤ 0 ∨ (chunksOf params).Pairwise fun r r' =>
        recordsIn day R r = [] ∨ recordsIn day R r' = [] := by
  have hperm : ∀ range, (server.matching (rangeQuery params range)).Perm (recordsIn day R range) :=
    fun range => server.perm_rangeQuery range
  have hnil : ∀ range, server.matching (rangeQuery params range) = [] ↔
      recordsIn day R range = [] := fun range => by
    rw [← List.length_eq_zero_iff, (hperm range).length_eq, List.length_eq_zero_iff]
  rw [sortedBy_flatMap]
  · simp only [chunkAnswer_eq_nil, hnil]
    by_cases hlimit : (pageLimit params).toInt ≤ 0
    · simp only [hlimit, true_or, or_true, iff_true]
      exact .inr (List.pairwise_of_forall fun _ _ => trivial)
    · simp only [hlimit, false_or]
  · intro range _
    have hsorted := server.sorted (rangeQuery params range) order hfield horder
    exact hsorted.sublist (chunkAnswer_sublist _)
  · refine (chunks_pairwise_lt day R hc).imp ?_
    intro r r' h x hx y hy
    exact h x ((hperm r).subset ((chunkAnswer_sublist _).subset hx)) y
      ((hperm r').subset ((chunkAnswer_sublist _).subset hy))

/-- The records a call with sort field `date` returns come in the requested order, and are
    those of one query over the whole range if their dates are distinct, exactly if

    * the order is ascending, no records are asked for, or at most one chunk has any, and
    * for distinct dates, no chunk is left off after its first page. -/
theorem getDataAll_ordered_iff (server : SortingServer day R) {order : SortOrder} {m n : ℤ}
    (hfield : params.sortField = some (bytes "date"))
    (horder : params.sortOrder = some order.toText)
    (hm : dayOf params.startDate = .ok m) (hn : dayOf params.endDate = .ok n) (hmn : m ≤ n)
    {t : List Exchange} {res : Result (List DataRecord)}
    (hrun : (getDataAll glaze params).Runs t res)
    (hserves : ∀ x ∈ t, Serves glaze server.matching x) :
    (∃ records, res = .ok records ∧ SortedBy day order records ∧
      ((within day R m n).Pairwise (fun a b => day a ≠ day b) →
        records = server.matching (rangeQuery params (params.startDate, params.endDate)))) ↔
    (order = .asc ∨ (pageLimit params).toInt ≤ 0 ∨ (chunksOf params).Pairwise fun r r' =>
      recordsIn day R r = [] ∨ recordsIn day R r' = []) ∧
    ((within day R m n).Pairwise (fun a b => day a ≠ day b) →
      ∀ range ∈ chunksOf params, OnePage params →
        (recordsIn day R range).length ≤ (pageLimit params).toInt.toNat) := by
  have hc := chunksOf_chunked hm hn hmn
  have hres := server.result hm hn hmn hrun hserves
  have hperm : ∀ range, (server.matching (rangeQuery params range)).Perm (recordsIn day R range) :=
    fun range => server.perm_rangeQuery range
  -- the records of all chunks are those of the whole range
  have hwhole : (server.matching (rangeQuery params (params.startDate, params.endDate))).Perm
      (within day R m n) := by
    have h := hperm (params.startDate, params.endDate)
    rwa [recordsIn, (rangeDays_eq hm hn).1] at h
  have hall := server.chunks_perm hc
  have hiff := server.sortedBy_chunks hfield horder hc
  constructor
  · rintro ⟨records, hrecords, hs, heq⟩
    rw [hres, Except.ok.injEq] at hrecords
    rw [← hrecords] at hs heq
    refine ⟨hiff.mp hs, fun hdistinct range hr honce => ?_⟩
    have hlen := flatMap_chunkAnswer_length
      (((congrArg List.length (heq hdistinct)).trans hwhole.length_eq).trans hall.length_eq.symm)
      range hr honce
    rwa [(hperm range).length_eq] at hlen
  · rintro ⟨hcond, hcut⟩
    refine ⟨_, hres, hiff.mpr hcond, fun hdistinct => ?_⟩
    have heq : ∀ range ∈ chunksOf params,
        chunkAnswer params (server.matching (rangeQuery params range)) =
          server.matching (rangeQuery params range) := by
      intro range hr
      unfold chunkAnswer
      split_ifs with honce
      · apply List.take_of_length_le
        rw [(hperm range).length_eq]
        exact hcut hdistinct range hr honce
      · rfl
    have hs := hiff.mpr hcond
    rw [List.flatMap_congr heq] at hs ⊢
    exact sortedBy_unique (hall.trans hwhole.symm)
      (hwhole.symm.pairwise hdistinct fun h => h.symm) hs (server.sorted _ order hfield horder)

/-! ## A server that sorts, and a descending call -/

/-- The order by date a request asks for. -/
def requestedOrder (p : GetDataParams) : Option SortOrder :=
  if p.sortField = some (bytes "date") then
    [SortOrder.asc, .desc].find? fun order => p.sortOrder = some order.toText
  else none

theorem requestedOrder_eq {p : GetDataParams} {order : SortOrder}
    (hfield : p.sortField = some (bytes "date")) (horder : p.sortOrder = some order.toText) :
    requestedOrder p = some order := by
  rw [requestedOrder, if_pos hfield, horder]
  cases order <;> decide

/-- The server that sorts the matching records by merge sort. -/
def sortingServer (day : DataRecord → ℤ) (R : List DataRecord) : SortingServer day R where
  matching := fun p =>
    match requestedOrder p with
    | none => matchingOf day R p
    | some order => (matchingOf day R p).mergeSort fun a b => order.le (day a) (day b)
  perm := by
    intro p
    split
    · exact List.Perm.refl _
    · exact List.mergeSort_perm _ _
  sorted := by
    intro p order hfield horder
    rw [requestedOrder_eq hfield horder]
    refine (List.pairwise_mergeSort ?_ ?_ _).imp fun h => of_decide_eq_true h
    · intro a b c hab hbc
      simp only [decide_eq_true_eq] at hab hbc ⊢
      cases order with
      | asc => exact le_trans hab hbc
      | desc => exact le_trans hbc hab
    · intro a b
      simp only [Bool.or_eq_true, decide_eq_true_eq]
      cases order with
      | asc => exact le_total _ _
      | desc => exact le_total _ _
  paged := fun _ _ _ => rfl

/-- A record in each of two chunks. -/
def twoYears : List DataRecord :=
  [{ date := bytes "2023-05-01T00:00:00" }, { date := bytes "2024-03-01T00:00:00" }]

/-- `{"metadata":{"resultset":{"offset":1,"count":1,"limit":1000}},"results":[{"date":d}]}`. -/
def twoYearsBody (d : String) : Bytes :=
  bytes "\x7b\"metadata\":\x7b\"resultset\":\x7b\"offset\":1,\"count\":1,\"limit\":1000\x7d\x7d," ++
    bytes "\"results\":[\x7b\"date\":\"" ++ bytes d ++ bytes "\"\x7d]\x7d"

def twoYearsGlaze : Glaze where
  generic := fun _ => none
  records := fun body =>
    if body = twoYearsBody "2023-05-01T00:00:00" then
      .ok ⟨some (some ⟨some 1, some 1, some 1000⟩), some (twoYears.take 1)⟩
    else if body = twoYearsBody "2024-03-01T00:00:00" then
      .ok ⟨some (some ⟨some 1, some 1, some 1000⟩), some (twoYears.drop 1)⟩
    else .error []

def twoYearsParams (order : SortOrder) : GetDataParams where
  datasetId := bytes "GHCND"
  startDate := bytes "2023-01-01"
  endDate := bytes "2024-06-01"
  sortField := some (bytes "date")
  sortOrder := some order.toText

def year2023 : DateRange := (bytes "2023-01-01", bytes "2024-01-01")

def year2024 : DateRange := (bytes "2024-01-02", bytes "2024-06-01")

def twoYearsExchanges (order : SortOrder) : List Exchange :=
  [(pagePath (twoYearsParams order) year2023 1,
      .ok ⟨200, twoYearsBody "2023-05-01T00:00:00", []⟩),
    (pagePath (twoYearsParams order) year2024 1,
      .ok ⟨200, twoYearsBody "2024-03-01T00:00:00", []⟩)]

theorem splitDateRange_twoYears (order : SortOrder) :
    splitDateRange (twoYearsParams order).startDate (twoYearsParams order).endDate =
      .ok [year2023, year2024] := by
  have h1 : daysBetween (bytes "2023-01-01") (bytes "2024-06-01") = .ok 517 := by decide
  have h2 : addDays (bytes "2023-01-01") 365 = .ok (bytes "2024-01-01") := by decide
  have h3 : addDays (bytes "2024-01-01") 1 = .ok (bytes "2024-01-02") := by decide
  have h4 : daysBetween (bytes "2024-01-02") (bytes "2024-06-01") = .ok 151 := by decide
  simp only [twoYearsParams, splitDateRange, h1, bind, Except.bind]
  rw [dif_neg (by norm_num), if_neg (by norm_num), splitLoop_next h1 (by norm_num) h2 h3,
    splitLoop_last h4 (by norm_num)]
  rfl

theorem matching_twoYears (order : SortOrder) {range : DateRange} {r : DataRecord}
    (h : recordsIn recordDay twoYears range = [r]) :
    (sortingServer recordDay twoYears).matching
      (requestOf (pagePath (twoYearsParams order) range 1)) = [r] := by
  rw [SortingServer.matching_pagePath]
  have hrecords : matchingOf recordDay twoYears (rangeQuery (twoYearsParams order) range) = [r] := h
  simp only [sortingServer, hrecords]
  split
  · rfl
  · exact List.mergeSort_singleton r

theorem serves_twoYears (order : SortOrder) : ∀ x ∈ twoYearsExchanges order,
    Serves twoYearsGlaze (sortingServer recordDay twoYears).matching x := by
  have h1 : recordsIn recordDay twoYears year2023 = [{ date := bytes "2023-05-01T00:00:00" }] := by
    decide
  have h2 : recordsIn recordDay twoYears year2024 = [{ date := bytes "2024-03-01T00:00:00" }] := by
    decide
  have hne : twoYearsBody "2024-03-01T00:00:00" ≠ twoYearsBody "2023-05-01T00:00:00" := by decide
  intro x hx
  simp only [twoYearsExchanges, List.mem_cons, List.not_mem_nil, or_false] at hx
  rcases hx with rfl | rfl
  · rw [Serves, matching_twoYears order h1, requestOf_pagePath]
    refine ⟨by decide, _, rfl, rfl, ?_⟩
    simp only [twoYearsGlaze, if_true]
    rfl
  · rw [Serves, matching_twoYears order h2, requestOf_pagePath]
    refine ⟨by decide, _, rfl, rfl, ?_⟩
    simp only [twoYearsGlaze, if_neg hne, if_true]
    rfl

theorem runs_twoYears (order : SortOrder) :
    (getDataAll twoYearsGlaze (twoYearsParams order)).Runs (twoYearsExchanges order)
      (.ok twoYears) := by
  have h1 : recordsIn recordDay twoYears year2023 = [{ date := bytes "2023-05-01T00:00:00" }] := by
    decide
  have h2 : recordsIn recordDay twoYears year2024 = [{ date := bytes "2024-03-01T00:00:00" }] := by
    decide
  rw [getDataAll_runs (splitDateRange_twoYears order)]
  obtain ⟨hs1, hs2⟩ := List.forall_mem_cons.mp (serves_twoYears order)
  have hs2 := List.forall_mem_singleton.mp hs2
  have p1 := hs1.dataPage (matching_twoYears order h1)
  have p2 := hs2.dataPage (matching_twoYears order h2)
  have hone : (1 : Int32).toInt = 1 := rfl
  have hlimit : (pageLimit (twoYearsParams order)).toInt = 1000 := rfl
  have hpage : ∀ (range : DateRange) (r : Result HttpResponse) (record : DataRecord)
      (acc : List DataRecord),
      dataPage twoYearsGlaze r = .ok (serverPage (twoYearsParams order) [record] 1) →
      Pages twoYearsGlaze (twoYearsParams order) range 1 acc
        [(pagePath (twoYearsParams order) range 1, r)] (.ok (acc ++ [record])) := by
    intro range r record acc hp
    have hmore : ¬ (serverPage (twoYearsParams order) [record] 1).hasMore = true := by
      rw [hasMore_serverPage (by simp [twoYearsParams]) (by omega) (by omega) (by simp), hlimit,
        hone, List.length_singleton]
      norm_num
    exact .last hp (fun h => hmore h.1) (fun h => hmore h.1)
  exact .next (hpage year2023 _ _ [] p1) (.next (hpage year2024 _ _ _ p2) .done)

/-- A descending call over two chunks returns the older record first. -/
theorem getDataAll_not_descending :
    (getDataAll twoYearsGlaze (twoYearsParams .desc)).Runs (twoYearsExchanges .desc)
      (.ok twoYears) ∧
    (∀ x ∈ twoYearsExchanges .desc,
      Serves twoYearsGlaze (sortingServer recordDay twoYears).matching x) ∧
    ¬ SortedBy recordDay .desc twoYears := by
  refine ⟨runs_twoYears .desc, serves_twoYears .desc, ?_⟩
  decide

/-- An ascending call over the same two chunks returns the older record first, too. -/
theorem getDataAll_ordered_iff_ascending :
    ∃ records, (Except.ok twoYears : Result (List DataRecord)) = .ok records ∧
      SortedBy recordDay .asc records ∧
      ((within recordDay twoYears 19358 19875).Pairwise (fun a b => recordDay a ≠ recordDay b) →
        records = (sortingServer recordDay twoYears).matching
          (rangeQuery (twoYearsParams .asc) (bytes "2023-01-01", bytes "2024-06-01"))) := by
  have hm : dayOf (twoYearsParams .asc).startDate = .ok 19358 := by decide
  have hn : dayOf (twoYearsParams .asc).endDate = .ok 19875 := by decide
  refine (getDataAll_ordered_iff (sortingServer recordDay twoYears) rfl rfl hm hn (by norm_num)
    (runs_twoYears .asc) (serves_twoYears .asc)).mpr ⟨.inl rfl, fun _ range _ honce => ?_⟩
  have hnot : ¬ OnePage (twoYearsParams .asc) := by decide
  exact absurd honce hnot

end NceiCpp.Api
