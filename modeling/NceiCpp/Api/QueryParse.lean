import NceiCpp.Api.Query
import NceiCpp.Lib.QueryString

/-!
# Reading a request path back

What a server makes of the paths the builders of `NceiCpp.Api.Query` produce: it splits
the path at the first `?`, the rest on `&`, every part at its first `=`, and decodes the
values. The values of `stations` and `dataTypes` of the Data Service are split on `,`
before they are decoded.

* `buildListQuery_eq`, `buildDataQuery_eq`, `buildServiceQuery_eq`: each path is the
  query string of the parameters that are present, in a fixed order, with encoded values.
* `parsePath_buildListQuery`, `parsePath_buildDataQuery`,
  `parseServicePath_buildServiceQuery`: the server reads exactly these parameters.
* `readListParams_listPairs`, `readDataParams_dataPairs`,
  `readServiceParams_servicePairs`: they determine the parameter structure, up to an
  empty list for an absent one.
* `urlChar_buildListQuery`, `urlChar_buildDataQuery`, `urlChar_buildServiceQuery`: the
  bytes of a path, none of which ends it early.
-/

namespace NceiCpp.Api

open QueryString

/-! ## The parameters that are present -/

/-- The pair of an optional parameter. -/
def pairIf {α : Type} (key : String) (value : Option α) : List (Bytes × α) :=
  match value with
  | some x => [(bytes key, x)]
  | none => []

/-- The parameters of a list query, in order. -/
def listPairs (params : CDOListParams) : List (Bytes × Bytes) :=
  pairIf "datasetid" params.datasetId ++ pairIf "locationid" params.locationId ++
  pairIf "stationid" params.stationId ++ pairIf "datatypeid" params.dataTypeId ++
  pairIf "datacategoryid" params.dataCategoryId ++
  pairIf "locationcategoryid" params.locationCategoryId ++
  pairIf "startdate" params.startDate ++ pairIf "enddate" params.endDate ++
  pairIf "sortfield" params.sortField ++ pairIf "sortorder" params.sortOrder ++
  pairIf "limit" (params.limit.map fun n => formatInt n.toInt) ++
  pairIf "offset" (params.offset.map fun n => formatInt n.toInt)

/-- The parameters of a CDO data query, in order. -/
def dataPairs (params : GetDataParams) : List (Bytes × Bytes) :=
  [(bytes "datasetid", params.datasetId), (bytes "startdate", params.startDate),
    (bytes "enddate", params.endDate)] ++
  (params.dataTypeIds.getD []).map (fun dt => (bytes "datatypeid", dt)) ++
  pairIf "locationid" params.locationId ++ pairIf "stationid" params.stationId ++
  pairIf "sortfield" params.sortField ++ pairIf "sortorder" params.sortOrder ++
  pairIf "limit" (params.limit.map fun n => formatInt n.toInt) ++
  pairIf "offset" (params.offset.map fun n => formatInt n.toInt) ++
  pairIf "units" params.units ++ pairIf "includemetadata" (params.includeMetadata.map boolText)

/-- The value of a list parameter; an empty list is an absent one. -/
def listValue (xs : Option (List Bytes)) : Option (List Bytes) :=
  if xs.getD [] = [] then none else xs

/-- The parameters of a Data Service query, in order: a list parameter has one value per
    element, any other parameter has one value. -/
def servicePairs (params : DataRequestParams) : List (Bytes × List Bytes) :=
  [(bytes "dataset", [params.dataset])] ++
  pairIf "startDate" (params.startDate.map fun x => [x]) ++
  pairIf "endDate" (params.endDate.map fun x => [x]) ++
  pairIf "stations" (listValue params.stations) ++
  pairIf "dataTypes" (listValue params.dataTypes) ++
  pairIf "format" (params.format.map fun x => [x.toText]) ++
  pairIf "units" (params.units.map fun x => [x]) ++
  pairIf "boundingBox" (params.bbox.map fun x => [x]) ++
  pairIf "includeAttributes" (params.includeAttributes.map fun x => [boolText x]) ++
  pairIf "includeStationName" (params.includeStationName.map fun x => [boolText x]) ++
  pairIf "includeStationLocation" (params.includeStationLocation.map fun x => [boolText x])

/-! ## What a server reads -/

/-- Split a path at the first `?`, then on `&`, then at the first `=`. -/
def splitPath (path : Bytes) : Bytes × List (Bytes × Bytes) :=
  split (ch '?') (ch '&') (ch '=') path

/-- The resource of a path and its parameters, with decoded values. -/
def parsePath (path : Bytes) : Bytes × List (Bytes × Bytes) :=
  ((splitPath path).1, (splitPath path).2.map fun kv => (kv.1, percentDecode kv.2))

/-- The keys whose values are comma-separated lists. -/
def listKeys : List Bytes := [bytes "stations", bytes "dataTypes"]

/-- The values of a Data Service parameter. -/
def serviceValues (kv : Bytes × Bytes) : Bytes × List Bytes :=
  if kv.1 ∈ listKeys then (kv.1, (kv.2.splitOn (ch ',')).map percentDecode)
  else (kv.1, [percentDecode kv.2])

/-- `parsePath` for the Data Service. -/
def parseServicePath (path : Bytes) : Bytes × List (Bytes × List Bytes) :=
  ((splitPath path).1, (splitPath path).2.map serviceValues)

/-- A `std::int32_t` parameter. -/
def readInt32 (value : Bytes) : Option Int32 :=
  match fromChars value with
  | some (n, []) => some (Int32.ofInt n)
  | _ => none

/-- A boolean parameter. -/
def readBool (value : Bytes) : Option Bool :=
  if value = bytes "true" then some true
  else if value = bytes "false" then some false
  else none

/-- A response format. -/
def readFormat (value : Bytes) : Option ResponseFormat :=
  [ResponseFormat.csv, .json, .ssv, .pdf, .netCDF].find? fun f => f.toText = value

/-- The value of the first parameter `key`. -/
def param {α : Type} (pairs : List (Bytes × α)) (key : String) : Option α :=
  pairs.lookup (bytes key)

def readListParams (pairs : List (Bytes × Bytes)) : CDOListParams where
  datasetId := param pairs "datasetid"
  locationId := param pairs "locationid"
  stationId := param pairs "stationid"
  dataTypeId := param pairs "datatypeid"
  dataCategoryId := param pairs "datacategoryid"
  locationCategoryId := param pairs "locationcategoryid"
  startDate := param pairs "startdate"
  endDate := param pairs "enddate"
  sortField := param pairs "sortfield"
  sortOrder := param pairs "sortorder"
  limit := (param pairs "limit").bind readInt32
  offset := (param pairs "offset").bind readInt32

def readDataParams (pairs : List (Bytes × Bytes)) : GetDataParams where
  datasetId := (param pairs "datasetid").getD []
  startDate := (param pairs "startdate").getD []
  endDate := (param pairs "enddate").getD []
  dataTypeIds := some ((pairs.filter fun kv => kv.1 = bytes "datatypeid").map Prod.snd)
  locationId := param pairs "locationid"
  stationId := param pairs "stationid"
  sortField := param pairs "sortfield"
  sortOrder := param pairs "sortorder"
  limit := (param pairs "limit").bind readInt32
  offset := (param pairs "offset").bind readInt32
  units := param pairs "units"
  includeMetadata := (param pairs "includemetadata").bind readBool

def readServiceParams (pairs : List (Bytes × List Bytes)) : DataRequestParams where
  dataset := ((param pairs "dataset").bind List.head?).getD []
  startDate := (param pairs "startDate").bind List.head?
  endDate := (param pairs "endDate").bind List.head?
  stations := some ((param pairs "stations").getD [])
  dataTypes := some ((param pairs "dataTypes").getD [])
  format := ((param pairs "format").bind List.head?).bind readFormat
  units := (param pairs "units").bind List.head?
  bbox := (param pairs "boundingBox").bind List.head?
  includeAttributes := ((param pairs "includeAttributes").bind List.head?).bind readBool
  includeStationName := ((param pairs "includeStationName").bind List.head?).bind readBool
  includeStationLocation :=
    ((param pairs "includeStationLocation").bind List.head?).bind readBool

/-- The parameters with an empty list in place of an absent one. -/
def GetDataParams.normalized (params : GetDataParams) : GetDataParams :=
  { params with dataTypeIds := some (params.dataTypeIds.getD []) }

def DataRequestParams.normalized (params : DataRequestParams) : DataRequestParams :=
  { params with
    stations := some (params.stations.getD [])
    dataTypes := some (params.dataTypes.getD []) }

/-! ## The paths as query strings -/

/-- A pair with its value encoded. -/
def encodePair (kv : Bytes × Bytes) : Bytes × Bytes := (kv.1, encode kv.2)

/-- The query string of a resource and its parameters. -/
def renderPath (base : Bytes) (kvs : List (Bytes × Bytes)) : Bytes :=
  render (ch '?') (ch '&') (ch '=') base kvs

/-- The locals of `build_list_query` after the parameters `kvs`. -/
def ListUrl.ofPairs (base : Bytes) (kvs : List (Bytes × Bytes)) : ListUrl :=
  ⟨renderPath base (kvs.map encodePair), if kvs = [] then ch '?' else ch '&'⟩

theorem ListUrl.appendIf_ofPairs (base : Bytes) (kvs : List (Bytes × Bytes)) (key : String)
    (value : Option Bytes) :
    (ofPairs base kvs).appendIf key value = ofPairs base (kvs ++ pairIf key value) := by
  cases value with
  | none => simp [appendIf, pairIf]
  | some x =>
    simp only [appendIf, append, pairIf, ofPairs, renderPath, List.map_append, List.map_singleton,
      render_concat, List.map_eq_nil_iff, List.append_eq_nil_iff, List.cons_ne_nil, and_false,
      if_false]
    rfl

theorem buildListQuery_eq (base : Bytes) (params : CDOListParams) :
    buildListQuery base params = renderPath base ((listPairs params).map encodePair) := by
  have hstart : (⟨base, ch '?'⟩ : ListUrl) = ListUrl.ofPairs base [] := by
    simp [ListUrl.ofPairs, renderPath, render]
  simp only [buildListQuery, hstart, ListUrl.appendIf_ofPairs, List.nil_append]
  rfl

/-- The texts of further pairs. -/
def pairTexts (kvs : List (Bytes × Bytes)) : Bytes :=
  kvs.flatMap fun kv => ch '&' :: pairText (ch '=') kv

theorem keyValueIf_eq (key : String) (value : Option Bytes) :
    keyValueIf key value = pairTexts (pairIf key value) := by
  cases value with
  | none => rfl
  | some x => simp [keyValueIf, keyValue, pairTexts, pairIf, pairText]

theorem pairTexts_append (kvs kvs' : List (Bytes × Bytes)) :
    pairTexts (kvs ++ kvs') = pairTexts kvs ++ pairTexts kvs' := List.flatMap_append

theorem map_encodePair_pairIf (key : String) (value : Option Bytes) :
    (pairIf key value).map encodePair = pairIf key (value.map encode) := by
  cases value <;> rfl

theorem isUnreserved_boolText (b : Bool) : ∀ c ∈ boolText b, isUnreserved c = true := by
  rw [← List.all_eq_true]
  cases b <;> rfl

theorem isUnreserved_toText (f : ResponseFormat) : ∀ c ∈ f.toText, isUnreserved c = true := by
  rw [← List.all_eq_true]
  cases f <;> rfl

/-- Formatted numbers need no encoding. -/
theorem encode_formatInt (value : Option Int32) :
    (value.map fun n => formatInt n.toInt).map encode = value.map fun n => formatInt n.toInt := by
  rw [Option.map_map]
  congr 1
  funext n
  exact encode_eq_self (isUnreserved_formatInt _)

/-- Booleans need no encoding. -/
theorem encode_boolText (value : Option Bool) :
    (value.map boolText).map encode = value.map boolText := by
  rw [Option.map_map]
  congr 1
  funext b
  exact encode_eq_self (isUnreserved_boolText b)

theorem buildDataQuery_eq (params : GetDataParams) :
    buildDataQuery params = renderPath (bytes "/data") ((dataPairs params).map encodePair) := by
  have hlist : ((params.dataTypeIds.getD []).flatMap fun dt => keyValue "datatypeid" (encode dt)) =
      pairTexts (((params.dataTypeIds.getD []).map fun dt => (bytes "datatypeid", dt)).map
        encodePair) := by
    simp only [pairTexts, List.flatMap_map]
    rfl
  have hhead : bytes "/data?datasetid=" ++ encode params.datasetId ++
        (bytes "&startdate=" ++ encode params.startDate) ++
        (bytes "&enddate=" ++ encode params.endDate) =
      renderPath (bytes "/data") (List.map encodePair [(bytes "datasetid", params.datasetId),
        (bytes "startdate", params.startDate), (bytes "enddate", params.endDate)]) := by
    simp [renderPath, render, encodePair, pairText, List.intercalate, bytes]
  simp only [dataPairs, buildDataQuery, List.append_assoc, List.map_append,
    map_encodePair_pairIf, encode_formatInt, encode_boolText, keyValueIf_eq, hlist,
    ← pairTexts_append]
  rw [renderPath, render_append _ _ _ _ (by simp), ← renderPath, ← hhead, pairTexts]
  simp only [List.append_assoc]

/-- A Data Service parameter with its values encoded and joined by commas. -/
def encodeValues (kv : Bytes × List Bytes) : Bytes × Bytes :=
  (kv.1, [ch ','].intercalate (kv.2.map encode))

theorem commaList_false (key : String) (xs : List Bytes) :
    commaList key false xs = xs.flatMap fun x => ch ',' :: encode x := by
  induction xs with
  | nil => rfl
  | cons x xs ih =>
    rw [commaList, ih, List.flatMap_cons]
    rfl

theorem intercalate_cons (c : Byte) (x : Bytes) (xs : List Bytes) :
    [c].intercalate (x :: xs) = x ++ xs.flatMap fun y => c :: y := by
  induction xs generalizing x with
  | nil => simp
  | cons y xs ih => rw [List.intercalate_cons_cons, ih, List.flatMap_cons]; simp

/-- The loop over a list field writes the list parameter. -/
theorem commaList_true (key : String) (xs : Option (List Bytes)) :
    commaList key true (xs.getD []) =
      pairTexts ((pairIf key (listValue xs)).map encodeValues) := by
  match xs with
  | none => rfl
  | some [] => rfl
  | some (x :: xs) =>
    have hvalue : listValue (some (x :: xs)) = some (x :: xs) := by simp [listValue]
    rw [hvalue, Option.getD_some, commaList, commaList_false]
    simp only [pairIf, pairTexts, encodeValues, pairText, List.map_cons, List.map_nil,
      List.flatMap_cons, List.flatMap_nil, List.append_nil, intercalate_cons, if_true,
      List.flatMap_map]
    simp

theorem map_encodeValues_pairIf {α : Type} (key : String) (value : Option α) (f : α → Bytes) :
    (pairIf key (value.map fun x => [f x])).map encodeValues =
      pairIf key (value.map fun x => encode (f x)) := by
  cases value with
  | none => rfl
  | some x => simp [pairIf, encodeValues]

theorem encode_toText (f : ResponseFormat) : encode f.toText = f.toText :=
  encode_eq_self (isUnreserved_toText f)

theorem buildServiceQuery_eq (params : DataRequestParams) :
    buildServiceQuery params =
      renderPath (bytes "/data/v1") ((servicePairs params).map encodeValues) := by
  have hhead : bytes "/data/v1?dataset=" ++ encode params.dataset =
      renderPath (bytes "/data/v1") ([(bytes "dataset", [params.dataset])].map encodeValues) := by
    simp [renderPath, render, encodeValues, pairText, bytes]
  simp only [servicePairs, buildServiceQuery, List.append_assoc, List.map_append, commaList_true,
    map_encodeValues_pairIf, encode_toText, encode_eq_self (isUnreserved_boolText _),
    keyValueIf_eq, ← pairTexts_append]
  rw [renderPath, render_append _ _ _ _ (by simp), ← renderPath, ← hhead, pairTexts]
  rw [List.append_assoc]

/-! ## Splitting a path -/

/-- A key of unreserved characters: it needs no encoding and splitting keeps it whole. -/
def PlainKey (key : Bytes) : Prop := key.all isUnreserved = true

theorem PlainKey.not_mem {key : Bytes} (h : PlainKey key) {c : Byte}
    (hc : isUnreserved c = false) : c ∉ key := by
  intro hmem
  have := List.all_eq_true.mp h c hmem
  rw [hc] at this
  exact absurd this (by simp)

theorem splitPath_renderPath {base : Bytes} {kvs : List (Bytes × Bytes)} (hbase : ch '?' ∉ base)
    (hkeys : ∀ kv ∈ kvs, PlainKey kv.1) (hvalues : ∀ kv ∈ kvs, ch '&' ∉ kv.2) :
    splitPath (renderPath base kvs) = (base, kvs) :=
  split_render _ _ _ hbase (by decide) fun kv hkv =>
    ⟨(hkeys kv hkv).not_mem (by decide), (hkeys kv hkv).not_mem (by decide), hvalues kv hkv⟩

theorem plainKey_pairIf {α : Type} {key : String} (h : PlainKey (bytes key)) (value : Option α) :
    ∀ kv ∈ pairIf key value, PlainKey kv.1 := by
  intro kv hkv
  cases value with
  | none => simp [pairIf] at hkv
  | some x =>
    rw [pairIf, List.mem_singleton] at hkv
    exact hkv ▸ h

theorem plainKey_listPairs (params : CDOListParams) : ∀ kv ∈ listPairs params, PlainKey kv.1 := by
  simp only [listPairs, List.forall_mem_append]
  refine ⟨⟨⟨⟨⟨⟨⟨⟨⟨⟨⟨?_, ?_⟩, ?_⟩, ?_⟩, ?_⟩, ?_⟩, ?_⟩, ?_⟩, ?_⟩, ?_⟩, ?_⟩, ?_⟩ <;>
    exact plainKey_pairIf (by rfl) _

theorem plainKey_dataPairs (params : GetDataParams) : ∀ kv ∈ dataPairs params, PlainKey kv.1 := by
  simp only [dataPairs, List.forall_mem_append]
  refine ⟨⟨⟨⟨⟨⟨⟨⟨⟨?_, ?_⟩, ?_⟩, ?_⟩, ?_⟩, ?_⟩, ?_⟩, ?_⟩, ?_⟩, ?_⟩
  · simp only [List.forall_mem_cons]
    exact ⟨rfl, rfl, rfl, by simp⟩
  · intro kv hkv
    obtain ⟨dt, -, rfl⟩ := List.mem_map.mp hkv
    exact rfl
  all_goals exact plainKey_pairIf (by rfl) _

theorem plainKey_servicePairs (params : DataRequestParams) :
    ∀ kv ∈ servicePairs params, PlainKey kv.1 := by
  simp only [servicePairs, List.forall_mem_append]
  refine ⟨⟨⟨⟨⟨⟨⟨⟨⟨⟨?_, ?_⟩, ?_⟩, ?_⟩, ?_⟩, ?_⟩, ?_⟩, ?_⟩, ?_⟩, ?_⟩, ?_⟩
  · simp only [List.forall_mem_singleton]
    exact rfl
  all_goals exact plainKey_pairIf (by rfl) _

/-- A server that decodes the values of a path with encoded values reads the pairs. -/
theorem parsePath_renderPath {base : Bytes} {kvs : List (Bytes × Bytes)} (hbase : ch '?' ∉ base)
    (hkeys : ∀ kv ∈ kvs, PlainKey kv.1) :
    parsePath (renderPath base (kvs.map encodePair)) = (base, kvs) := by
  have hsplit : splitPath (renderPath base (kvs.map encodePair)) = (base, kvs.map encodePair) := by
    apply splitPath_renderPath hbase
    · intro kv hkv
      obtain ⟨kv', hkv', rfl⟩ := List.mem_map.mp hkv
      exact hkeys kv' hkv'
    · intro kv hkv
      obtain ⟨kv', -, rfl⟩ := List.mem_map.mp hkv
      exact not_mem_encode (by decide) (by decide)
  have hdecode : (fun kv : Bytes × Bytes => (kv.1, percentDecode kv.2)) ∘ encodePair = id := by
    funext kv
    simp [encodePair, percentDecode_encode]
  rw [parsePath, hsplit, List.map_map, hdecode, List.map_id]

theorem parsePath_buildListQuery (c : Collection) (params : CDOListParams) :
    parsePath (buildListQuery c.path params) = (c.path, listPairs params) := by
  rw [buildListQuery_eq]
  exact parsePath_renderPath (by cases c <;> decide) (plainKey_listPairs params)

theorem parsePath_buildDataQuery (params : GetDataParams) :
    parsePath (buildDataQuery params) = (bytes "/data", dataPairs params) := by
  rw [buildDataQuery_eq]
  exact parsePath_renderPath (by decide) (plainKey_dataPairs params)

/-- The Data Service has one value per parameter, apart from the two lists. -/
theorem length_of_mem_servicePairs {params : DataRequestParams} {kv : Bytes × List Bytes}
    (h : kv ∈ servicePairs params) :
    kv.2 ≠ [] ∧ (kv.1 ∉ listKeys → ∃ x, kv.2 = [x]) := by
  have hone : ∀ {α : Type} (key : String) (value : Option α) (f : α → Bytes),
      kv ∈ pairIf key (value.map fun x => [f x]) →
        kv.2 ≠ [] ∧ (kv.1 ∉ listKeys → ∃ x, kv.2 = [x]) := by
    intro α key value f hkv
    cases value with
    | none => simp [pairIf] at hkv
    | some x =>
      simp only [pairIf, Option.map_some, List.mem_singleton] at hkv
      rw [hkv]
      exact ⟨List.cons_ne_nil _ _, fun _ => ⟨f x, rfl⟩⟩
  have hlist : ∀ (key : String) (xs : Option (List Bytes)), bytes key ∈ listKeys →
      kv ∈ pairIf key (listValue xs) → kv.2 ≠ [] ∧ (kv.1 ∉ listKeys → ∃ x, kv.2 = [x]) := by
    intro key xs hkey hkv
    unfold listValue at hkv
    split_ifs at hkv with hxs
    · simp [pairIf] at hkv
    · cases xs with
      | none => simp at hxs
      | some l =>
        rw [pairIf, List.mem_singleton] at hkv
        rw [hkv]
        exact ⟨hxs, fun hnot => absurd hkey hnot⟩
  simp only [servicePairs, List.mem_append] at h
  rcases h with (((((((((h | h) | h) | h) | h) | h) | h) | h) | h) | h) | h
  · rw [List.mem_singleton] at h
    rw [h]
    exact ⟨List.cons_ne_nil _ _, fun _ => ⟨_, rfl⟩⟩
  · exact hone _ _ _ h
  · exact hone _ _ _ h
  · exact hlist _ _ (by decide) h
  · exact hlist _ _ (by decide) h
  all_goals exact hone _ _ _ h

/-- Splitting the raw value on commas and decoding recovers the values. -/
theorem serviceValues_encodeValues {kv : Bytes × List Bytes} (hne : kv.2 ≠ [])
    (hone : kv.1 ∉ listKeys → ∃ x, kv.2 = [x]) : serviceValues (encodeValues kv) = kv := by
  unfold serviceValues encodeValues
  split_ifs with h
  · have htexts : ∀ t ∈ kv.2.map encode, ch ',' ∉ t := by
      intro t ht
      obtain ⟨x, -, rfl⟩ := List.mem_map.mp ht
      exact not_mem_encode (by decide) (by decide)
    have hdecode : percentDecode ∘ encode = id := funext percentDecode_encode
    rw [List.splitOn_intercalate _ htexts (by simpa using hne), List.map_map, hdecode, List.map_id]
  · obtain ⟨x, hx⟩ := hone h
    simp only [hx, List.map_cons, List.map_nil, List.intercalate_singleton, percentDecode_encode]
    rw [← hx]

theorem parseServicePath_buildServiceQuery (params : DataRequestParams) :
    parseServicePath (buildServiceQuery params) = (bytes "/data/v1", servicePairs params) := by
  have hsplit : splitPath (renderPath (bytes "/data/v1") ((servicePairs params).map encodeValues)) =
      (bytes "/data/v1", (servicePairs params).map encodeValues) := by
    apply splitPath_renderPath (by decide)
    · intro kv hkv
      obtain ⟨kv', hkv', rfl⟩ := List.mem_map.mp hkv
      exact plainKey_servicePairs params kv' hkv'
    · intro kv hkv hmem
      obtain ⟨kv', -, rfl⟩ := List.mem_map.mp hkv
      rcases mem_intercalate hmem with h | ⟨t, ht, h⟩
      · revert h
        decide
      · obtain ⟨x, -, rfl⟩ := List.mem_map.mp ht
        exact not_mem_encode (by decide) (by decide) h
  rw [parseServicePath, buildServiceQuery_eq, hsplit, List.map_map]
  congr 1
  conv_rhs => rw [← List.map_id (servicePairs params)]
  apply List.map_congr_left
  intro kv hkv
  obtain ⟨hne, hone⟩ := length_of_mem_servicePairs hkv
  exact serviceValues_encodeValues hne hone

/-! ## Reading the parameters -/

theorem readInt32_formatInt (n : Int32) : readInt32 (formatInt n.toInt) = some n := by
  rw [readInt32, fromChars_formatInt_int32]
  simp

theorem readBool_boolText (b : Bool) : readBool (boolText b) = some b := by cases b <;> decide

theorem readFormat_toText (f : ResponseFormat) : readFormat f.toText = some f := by
  cases f <;> decide

theorem param_nil {α : Type} (key : String) : param ([] : List (Bytes × α)) key = none := rfl

theorem param_append {α : Type} (l l' : List (Bytes × α)) (key : String) :
    param (l ++ l') key = (param l key).or (param l' key) := by
  simp only [param, List.lookup_append]

theorem param_cons {α : Type} (k : String) (x : α) (l : List (Bytes × α)) (key : String) :
    param ((bytes k, x) :: l) key = if bytes key = bytes k then some x else param l key := by
  rw [param, List.lookup_cons]
  by_cases h : bytes key = bytes k
  · simp [h]
  · rw [beq_false_of_ne h, if_neg h]
    rfl

theorem param_pairIf {α : Type} (k : String) (value : Option α) (key : String) :
    param (pairIf k value) key = if bytes key = bytes k then value else none := by
  cases value with
  | none => simp [param, pairIf]
  | some x => rw [pairIf, param_cons, param_nil]

theorem param_map_ne {key k : String} (h : bytes key ≠ bytes k) (xs : List Bytes) :
    param (xs.map fun x => (bytes k, x)) key = none := by
  induction xs with
  | nil => rfl
  | cons x xs ih => rw [List.map_cons, param_cons, if_neg h, ih]

theorem bind_map_readInt32 (value : Option Int32) :
    (value.map fun n => formatInt n.toInt).bind readInt32 = value := by
  cases value with
  | none => rfl
  | some n => exact readInt32_formatInt n

theorem bind_map_readBool (value : Option Bool) :
    (value.map boolText).bind readBool = value := by
  cases value with
  | none => rfl
  | some b => exact readBool_boolText b

theorem readListParams_listPairs (params : CDOListParams) :
    readListParams (listPairs params) = params := by
  simp +decide [readListParams, listPairs, param_append, param_pairIf, bind_map_readInt32]

theorem readDataParams_dataPairs (params : GetDataParams) :
    readDataParams (dataPairs params) = params.normalized := by
  have hids : ((dataPairs params).filter fun kv => kv.1 = bytes "datatypeid").map Prod.snd =
      params.dataTypeIds.getD [] := by
    have hnone : ∀ (k : String) (value : Option Bytes), bytes k ≠ bytes "datatypeid" →
        (pairIf k value).filter (fun kv => kv.1 = bytes "datatypeid") = [] := by
      intro k value hk
      cases value <;> simp [pairIf, hk]
    have hall : ∀ xs : List Bytes, ((xs.map fun dt => (bytes "datatypeid", dt)).filter
        fun kv => kv.1 = bytes "datatypeid").map Prod.snd = xs := by
      intro xs
      simp [List.filter_map, Function.comp_def]
    simp +decide [dataPairs, List.filter_append, hnone, hall]
  simp only [readDataParams, hids]
  simp +decide [dataPairs, param_append, param_cons, param_pairIf, param_map_ne,
    bind_map_readInt32, bind_map_readBool, GetDataParams.normalized]

theorem getD_listValue (xs : Option (List Bytes)) : (listValue xs).getD [] = xs.getD [] := by
  unfold listValue
  split_ifs with h
  · exact h.symm
  · rfl

theorem readServiceParams_servicePairs (params : DataRequestParams) :
    readServiceParams (servicePairs params) = params.normalized := by
  have hhead : ∀ {α : Type} (value : Option α) (f : α → Bytes),
      (value.map fun x => [f x]).bind List.head? = value.map f := by
    intro α value f
    cases value <;> rfl
  have hformat : ∀ value : Option ResponseFormat,
      (value.map ResponseFormat.toText).bind readFormat = value := by
    intro value
    cases value with
    | none => rfl
    | some f => exact readFormat_toText f
  simp +decide [readServiceParams, servicePairs, param_append, param_cons, param_pairIf,
    DataRequestParams.normalized, hhead, hformat, bind_map_readBool, getD_listValue]

/-! ## The bytes of a path -/

/-- A visible ASCII character other than `#`. -/
def PathByte (c : Byte) : Prop := 0x20 < c.toNat ∧ c.toNat < 0x7f ∧ c ≠ ch '#'

instance (c : Byte) : Decidable (PathByte c) := by
  unfold PathByte
  infer_instance

/-- The bytes a path consists of: unreserved characters, `%` and the separators. -/
def UrlChar (c : Byte) : Prop := isUnreserved c = true ∨ c ∈ bytes "%/?&=,"

instance (c : Byte) : Decidable (UrlChar c) := by
  unfold UrlChar
  infer_instance

theorem UrlChar.pathByte {c : Byte} (h : UrlChar c) : PathByte c := by
  rcases h with h | h
  · simp only [isUnreserved, ch, Bool.or_eq_true, Bool.and_eq_true, decide_eq_true_eq, beq_iff_eq,
      ge_iff_le, UInt8.le_iff_toNat_le, ← UInt8.toNat_inj] at h
    simp only [PathByte, ch, ne_eq, ← UInt8.toNat_inj]
    simp at h ⊢
    omega
  · have hall : (bytes "%/?&=,").all (PathByte ·) = true := rfl
    simpa using List.all_eq_true.mp hall c h

theorem urlChar_encode {value : Bytes} {c : Byte} (h : c ∈ encode value) : UrlChar c := by
  rcases mem_encode h with h | rfl
  · exact .inl h
  · decide

theorem urlChar_renderPath {base : Bytes} {kvs : List (Bytes × Bytes)}
    (hbase : base.all (UrlChar ·) = true) (hkeys : ∀ kv ∈ kvs, PlainKey kv.1)
    (hvalues : ∀ kv ∈ kvs, ∀ c ∈ kv.2, UrlChar c) : ∀ c ∈ renderPath base kvs, UrlChar c := by
  intro c hc
  rcases mem_render _ _ _ hc with h | rfl | rfl | rfl | ⟨kv, hkv, h | h⟩
  · simpa using List.all_eq_true.mp hbase c h
  · decide
  · decide
  · decide
  · exact .inl (List.all_eq_true.mp (hkeys kv hkv) c h)
  · exact hvalues kv hkv c h

theorem urlChar_renderPath_encodePair {base : Bytes} {kvs : List (Bytes × Bytes)}
    (hbase : base.all (UrlChar ·) = true) (hkeys : ∀ kv ∈ kvs, PlainKey kv.1) :
    ∀ c ∈ renderPath base (kvs.map encodePair), UrlChar c := by
  apply urlChar_renderPath hbase
  · intro kv hkv
    obtain ⟨kv', hkv', rfl⟩ := List.mem_map.mp hkv
    exact hkeys kv' hkv'
  · intro kv hkv c hc
    obtain ⟨kv', -, rfl⟩ := List.mem_map.mp hkv
    exact urlChar_encode hc

theorem urlChar_buildListQuery (col : Collection) (params : CDOListParams) :
    ∀ c ∈ buildListQuery col.path params, UrlChar c := by
  rw [buildListQuery_eq]
  exact urlChar_renderPath_encodePair (by cases col <;> rfl) (plainKey_listPairs params)

theorem urlChar_buildDataQuery (params : GetDataParams) :
    ∀ c ∈ buildDataQuery params, UrlChar c := by
  rw [buildDataQuery_eq]
  exact urlChar_renderPath_encodePair rfl (plainKey_dataPairs params)

theorem urlChar_buildServiceQuery (params : DataRequestParams) :
    ∀ c ∈ buildServiceQuery params, UrlChar c := by
  rw [buildServiceQuery_eq]
  apply urlChar_renderPath rfl
  · intro kv hkv
    obtain ⟨kv', hkv', rfl⟩ := List.mem_map.mp hkv
    exact plainKey_servicePairs params kv' hkv'
  · intro kv hkv c hc
    obtain ⟨kv', -, rfl⟩ := List.mem_map.mp hkv
    rcases mem_intercalate hc with rfl | ⟨t, ht, h⟩
    · decide
    · obtain ⟨x, -, rfl⟩ := List.mem_map.mp ht
      exact urlChar_encode h

/-! ## Nothing is lost and nothing is injected -/

/-- What a server reads from a path are the parameters that are present, in order, so a
    path determines its parameters up to an empty list for an absent one. No byte of a
    path is a `#`, a blank, a control character or above the ASCII range. -/
theorem queries_recover :
    (∀ (col : Collection) (params : CDOListParams),
      parsePath (buildListQuery col.path params) = (col.path, listPairs params) ∧
      (∀ c ∈ buildListQuery col.path params, PathByte c) ∧
      ∀ other, buildListQuery col.path params = buildListQuery col.path other → params = other) ∧
    (∀ params : GetDataParams,
      parsePath (buildDataQuery params) = (bytes "/data", dataPairs params) ∧
      (∀ c ∈ buildDataQuery params, PathByte c) ∧
      ∀ other, buildDataQuery params = buildDataQuery other →
        params.normalized = other.normalized) ∧
    (∀ params : DataRequestParams,
      parseServicePath (buildServiceQuery params) = (bytes "/data/v1", servicePairs params) ∧
      (∀ c ∈ buildServiceQuery params, PathByte c) ∧
      ∀ other, buildServiceQuery params = buildServiceQuery other →
        params.normalized = other.normalized) := by
  refine ⟨fun col params => ?_, fun params => ?_, fun params => ?_⟩
  · have hparse := parsePath_buildListQuery col params
    refine ⟨hparse, fun c hc => (urlChar_buildListQuery col params c hc).pathByte,
      fun other h => ?_⟩
    rw [h, parsePath_buildListQuery, Prod.mk.injEq] at hparse
    rw [← readListParams_listPairs params, ← hparse.2, readListParams_listPairs]
  · have hparse := parsePath_buildDataQuery params
    refine ⟨hparse, fun c hc => (urlChar_buildDataQuery params c hc).pathByte, fun other h => ?_⟩
    rw [h, parsePath_buildDataQuery, Prod.mk.injEq] at hparse
    rw [← readDataParams_dataPairs, ← hparse.2, readDataParams_dataPairs]
  · have hparse := parseServicePath_buildServiceQuery params
    refine ⟨hparse, fun c hc => (urlChar_buildServiceQuery params c hc).pathByte,
      fun other h => ?_⟩
    rw [h, parseServicePath_buildServiceQuery, Prod.mk.injEq] at hparse
    rw [← readServiceParams_servicePairs, ← hparse.2, readServiceParams_servicePairs]

end NceiCpp.Api
