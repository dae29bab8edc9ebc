import NceiCpp.Api.Query
import NceiCpp.Core.DateRange
import NceiCpp.Lib.Interaction
import NceiCpp.Models.Pagination

/-!
# The CDO client

Model of the request methods of `CDOClient` (`src/api/cdo_client.cpp`). A method is a
program that asks for paths: what `do_get` returns for a path is the answer. Which
answers `do_get` gives, and what it does for them, is modelled in
`NceiCpp.Api.CdoRequests`.

The single-entity and the list methods differ in the path and in the type they read, so
they are two definitions with the type and its Glaze reader as parameters.
-/

namespace NceiCpp.Api

open Interaction NceiCpp.Core NceiCpp.Models

structure DataRecord where
  date : Bytes := []
  datatype : Bytes := []
  station : Bytes := []
  attributes : Bytes := []
  value : ℚ := 0
  deriving DecidableEq

/-- What Glaze reads: a generic value, and a list response of data records. -/
structure Glaze where
  generic : Bytes → Option Json
  records : ListReader DataRecord

/-- A method of the client: its questions are the paths it passes to `do_get`. -/
abbrev Client (α : Type) := Program Bytes (Result HttpResponse) α

/-- One request with the answer `do_get` gave. -/
abbrev Exchange := Bytes × Result HttpResponse

/-- `parse_list_response` (lines 173–181). -/
def parseListResponse {T : Type} (read : ListReader T) (response : HttpResponse) :
    Result (CDOResponse T) :=
  match deserializeCdoListImpl read response.body {} with
  | (.error e, _) => .error e
  | (.ok _, result) => .ok result

/-- `parse_single_response` (lines 183–191); `read` is the reader of the type, with the
    text of its error. -/
def parseSingleResponse {T : Type} (read : Bytes → Except Bytes T) (response : HttpResponse) :
    Result T :=
  match read response.body with
  | .error ec => .error (Error.parse ec)
  | .ok obj => .ok obj

/-- What every method does with the answer of `do_get`. -/
def finish {α : Type} (generic : Bytes → Option Json) (parse : HttpResponse → Result α)
    (response : Result HttpResponse) : Result α :=
  match response with
  | .error e => .error e
  | .ok response =>
    if response.statusCode ≠ 200 then
      .error (Error.fromResponse generic response.statusCode response.body)
    else parse response

/-- The list methods: `get_datasets`, `get_data_categories`, `get_data_types`,
    `get_location_categories`, `get_locations`, `get_stations`. -/
def getList {T : Type} (generic : Bytes → Option Json) (read : ListReader T) (col : Collection)
    (params : CDOListParams) : Client (Result (CDOResponse T)) := do
  let query := buildListQuery col.path params
  let response ← Program.perform query
  return finish generic (parseListResponse read) response

/-- The single-entity methods: `get_dataset`, `get_data_category`, `get_data_type`,
    `get_location_category`, `get_location`, `get_station`. -/
def getSingle {T : Type} (generic : Bytes → Option Json) (read : Bytes → Except Bytes T)
    (col : Collection) (id : Bytes) : Client (Result T) := do
  let path := col.path ++ ch '/' :: encode id
  let response ← Program.perform path
  return finish generic (parseSingleResponse read) response

variable (glaze : Glaze)

/-- The page an answer to a data request denotes. -/
def dataPage (response : Result HttpResponse) : Result (CDOResponse DataRecord) :=
  finish glaze.generic (parseListResponse glaze.records) response

/-- `CDOClient::get_data` (lines 351–361). -/
def getData (params : GetDataParams) : Client (Result (CDOResponse DataRecord)) := do
  let query := buildDataQuery params
  let response ← Program.perform query
  return dataPage glaze response

/-- `chunk_params` of `get_data_all` (lines 379–385). -/
def chunkParams (params : GetDataParams) (range : DateRange) (currentOffset : Int32) :
    GetDataParams :=
  { params with
    startDate := range.1
    endDate := range.2
    offset := some currentOffset
    limit := some (params.limit.getD 1000) }

/-- The error of a page that says there is more and gives no further offset. -/
def stuckError : Error := Error.parse (bytes "CDO pagination did not advance")

/-- The `while` loop of `get_data_all` (lines 378–404), from an offset and the records
    so far. -/
def pageLoop (params : GetDataParams) (range : DateRange) (currentOffset : Int32)
    (allRecords : List DataRecord) : Client (Result (List DataRecord)) := do
  let result ← getData glaze (chunkParams params range currentOffset)
  match result with
  | .error e => return .error e
  | .ok page =>
    if page.hasMore ∧ page.nextOffset ≤ currentOffset then
      return .error stuckError
    else
      let allRecords := allRecords ++ page.results
      if _h : page.hasMore ∧ page.results.isEmpty = false ∧ page.nextOffset > currentOffset then
        pageLoop params range page.nextOffset allRecords
      else return .ok allRecords
termination_by (2 ^ 31 - currentOffset.toInt).toNat
decreasing_by
  have hlt := Int32.lt_iff_toInt_lt.mp _h.2.2
  have := page.nextOffset.toInt_lt
  omega

/-- The `for` loop of `get_data_all` (lines 374–405). -/
def chunkLoop (params : GetDataParams) :
    List DateRange → List DataRecord → Client (Result (List DataRecord))
  | [], allRecords => return .ok allRecords
  | range :: ranges, allRecords => do
    match ← pageLoop glaze params range 1 allRecords with
    | .error e => return .error e
    | .ok allRecords => chunkLoop params ranges allRecords

/-- `CDOClient::get_data_all` (lines 363–408). -/
def getDataAll (params : GetDataParams) : Client (Result (List DataRecord)) :=
  match splitDateRange params.startDate params.endDate with
  | .error (.invalidArgument what) => return .error (Error.invalidRequest what)
  | .error (.outOfRange what) => return .error (Error.invalidRequest what)
  | .ok ranges => chunkLoop glaze params ranges []

end NceiCpp.Api
