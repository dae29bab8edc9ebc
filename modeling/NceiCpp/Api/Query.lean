import NceiCpp.Api.Url

/-!
# The request paths

Models of `CDOClient::build_list_query` and `CDOClient::build_data_query`
(`src/api/cdo_client.cpp`) and of `DataServiceClient::build_data_query`
(`src/api/data_service_client.cpp`), with the parameter structures of the two client
headers. A `std::format` of a literal and a value is the concatenation of both.
-/

namespace NceiCpp.Api

/-- The collections of the CDO API, with the path each endpoint method passes. -/
inductive Collection
  | datasets
  | dataCategories
  | dataTypes
  | locationCategories
  | locations
  | stations
  deriving DecidableEq, Repr

def Collection.path : Collection → Bytes
  | datasets => bytes "/datasets"
  | dataCategories => bytes "/datacategories"
  | dataTypes => bytes "/datatypes"
  | locationCategories => bytes "/locationcategories"
  | locations => bytes "/locations"
  | stations => bytes "/stations"

structure CDOListParams where
  datasetId : Option Bytes := none
  locationId : Option Bytes := none
  stationId : Option Bytes := none
  dataTypeId : Option Bytes := none
  dataCategoryId : Option Bytes := none
  locationCategoryId : Option Bytes := none
  startDate : Option Bytes := none
  endDate : Option Bytes := none
  sortField : Option Bytes := none
  sortOrder : Option Bytes := none
  limit : Option Int32 := none
  offset : Option Int32 := none
  deriving DecidableEq

structure GetDataParams where
  datasetId : Bytes
  startDate : Bytes
  endDate : Bytes
  dataTypeIds : Option (List Bytes) := none
  locationId : Option Bytes := none
  stationId : Option Bytes := none
  sortField : Option Bytes := none
  sortOrder : Option Bytes := none
  limit : Option Int32 := none
  offset : Option Int32 := none
  units : Option Bytes := none
  includeMetadata : Option Bool := none
  deriving DecidableEq

inductive ResponseFormat
  | csv
  | json
  | ssv
  | pdf
  | netCDF
  deriving DecidableEq, Repr

/-- `to_string(ResponseFormat)` (`include/ncei/format.hpp`). -/
def ResponseFormat.toText : ResponseFormat → Bytes
  | csv => bytes "csv"
  | json => bytes "json"
  | ssv => bytes "ssv"
  | pdf => bytes "pdf"
  | netCDF => bytes "netcdf"

structure DataRequestParams where
  dataset : Bytes
  startDate : Option Bytes := none
  endDate : Option Bytes := none
  stations : Option (List Bytes) := none
  dataTypes : Option (List Bytes) := none
  format : Option ResponseFormat := none
  units : Option Bytes := none
  bbox : Option Bytes := none
  includeAttributes : Option Bool := none
  includeStationName : Option Bool := none
  includeStationLocation : Option Bool := none
  deriving DecidableEq

/-! ## The builders -/

/-- The locals `url` and `sep` of `build_list_query`. -/
structure ListUrl where
  url : Bytes
  sep : Byte

/-- The lambda `append` of `build_list_query` (lines 77–80), on the formatted value. -/
def ListUrl.append (key : String) (value : Bytes) (st : ListUrl) : ListUrl :=
  ⟨st.url ++ st.sep :: (bytes key ++ ch '=' :: encode value), ch '&'⟩

/-- `if (params.x) append(key, *params.x);` -/
def ListUrl.appendIf (key : String) (value : Option Bytes) (st : ListUrl) : ListUrl :=
  match value with
  | some x => st.append key x
  | none => st

/-- `CDOClient::build_list_query` (lines 71–108). -/
def buildListQuery (base : Bytes) (params : CDOListParams) : Bytes :=
  let st : ListUrl := ⟨base, ch '?'⟩
  let st := st.appendIf "datasetid" params.datasetId
  let st := st.appendIf "locationid" params.locationId
  let st := st.appendIf "stationid" params.stationId
  let st := st.appendIf "datatypeid" params.dataTypeId
  let st := st.appendIf "datacategoryid" params.dataCategoryId
  let st := st.appendIf "locationcategoryid" params.locationCategoryId
  let st := st.appendIf "startdate" params.startDate
  let st := st.appendIf "enddate" params.endDate
  let st := st.appendIf "sortfield" params.sortField
  let st := st.appendIf "sortorder" params.sortOrder
  let st := st.appendIf "limit" (params.limit.map fun n => formatInt n.toInt)
  let st := st.appendIf "offset" (params.offset.map fun n => formatInt n.toInt)
  st.url

/-- `std::format_to(out, "&key={}", value)`. -/
def keyValue (key : String) (value : Bytes) : Bytes :=
  ch '&' :: (bytes key ++ ch '=' :: value)

/-- `if (params.x) std::format_to(out, "&key={}", …);` -/
def keyValueIf (key : String) (value : Option Bytes) : Bytes :=
  match value with
  | some x => keyValue key x
  | none => []

/-- `b ? "true" : "false"`. -/
def boolText (b : Bool) : Bytes := if b then bytes "true" else bytes "false"

/-- `CDOClient::build_data_query` (lines 110–140). -/
def buildDataQuery (params : GetDataParams) : Bytes :=
  let url := bytes "/data?datasetid=" ++ encode params.datasetId ++
    (bytes "&startdate=" ++ encode params.startDate) ++
    (bytes "&enddate=" ++ encode params.endDate)
  let url := url ++
    (params.dataTypeIds.getD []).flatMap fun dt => keyValue "datatypeid" (encode dt)
  let url := url ++ keyValueIf "locationid" (params.locationId.map encode)
  let url := url ++ keyValueIf "stationid" (params.stationId.map encode)
  let url := url ++ keyValueIf "sortfield" (params.sortField.map encode)
  let url := url ++ keyValueIf "sortorder" (params.sortOrder.map encode)
  let url := url ++ keyValueIf "limit" (params.limit.map fun n => formatInt n.toInt)
  let url := url ++ keyValueIf "offset" (params.offset.map fun n => formatInt n.toInt)
  let url := url ++ keyValueIf "units" (params.units.map encode)
  url ++ keyValueIf "includemetadata" (params.includeMetadata.map boolText)

/-- The loop over a list field of `DataServiceClient::build_data_query` (lines 67–72 and
    74–79): `&key=` before the first element, a comma before each other one. -/
def commaList (key : String) : (first : Bool) → List Bytes → Bytes
  | _, [] => []
  | first, x :: xs =>
    (if first then ch '&' :: (bytes key ++ [ch '=']) else [ch ',']) ++ encode x ++
      commaList key false xs

/-- `DataServiceClient::build_data_query` (lines 56–100). -/
def buildServiceQuery (params : DataRequestParams) : Bytes :=
  let url := bytes "/data/v1?dataset=" ++ encode params.dataset
  let url := url ++ keyValueIf "startDate" (params.startDate.map encode)
  let url := url ++ keyValueIf "endDate" (params.endDate.map encode)
  let url := url ++ commaList "stations" true (params.stations.getD [])
  let url := url ++ commaList "dataTypes" true (params.dataTypes.getD [])
  let url := url ++ keyValueIf "format" (params.format.map ResponseFormat.toText)
  let url := url ++ keyValueIf "units" (params.units.map encode)
  let url := url ++ keyValueIf "boundingBox" (params.bbox.map encode)
  let url := url ++ keyValueIf "includeAttributes" (params.includeAttributes.map boolText)
  let url := url ++ keyValueIf "includeStationName" (params.includeStationName.map boolText)
  url ++ keyValueIf "includeStationLocation" (params.includeStationLocation.map boolText)

end NceiCpp.Api
