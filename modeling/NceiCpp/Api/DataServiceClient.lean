import NceiCpp.Api.CdoClient
import NceiCpp.Models.DataPoint

/-!
# The Data Service client

Model of the request methods of `DataServiceClient` (`src/api/data_service_client.cpp`), as
programs that ask for paths. The type of the dataset metadata and its Glaze reader are
parameters.
-/

namespace NceiCpp.Api.DataService

open Interaction NceiCpp.Core NceiCpp.Models

/-- The generic value Glaze reads, if it reads one. -/
def generic (glaze : GlazeGeneric) (body : Bytes) : Option Json := (glaze.read body).toOption

/-- The `switch` of `get_data` (lines 112–132). -/
def parseData (glaze : GlazeGeneric) (format : ResponseFormat) (response : HttpResponse) :
    Result DataPointCollection :=
  match format with
  | .csv => .ok (parseCsvData response.body)
  | .json =>
    match deserializeDataPointCollection glaze response.body {} with
    | (.error e, _) => .error e
    | (.ok _, dpc) => .ok dpc
  | .ssv => .ok (parseSsvData response.body)
  | .pdf | .netCDF =>
    .error (Error.invalidRequest (bytes
      "PDF/NetCDF formats cannot be parsed as DataPointCollection; use get_data_raw() instead"))

/-- `DataServiceClient::get_data` (lines 102–135). -/
def getData (glaze : GlazeGeneric) (params : DataRequestParams) :
    Client (Result DataPointCollection) := do
  let query := buildServiceQuery params
  let response ← Program.perform query
  return finish (generic glaze) (parseData glaze (params.format.getD .csv)) response

/-- `DataServiceClient::get_data_raw` (lines 137–147). -/
def getDataRaw (glaze : GlazeGeneric) (params : DataRequestParams) : Client (Result Bytes) := do
  let query := buildServiceQuery params
  let response ← Program.perform query
  return finish (generic glaze) (fun response => .ok response.body) response

/-- `DataServiceClient::get_dataset_metadata` (lines 149–165). -/
def getDatasetMetadata {M : Type} (glaze : GlazeGeneric) (read : Bytes → Except Bytes M)
    (datasetId : Bytes) : Client (Result M) := do
  let path := bytes "/support/v3/datasets/" ++ encode datasetId ++ bytes ".json"
  let response ← Program.perform path
  return finish (generic glaze) (parseSingleResponse read) response

/-- The calls of the request methods. -/
inductive Call
  | data (params : DataRequestParams)
  | dataRaw (params : DataRequestParams)
  | metadata (datasetId : Bytes)

/-- The request method of a call, without its result. -/
def Call.method {M : Type} (glaze : GlazeGeneric) (read : Bytes → Except Bytes M) :
    Call → Client Unit
  | data params => do
    let _ ← getData glaze params
    return ()
  | dataRaw params => do
    let _ ← getDataRaw glaze params
    return ()
  | metadata datasetId => do
    let _ ← getDatasetMetadata glaze read datasetId
    return ()

end NceiCpp.Api.DataService
