import NceiCpp.Common.Json

/-!
# Errors and responses

Model of `include/ncei/error.hpp`, `src/core/error.cpp` and the `HttpResponse` of
`include/ncei/http_client.hpp`. `Result α` is
`std::expected<T, Error>`; `read` stands for `glz::read<kReadOpts>` on a
`glz::generic`, `none` when Glaze reports an error.
-/

namespace NceiCpp.Core

inductive ErrorCode
  | ok
  | networkError
  | rateLimited
  | quotaExceeded
  | serverError
  | notFound
  | invalidRequest
  | parseError
  | cacheError
  | unknown
  deriving DecidableEq, Repr

structure Error where
  code : ErrorCode
  message : Bytes
  httpStatus : ℤ := 0
  correlationId : Bytes := []
  detail : Bytes := []
  deriving DecidableEq, Repr

abbrev Result (α : Type) := Except Error α

structure HttpResponse where
  statusCode : ℤ
  body : Bytes
  headers : List (Bytes × Bytes) := []
  deriving DecidableEq

namespace Error

def network (msg : Bytes) : Error := { code := .networkError, message := msg }

def parse (msg : Bytes) : Error := { code := .parseError, message := msg }

def rateLimited (msg : Bytes) : Error := { code := .rateLimited, message := msg }

def quotaExceeded (msg : Bytes) : Error := { code := .quotaExceeded, message := msg }

def invalidRequest (msg : Bytes) : Error := { code := .invalidRequest, message := msg }

end Error

/-- `extract_string_into` (lines 31–38): the string to store, if there is one. -/
def extractString (obj : List (Bytes × Json)) (key : Bytes) : Option Bytes :=
  (findMember obj key).bind Json.getString?

/-- The strings of the `errors` array joined by `"; "` (lines 56–66). -/
def joinDetails (arr : List Json) : Bytes :=
  arr.foldl (fun details e =>
    match e.getString? with
    | none => details
    | some s => (if details.isEmpty then details else details ++ bytes "; ") ++ s) []

/-- `populate_message_from_generic` (lines 40–77). -/
def populateMessageFromGeneric (root : Json) (err : Error) : Error :=
  match root.getObject? with
  | none => err
  | some obj =>
    match (findMember obj (bytes "status")).bind fun _ => extractString obj (bytes "message") with
    | some message => { err with message := message }
    | none =>
      match extractString obj (bytes "errorMessage") with
      | some message =>
        match (findMember obj (bytes "errors")).bind Json.getArray? with
        | some arr => { err with message := message, detail := joinDetails arr }
        | none => { err with message := message }
      | none =>
        { err with
          message := (extractString obj (bytes "title")).getD err.message
          detail := (extractString obj (bytes "detail")).getD err.detail
          correlationId :=
            if err.correlationId.isEmpty then
              (extractString obj (bytes "correlationId")).getD err.correlationId
            else err.correlationId }

/-- `Error::from_response` (lines 81–112). -/
def Error.fromResponse (read : Bytes → Option Json) (status : ℤ) (body : Bytes)
    (correlationId : Bytes := []) : Error :=
  let code :=
    if status = 404 then ErrorCode.notFound
    else if status = 400 then ErrorCode.invalidRequest
    else if status = 429 then ErrorCode.rateLimited
    else if status ≥ 500 then ErrorCode.serverError
    else ErrorCode.unknown
  let err : Error :=
    { code := code, message := [], httpStatus := status, correlationId := correlationId }
  let err :=
    match read body with
    | some root => populateMessageFromGeneric root err
    | none => { err with message := body.take 256 }
  if err.message.isEmpty then { err with message := bytes "HTTP " ++ formatInt status } else err

/-- Every error of an HTTP response carries its status and a message. -/
theorem Error.fromResponse_httpStatus (read : Bytes → Option Json) (status : ℤ)
    (body correlationId : Bytes) :
    (Error.fromResponse read status body correlationId).httpStatus = status ∧
      (Error.fromResponse read status body correlationId).message ≠ [] := by
  have hpop : ∀ root err, (populateMessageFromGeneric root err).httpStatus = err.httpStatus := by
    intro root err
    unfold populateMessageFromGeneric
    repeat' split
    all_goals rfl
  unfold Error.fromResponse
  dsimp only
  generalize hcode : (if status = 404 then ErrorCode.notFound else _) = code
  constructor
  · split_ifs <;> split <;> simp [hpop]
  · split_ifs with h
    · simp [bytes]
    · simpa using h

end NceiCpp.Core
