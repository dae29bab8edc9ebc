import NceiCpp.Core.Error
import NceiCpp.Lib.Trim

/-!
# The HTTP client

Model of `src/http/client.cpp` and of `ClientConfig` in `include/ncei/http_client.hpp`.

* A `std::size_t` is a `UInt64`.
* libcurl is a parameter: `Curl` says which handles, lists and options it grants, which
  deliveries one transfer consists of and how the transfer ends. `curl_easy_perform`
  stops at the first callback that does not take what it was given.
* An append that runs out of memory is a delivery without `memory`.
-/

namespace NceiCpp.Http

open NceiCpp.Core

/-! ## URLs and configuration -/

/-- `std::string_view::find`: the position of the first occurrence. -/
def find (needle : Bytes) : Bytes → Option ℕ
  | [] => if needle = [] then some 0 else none
  | c :: s => if needle.isPrefixOf (c :: s) then some 0 else (find needle s).map (· + 1)

def isLetter (c : Byte) : Bool := (c ≥ ch 'a' && c ≤ ch 'z') || (c ≥ ch 'A' && c ≤ ch 'Z')

/-- The characters of a scheme (lines 20–21). -/
def schemeChars : Bytes :=
  bytes "abcdefghijklmnopqrstuvwxyzABCDEFGHIJKLMNOPQRSTUVWXYZ0123456789+.-"

/-- `is_absolute_url` (lines 11–23). -/
def isAbsoluteUrl (value : Bytes) : Bool :=
  match find (bytes "://") value with
  | none => false
  | some position =>
    if position = 0 then false
    else if !(value.head?.any isLetter) then false
    else (value.take position).all fun c => c ∈ schemeChars

/-- `invalid_header` (lines 100–102). -/
def invalidHeader (value : Bytes) : Bool := value.any fun c => c ∈ [ch '\r', ch '\n', 0]

structure ClientConfig where
  baseUrl : Bytes
  userAgent : Bytes := bytes "ncei-cpp/0.4.0"
  accept : Bytes := bytes "application/json"
  timeout : ℤ := 30
  verifySsl : Bool := true
  extraHeaders : List (Bytes × Bytes) := []
  maxResponseBytes : UInt64 := 64 * 1024 * 1024
  deriving DecidableEq

/-! ## Callbacks -/

/-- What libcurl passes to a callback: `size * count` bytes. -/
structure Delivery where
  size : UInt64
  count : UInt64
  data : Bytes
  length_eq : data.length = size.toNat * count.toNat
  memory : Bool := true

/-- `ResponseSink` (lines 46–50). -/
structure ResponseSink where
  response : HttpResponse := { statusCode := 0, body := [] }
  limit : UInt64
  overflowed : Bool := false
  deriving DecidableEq

/-- `count > std::numeric_limits<std::size_t>::max() / size`. -/
def sizeOverflows (size count : UInt64) : Bool :=
  size ≠ 0 && count > UInt64.ofNat (2 ^ 64 - 1) / size

/-- `write_callback` (lines 53–70): the returned count and the new sink. -/
def writeCallback (sink : ResponseSink) (d : Delivery) : UInt64 × ResponseSink :=
  if sizeOverflows d.size d.count then (0, sink)
  else
    let bytes := d.size * d.count
    if sink.limit > 0 ∧ bytes > sink.limit - UInt64.ofNat sink.response.body.length then
      (0, { sink with overflowed := true })
    else if d.memory then
      let body := sink.response.body ++ d.data.take bytes.toNat
      (bytes, { sink with response := { sink.response with body := body } })
    else (0, sink)

def isBlank (c : Byte) : Bool := c ∈ [ch ' ', ch '\t', ch '\r', ch '\n']

/-- The value of a header line: what is behind the colon, without the blanks around it
    (lines 85–90). -/
def headerValue (raw : Bytes) : Bytes := Trim.trim isBlank raw

/-- The headers after one line (lines 80–92). -/
def headersAfter (headers : List (Bytes × Bytes)) (line : Bytes) : List (Bytes × Bytes) :=
  let headers := if (bytes "HTTP/").isPrefixOf line then [] else headers
  if ch ':' ∈ line then
    let raw := (line.dropWhile (· ≠ ch ':')).tail
    headers ++ [(line.takeWhile (· ≠ ch ':'), headerValue raw)]
  else headers

/-- `header_callback` (lines 72–98). -/
def headerCallback (sink : ResponseSink) (d : Delivery) : UInt64 × ResponseSink :=
  if sizeOverflows d.size d.count then (0, sink)
  else
    let bytes := d.size * d.count
    if d.memory then
      let headers := headersAfter sink.response.headers (d.data.take bytes.toNat)
      (bytes, { sink with response := { sink.response with headers := headers } })
    else (0, sink)

/-! ## libcurl -/

/-- The calls of one transfer, in order. -/
inductive Event
  | header (d : Delivery)
  | body (d : Delivery)

def Event.delivery : Event → Delivery
  | .header d => d
  | .body d => d

def callback (sink : ResponseSink) : Event → UInt64 × ResponseSink
  | .header d => headerCallback sink d
  | .body d => writeCallback sink d

/-- The callbacks of a transfer: whether each took all it was given, and the sink. -/
def deliver (sink : ResponseSink) : List Event → Bool × ResponseSink
  | [] => (true, sink)
  | e :: events =>
    let (taken, sink') := callback sink e
    if taken.toNat = e.delivery.data.length then deliver sink' events else (false, sink')

/-- The options of a request (lines 163–179). -/
structure Request where
  url : Bytes
  headers : List Bytes
  timeout : ℤ
  userAgent : Bytes
  followLocation : Bool
  verifyPeer : ℤ
  verifyHost : ℤ
  protocols : Bytes := bytes "http,https"
  redirectProtocols : Bytes := bytes "http,https"
  acceptEncoding : Bytes := []
  maxRedirects : ℤ := 10
  noSignal : ℤ := 1
  deriving DecidableEq

/-- `outcome` is the text of the error the transfer ends with when every callback took what
    it was given. -/
structure Transfer where
  events : List Event
  outcome : Option Bytes

/-- What libcurl does. -/
structure Curl where
  ready : Bool
  append : List Bytes → Bytes → Option (List Bytes)
  accepts : Request → Bool
  transfer : Request → Transfer
  writeError : Bytes
  responseCode : Request → Option ℤ

/-- A delivery of `data` as libcurl documents it. -/
def Delivery.ofBytes (data : Bytes) (h : data.length < 2 ^ 64) : Delivery where
  size := 1
  count := UInt64.ofNat data.length
  data := data
  length_eq := by
    rw [UInt64.toNat_ofNat_of_lt' h]
    show _ = 1 * _
    omega

/-- A libcurl that grants everything and answers every request with the same deliveries. -/
def replay (events : List Event) (status : ℤ) : Curl where
  ready := true
  append := fun headers header => some (headers ++ [header])
  accepts := fun _ => true
  transfer := fun _ => { events := events, outcome := none }
  writeError := bytes "Failed writing received data to disk/application"
  responseCode := fun _ => some status

/-! ## Requests -/

/-- The loop over `extra_headers` (lines 143–154). -/
def appendHeaders (curl : Curl) (headers : List Bytes) : List (Bytes × Bytes) →
    Result (List Bytes)
  | [] => .ok headers
  | (key, value) :: rest =>
    if key = [] ∨ ch ':' ∈ key ∨ invalidHeader key ∨ invalidHeader value then
      .error (Error.invalidRequest (bytes "Invalid request header"))
    else
      match curl.append headers (key ++ bytes ": " ++ value) with
      | none => .error (Error.network (bytes "Could not allocate request headers"))
      | some appended => appendHeaders curl appended rest

/-- `static_cast<long>(std::min(config.timeout.count(), …))` (lines 158–160). -/
def curlTimeout (timeout : ℤ) : ℤ := min timeout (2 ^ 63 - 1)

/-- The URL of a request (lines 130–131). -/
def requestUrl (config : ClientConfig) (path : Bytes) : Bytes :=
  if !isAbsoluteUrl path then config.baseUrl ++ path else path

/-- `HttpClient::get` up to the transfer (lines 126–182). -/
def prepare (curl : Curl) (config : ClientConfig) (path : Bytes) : Result Request :=
  if !curl.ready then .error (Error.network (bytes "CURL not initialized"))
  else
    let url := requestUrl config path
    if 0 ∈ url ∨ invalidHeader config.userAgent ∨ invalidHeader config.accept ∨
        config.timeout < 0 then
      .error (Error.invalidRequest (bytes "Invalid URL, header, or timeout"))
    else
      match curl.append [] (bytes "Accept: " ++ config.accept) with
      | none => .error (Error.network (bytes "Could not allocate HTTP headers"))
      | some headers =>
        match appendHeaders curl headers config.extraHeaders with
        | .error e => .error e
        | .ok headers =>
          let verify := if config.verifySsl then 1 else 0
          let request : Request :=
            { url := url
              headers := headers
              timeout := curlTimeout config.timeout
              userAgent := config.userAgent
              followLocation := config.extraHeaders.isEmpty
              verifyPeer := verify
              verifyHost := verify * 2 }
          if curl.accepts request then .ok request
          else .error (Error.network (bytes "libcurl rejected a required option"))

/-- `static_cast<std::int16_t>(status)`. -/
def toInt16 (status : ℤ) : ℤ := Int.bmod status (2 ^ 16)

/-- `HttpClient::get` behind the transfer (lines 183–196). `result` is the text of libcurl's
    error, if it failed. -/
def finish (sink : ResponseSink) (result : Option Bytes) (responseCode : Option ℤ) :
    Result HttpResponse :=
  if sink.overflowed then
    .error (Error.invalidRequest (bytes "Response exceeded ClientConfig::max_response_bytes"))
  else
    match result with
    | some text => .error (Error.network text)
    | none =>
      match responseCode with
      | none => .error (Error.network (bytes "libcurl did not return HTTP status"))
      | some status => .ok { sink.response with statusCode := toInt16 status }

/-- The sink a transfer starts with (line 155). -/
def emptySink (config : ClientConfig) : ResponseSink := { limit := config.maxResponseBytes }

/-- `curl_easy_perform` and the rest of `HttpClient::get`. -/
def perform (curl : Curl) (config : ClientConfig) (request : Request) : Result HttpResponse :=
  let transfer := curl.transfer request
  let (complete, sink) := deliver (emptySink config) transfer.events
  finish sink (if complete then transfer.outcome else some curl.writeError)
    (curl.responseCode request)

/-- `HttpClient::get` (lines 125–197). -/
def get (curl : Curl) (config : ClientConfig) (path : Bytes) : Result HttpResponse :=
  match prepare curl config path with
  | .error e => .error e
  | .ok request => perform curl config request

end NceiCpp.Http
