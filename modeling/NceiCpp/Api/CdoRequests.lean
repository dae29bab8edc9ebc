import NceiCpp.Api.CdoClient
import NceiCpp.Core.RateLimit
import NceiCpp.Core.Retry

/-!
# The requests of the CDO client

Model of `CDOClient::do_get` (`src/api/cdo_client.cpp`, lines 54–69) with the limiter, the
retries and the HTTP client it uses, and of a caller who calls the request methods one
after the other.

A `World` is what the client has and has done: its limiter, how many clock readings and
requests were made, and the log of what happened. The clocks, the transport and the
retry delays are an `Env`. Waiting in `acquire` need not end, so it has a number of
turns, behind which the run is cut; a cut run is a prefix of a run.
-/

namespace NceiCpp.Api

open Interaction Exec NceiCpp.Core NceiCpp.Models

/-- What the client does: it asks for the remaining quota, tries to acquire (with the
    limiter before the attempt), sends a request, sleeps. `sys` and `now` are the readings
    of the system clock and of the steady clock. -/
inductive Event
  | quotaCheck (sys : ℤ) (remaining : ℤ)
  | tryAcquire (limiter : RateLimiter) (sys now : ℤ)
  | httpGet (path : Bytes)
  | sleep (ns : ℤ)
  deriving DecidableEq

/-- The outside: the readings of the two clocks in the order they are made, the result of
    the `n`-th request, the delays of `calculate_retry_delay` in milliseconds, and the
    turns a waiting `acquire` has. -/
structure Env where
  sys : ℕ → ℤ
  steady : ℕ → ℤ
  transport : ℕ → Bytes → Result HttpResponse
  retryDelay : UInt8 → ℤ
  turns : ℕ

structure World where
  limiter : RateLimiter
  readings : ℕ := 0
  requests : ℕ := 0
  log : List Event := []

variable (env : Env)

/-! ## The limiter -/

/-- `rate_limiter.daily_requests_remaining()`. -/
def dailyRequestsRemaining : Exec World ℤ := act fun w =>
  let sys := env.sys w.readings
  let remaining := w.limiter.dailyRequestsRemaining sys
  (remaining, { w with
    readings := w.readings + 1
    log := w.log ++ [.quotaCheck sys remaining] })

/-- `rate_limiter.try_acquire()`. -/
def tryAcquire : Exec World Bool := act fun w =>
  let sys := env.sys w.readings
  let now := env.steady (w.readings + 1)
  let result := w.limiter.tryAcquire sys now
  (result.1, { w with
    limiter := result.2
    readings := w.readings + 2
    log := w.log ++ [.tryAcquire w.limiter sys now] })

/-- `Clock::now()`. -/
def readSteady : Exec World ℤ := act fun w =>
  (env.steady w.readings, { w with readings := w.readings + 1 })

def sleepNs (ns : ℤ) : Exec World Unit := act fun w => ((), { w with log := w.log ++ [.sleep ns] })

/-- The loop of `acquire` without a `max_wait` (`rate_limit.cpp`, lines 80–85). -/
def acquireLoop : ℕ → Exec World Bool
  | 0 => cut
  | turns + 1 => do
    if ← tryAcquire env then return true
    else
      sleepNs (10 * nsPerMs)
      acquireLoop turns

/-- The loop of `acquire_for` (`rate_limit.cpp`, lines 96–107). -/
def acquireForLoop (deadline : ℤ) : ℕ → Exec World Bool
  | 0 => cut
  | turns + 1 => do
    if ← tryAcquire env then return true
    else
      let current ← readSteady env
      if current ≥ deadline then return false
      else
        sleepNs (min (deadline - current) (10 * nsPerMs))
        acquireForLoop deadline turns

def acquireFor (maxWait : ℤ) : Exec World Bool := do
  let now ← readSteady env
  acquireForLoop env (RateLimiter.deadline now maxWait) env.turns

/-- `rate_limiter.acquire()`. -/
def acquire : Exec World Bool := do
  match ← act fun w => (w.limiter.config.maxWait, w) with
  | some maxWait => acquireFor env maxWait
  | none => acquireLoop env env.turns

/-! ## Requests -/

/-- `http.get(path)`. -/
def httpGet (path : Bytes) : Exec World (Result HttpResponse) := act fun w =>
  (env.transport w.requests path, { w with
    requests := w.requests + 1
    log := w.log ++ [.httpGet path] })

/-- The operation `do_get` retries (lines 59–67). -/
def attemptGet (path : Bytes) : Exec World (Result HttpResponse) := do
  let remaining ← dailyRequestsRemaining env
  if remaining ≤ 0 then
    return .error (Error.quotaExceeded (bytes "CDO daily request quota exceeded"))
  else if !(← acquire env) then
    return .error (Error.rateLimited (bytes "Rate limit acquisition timed out"))
  else httpGet env path

/-- `CDOClient::do_get`; `initialized` says that `impl_` is not null. -/
def doGet (policy : RetryPolicy) (initialized : Bool) (path : Bytes) :
    Exec World (Result HttpResponse) :=
  if !initialized then return .error (Error.network (bytes "Client not initialized"))
  else
    withRetry (attemptGet env path) (fun attempt => sleepNs (env.retryDelay attempt * nsPerMs))
      policy

/-- A method with its requests made by `do_get`. -/
def perform {α : Type} (doGet : Bytes → Exec World (Result HttpResponse)) :
    Client α → Exec World α
  | .ret a => pure a
  | .ask path k => do
    let response ← doGet path
    perform doGet (k response)

/-! ## Calls -/

/-- The calls of the request methods of `CDOClient`. -/
inductive Call
  | single (col : Collection) (id : Bytes)
  | list (col : Collection) (params : CDOListParams)
  | data (params : GetDataParams)
  | dataAll (params : GetDataParams)

/-- The Glaze readers of the entity types, with `T` the type of all entities. -/
structure EntityReaders (T : Type) where
  single : Collection → Bytes → Except Bytes T
  list : Collection → ListReader T

variable {T : Type} (glaze : Glaze) (readers : EntityReaders T)

/-- The request method of a call, without its result. -/
def Call.method : Call → Client Unit
  | single col id => do
    let _ ← Api.getSingle glaze.generic (readers.single col) col id
    return ()
  | list col params => do
    let _ ← getList glaze.generic (readers.list col) col params
    return ()
  | data params => do
    let _ ← getData glaze params
    return ()
  | dataAll params => do
    let _ ← getDataAll glaze params
    return ()

/-- One call after the other. -/
def runCalls (policy : RetryPolicy) (initialized : Bool) : List Call → Exec World Unit
  | [] => pure ()
  | call :: calls => do
    perform (doGet env policy initialized) (call.method glaze readers)
    runCalls policy initialized calls

/-- A new client: the limiter reads the clocks for the first time. -/
def newWorld (config : RateLimiter.Config) : World where
  limiter := RateLimiter.new config (env.steady 0) (env.sys 1)
  readings := 2

end NceiCpp.Api
