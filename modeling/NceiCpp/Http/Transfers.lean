import NceiCpp.Http.ResponseBody

/-!
# Transfers that arrive

A transfer delivers its body in pieces. It may break off, exceed the limit, or end with any
status.

* `get_arrives_iff`: `HttpClient::get` gives a body with the status 200 exactly where it has
  arrived as a whole.
* `get_breaksOff`, `get_endsWithStatus`: what `HttpClient::get` makes of the other ends.
-/

namespace NceiCpp.Http

open NceiCpp.Core

/-- libcurl calls back as it documents, and no append runs out of memory. -/
def PlainTransfers (curl : Curl) : Prop :=
  ∀ request, ∀ e ∈ (curl.transfer request).events, e.delivery.Plain

/-- The transfer of `request` ends without an error and with the status 200; the pieces it
    delivers are those of `body`. -/
structure Completes (curl : Curl) (request : Request) (body : Bytes) : Prop where
  outcome : (curl.transfer request).outcome = none
  status : ∃ status, curl.responseCode request = some status ∧ toInt16 status = 200
  pieces : (bodyChunks (curl.transfer request).events).flatten = body

/-- `path` is requested, and a body within the limit completes. -/
def Arrives (curl : Curl) (config : ClientConfig) (path body : Bytes) : Prop :=
  ∃ request, prepare curl config path = .ok request ∧ Completes curl request body ∧
    Fits (emptySink config) body.length

/-- `path` is requested, and the transfer ends with an error of libcurl. -/
def BreaksOff (curl : Curl) (config : ClientConfig) (path : Bytes) : Prop :=
  ∃ request, prepare curl config path = .ok request ∧
    (∃ text, (curl.transfer request).outcome = some text) ∧
    Fits (emptySink config) (bodyTotal (curl.transfer request).events)

/-- `path` is requested, and the transfer ends with this status, whatever its body is. -/
def EndsWithStatus (curl : Curl) (config : ClientConfig) (path : Bytes) (status : ℤ) : Prop :=
  ∃ request code, prepare curl config path = .ok request ∧
    (curl.transfer request).outcome = none ∧ curl.responseCode request = some code ∧
    toInt16 code = status ∧ Fits (emptySink config) (bodyTotal (curl.transfer request).events)

variable {curl : Curl} {config : ClientConfig} {path body : Bytes} {request : Request}

theorem Fits.mono {sink : ResponseSink} {m n : ℕ} (h : Fits sink n) (hle : m ≤ n) :
    Fits sink m := by
  rcases h with hlimit | hfits
  · exact .inl hlimit
  · exact .inr (by omega)

/-- A transfer within the limit ends as libcurl says. -/
theorem perform_fits (hplain : ∀ e ∈ (curl.transfer request).events, e.delivery.Plain)
    (hfits : Fits (emptySink config) (bodyTotal (curl.transfer request).events)) :
    ∃ headers, perform curl config request =
      finish (((emptySink config).append
          (bodyChunks (curl.transfer request).events).flatten).withHeaders headers)
        (curl.transfer request).outcome (curl.responseCode request) := by
  obtain ⟨headers, ⟨-, h⟩ | ⟨before, d, after, hsplit, -, hnot, -⟩⟩ :=
    deliver_bodies hplain _ (bounded_emptySink config)
  · exact ⟨headers, perform_eq h⟩
  · refine absurd (hfits.mono ?_) hnot
    rw [hsplit, bodyTotal_append, bodyTotal_body]
    omega

/-- A response comes from a transfer that ended without an error, within the limit. -/
theorem perform_response (hplain : ∀ e ∈ (curl.transfer request).events, e.delivery.Plain)
    {response : HttpResponse} (h : perform curl config request = .ok response) :
    (curl.transfer request).outcome = none ∧
      (∃ status, curl.responseCode request = some status ∧
        response.statusCode = toInt16 status) ∧
      response.body = (bodyChunks (curl.transfer request).events).flatten ∧
      Fits (emptySink config) (bodyTotal (curl.transfer request).events) := by
  obtain ⟨headers, ⟨hfits, hdeliver⟩ | ⟨before, d, after, -, -, -, hdeliver⟩⟩ :=
    deliver_bodies hplain _ (bounded_emptySink config)
  · rw [perform_eq hdeliver, if_pos rfl] at h
    unfold finish at h
    have hover : (((emptySink config).append (bodyChunks
        (curl.transfer request).events).flatten).withHeaders headers).overflowed = false := rfl
    rw [hover, if_neg Bool.false_ne_true] at h
    cases houtcome : (curl.transfer request).outcome with
    | some text =>
      rw [houtcome] at h
      cases h
    | none =>
      rw [houtcome] at h
      cases hcode : curl.responseCode request with
      | none =>
        rw [hcode] at h
        cases h
      | some status =>
        rw [hcode] at h
        cases h
        exact ⟨rfl, ⟨status, rfl, rfl⟩, rfl, hfits⟩
  · rw [perform_overflow hdeliver rfl] at h
    cases h

/-- `get` gives a body with the status 200 exactly where it has arrived: nothing that breaks
    off, exceeds the limit or has another status is taken for it, nor a part of it. -/
theorem get_arrives_iff (hplain : PlainTransfers curl) :
    (∃ headers, get curl config path = .ok ⟨200, body, headers⟩) ↔
      Arrives curl config path body := by
  constructor
  · rintro ⟨headers, h⟩
    unfold get at h
    cases hprepare : prepare curl config path with
    | error e =>
      rw [hprepare] at h
      cases h
    | ok request =>
      rw [hprepare] at h
      obtain ⟨houtcome, ⟨status, hcode, hstatus⟩, hbody, hfits⟩ :=
        perform_response (hplain request) h
      refine ⟨request, hprepare, ⟨houtcome, ⟨status, hcode, hstatus.symm⟩, hbody.symm⟩, ?_⟩
      rw [bodyTotal, ← hbody] at hfits
      exact hfits
  · rintro ⟨request, hprepare, ⟨houtcome, ⟨status, hcode, hstatus⟩, hbody⟩, hfits⟩
    have htotal : bodyTotal (curl.transfer request).events = body.length := by
      rw [bodyTotal, hbody]
    obtain ⟨headers, hperform⟩ := perform_fits (hplain request) (htotal ▸ hfits)
    rw [get_of_prepare hprepare, hperform, houtcome, hcode, hbody]
    refine ⟨headers, ?_⟩
    rw [← hstatus]
    rfl

theorem get_breaksOff (hplain : PlainTransfers curl) (h : BreaksOff curl config path) :
    ∃ text, get curl config path = .error (Error.network text) := by
  obtain ⟨request, hprepare, ⟨text, houtcome⟩, hfits⟩ := h
  obtain ⟨headers, hperform⟩ := perform_fits (hplain request) hfits
  rw [get_of_prepare hprepare, hperform, houtcome]
  exact ⟨text, rfl⟩

theorem get_endsWithStatus (hplain : PlainTransfers curl) {status : ℤ}
    (h : EndsWithStatus curl config path status) :
    ∃ body headers, get curl config path = .ok ⟨status, body, headers⟩ := by
  obtain ⟨request, code, hprepare, houtcome, hcode, rfl, hfits⟩ := h
  obtain ⟨headers, hperform⟩ := perform_fits (hplain request) hfits
  rw [get_of_prepare hprepare, hperform, houtcome, hcode]
  exact ⟨_, _, rfl⟩

end NceiCpp.Http
