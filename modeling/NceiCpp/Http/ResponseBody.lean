import NceiCpp.Http.Client

/-!
# The body of a response

What `write_callback` keeps of the deliveries of one transfer, and what `HttpClient::get`
makes of it.

* `Bounded`: the invariant that makes `limit - body.size()` exact.
* `writeCallback_accepts`, `writeCallback_refuses`: what one delivery does.
* `deliver_bodies`: what all deliveries of a transfer do.
* `get_body_complete`: the body is bounded and complete.
-/

namespace NceiCpp.Http

open NceiCpp.Core

/-! ## Deliveries -/

/-- libcurl documents a size of 1; no append runs out of memory. -/
def Delivery.Plain (d : Delivery) : Prop := d.size = 1 ∧ d.memory = true

/-- The chunks passed to `write_callback`. -/
def bodyChunks (events : List Event) : List Bytes :=
  events.filterMap fun
    | .body d => some d.data
    | .header _ => none

/-- The number of body bytes delivered. -/
def bodyTotal (events : List Event) : ℕ := (bodyChunks events).flatten.length

@[simp] theorem bodyChunks_nil : bodyChunks [] = [] := rfl

@[simp] theorem bodyChunks_body (d : Delivery) (events : List Event) :
    bodyChunks (.body d :: events) = d.data :: bodyChunks events := rfl

@[simp] theorem bodyChunks_header (d : Delivery) (events : List Event) :
    bodyChunks (.header d :: events) = bodyChunks events := rfl

@[simp] theorem bodyTotal_nil : bodyTotal [] = 0 := rfl

@[simp] theorem bodyTotal_body (d : Delivery) (events : List Event) :
    bodyTotal (.body d :: events) = d.data.length + bodyTotal events := by
  simp [bodyTotal]

@[simp] theorem bodyTotal_header (d : Delivery) (events : List Event) :
    bodyTotal (.header d :: events) = bodyTotal events := rfl

theorem bodyTotal_append (before after : List Event) :
    bodyTotal (before ++ after) = bodyTotal before + bodyTotal after := by
  simp [bodyTotal, bodyChunks]

section plain

variable {d : Delivery}

theorem Delivery.Plain.length (hd : d.Plain) : d.data.length = d.count.toNat := by
  rw [d.length_eq, hd.1]
  show 1 * d.count.toNat = _
  omega

theorem Delivery.Plain.sizeOverflows (hd : d.Plain) : sizeOverflows d.size d.count = false := by
  have hle : d.count.toNat ≤ (2 ^ 64 - 1) / 1 := by
    have := d.count.toNat_lt
    omega
  rw [Http.sizeOverflows, hd.1, Bool.and_eq_false_iff]
  exact .inr (decide_eq_false (Nat.not_lt.mpr hle))

theorem Delivery.Plain.bytes (hd : d.Plain) : d.size * d.count = d.count := by
  rw [hd.1, UInt64.one_mul]

theorem Delivery.Plain.take (hd : d.Plain) : d.data.take d.count.toNat = d.data := by
  rw [← hd.length, List.take_length]

end plain

/-! ## One delivery -/

/-- The body has not outgrown the limit. -/
def Bounded (sink : ResponseSink) : Prop :=
  sink.limit = 0 ∨ sink.response.body.length ≤ sink.limit.toNat

/-- There is room for `n` more bytes. -/
def Fits (sink : ResponseSink) (n : ℕ) : Prop :=
  sink.limit = 0 ∨ sink.response.body.length + n ≤ sink.limit.toNat

/-- The sink with a chunk behind its body. -/
def ResponseSink.append (sink : ResponseSink) (chunk : Bytes) : ResponseSink :=
  { sink with response := { sink.response with body := sink.response.body ++ chunk } }

/-- The sink with other headers. -/
def ResponseSink.withHeaders (sink : ResponseSink) (headers : List (Bytes × Bytes)) :
    ResponseSink :=
  { sink with response := { sink.response with headers := headers } }

/-- `limit - body.size()` does not underflow. -/
theorem toNat_room {sink : ResponseSink} (hsink : Bounded sink) (hlimit : sink.limit ≠ 0) :
    (sink.limit - UInt64.ofNat sink.response.body.length).toNat + sink.response.body.length =
      sink.limit.toNat := by
  have hle := hsink.resolve_left hlimit
  have hlt := sink.limit.toNat_lt
  have hbody : (UInt64.ofNat sink.response.body.length).toNat = sink.response.body.length :=
    UInt64.toNat_ofNat_of_lt' (hle.trans_lt hlt)
  rw [UInt64.toNat_sub_of_le _ _ (by rw [UInt64.le_iff_toNat_le, hbody]; exact hle), hbody]
  omega

theorem writeCallback_accepts {sink : ResponseSink} {d : Delivery} (hsink : Bounded sink)
    (hd : d.Plain) (hfits : Fits sink d.data.length) :
    writeCallback sink d = (d.count, sink.append d.data) := by
  have hroom : ¬(sink.limit > 0 ∧
      d.count > sink.limit - UInt64.ofNat sink.response.body.length) := by
    rintro ⟨hpos, hgt⟩
    have hlimit : sink.limit ≠ 0 := by
      rintro h
      rw [h] at hpos
      exact absurd hpos (by decide)
    have h1 := toNat_room hsink hlimit
    have h2 := hfits.resolve_left hlimit
    rw [gt_iff_lt, UInt64.lt_iff_toNat_lt] at hgt
    rw [hd.length] at h2
    omega
  unfold writeCallback
  rw [hd.sizeOverflows, if_neg Bool.false_ne_true]
  dsimp only
  rw [hd.bytes, if_neg hroom, if_pos hd.2, hd.take]
  rfl

theorem writeCallback_refuses {sink : ResponseSink} {d : Delivery} (hsink : Bounded sink)
    (hd : d.Plain) (hfits : ¬Fits sink d.data.length) :
    writeCallback sink d = (0, { sink with overflowed := true }) := by
  obtain ⟨hlimit, hlt⟩ : sink.limit ≠ 0 ∧
      sink.limit.toNat < sink.response.body.length + d.data.length := by
    unfold Fits at hfits
    push Not at hfits
    exact hfits
  have hroom : sink.limit > 0 ∧
      d.count > sink.limit - UInt64.ofNat sink.response.body.length := by
    have h1 := toNat_room hsink hlimit
    rw [hd.length] at hlt
    refine ⟨UInt64.pos_iff_ne_zero.mpr hlimit, ?_⟩
    rw [gt_iff_lt, UInt64.lt_iff_toNat_lt]
    omega
  unfold writeCallback
  rw [hd.sizeOverflows, if_neg Bool.false_ne_true]
  dsimp only
  rw [hd.bytes, if_pos hroom]

theorem headerCallback_plain (sink : ResponseSink) {d : Delivery} (hd : d.Plain) :
    headerCallback sink d =
      (d.count, sink.withHeaders (headersAfter sink.response.headers d.data)) := by
  unfold headerCallback
  rw [hd.sizeOverflows, if_neg Bool.false_ne_true]
  dsimp only
  rw [hd.bytes, if_pos hd.2, hd.take]
  rfl

/-! ## One transfer -/

section step

variable {sink : ResponseSink} {d : Delivery}

theorem deliver_header (sink : ResponseSink) (hd : d.Plain) (events : List Event) :
    deliver sink (.header d :: events) =
      deliver (sink.withHeaders (headersAfter sink.response.headers d.data)) events := by
  rw [deliver, callback, headerCallback_plain sink hd]
  exact if_pos hd.length.symm

theorem deliver_fits (hsink : Bounded sink) (hd : d.Plain) (hfits : Fits sink d.data.length)
    (events : List Event) :
    deliver sink (.body d :: events) = deliver (sink.append d.data) events := by
  rw [deliver, callback, writeCallback_accepts hsink hd hfits]
  exact if_pos hd.length.symm

theorem deliver_overflow (hsink : Bounded sink) (hd : d.Plain)
    (hfits : ¬Fits sink d.data.length) (events : List Event) :
    deliver sink (.body d :: events) = (false, { sink with overflowed := true }) := by
  rw [deliver, callback, writeCallback_refuses hsink hd hfits]
  apply if_neg
  intro h
  apply hfits
  have h0 : d.data.length = 0 := h.symm
  rw [h0]
  exact hsink

theorem fits_append (sink : ResponseSink) (chunk : Bytes) (n : ℕ) :
    Fits (sink.append chunk) n ↔ Fits sink (chunk.length + n) := by
  unfold Fits
  show _ ∨ (sink.response.body ++ chunk).length + n ≤ _ ↔ _
  rw [List.length_append, Nat.add_assoc]
  rfl

theorem Bounded.append {chunk : Bytes} (h : Fits sink chunk.length) :
    Bounded (sink.append chunk) :=
  (fits_append sink chunk 0).mpr h

theorem append_append (sink : ResponseSink) (a b : Bytes) :
    (sink.append a).append b = sink.append (a ++ b) := by
  simp [ResponseSink.append]

end step

/-- The deliveries of a transfer, from a sink that is in bounds: either all fit, and the body
    has grown by their chunks, or a first one does not, and the body has grown by the chunks
    before it. -/
theorem deliver_bodies {events : List Event} (hplain : ∀ e ∈ events, e.delivery.Plain) :
    ∀ sink : ResponseSink, Bounded sink →
      ∃ headers,
        (Fits sink (bodyTotal events) ∧ deliver sink events =
          (true, (sink.append (bodyChunks events).flatten).withHeaders headers)) ∨
        ∃ before d after, events = before ++ .body d :: after ∧ Fits sink (bodyTotal before) ∧
          ¬Fits sink (bodyTotal before + d.data.length) ∧
          deliver sink events = (false,
            { (sink.append (bodyChunks before).flatten).withHeaders headers with
              overflowed := true }) := by
  induction events with
  | nil =>
    intro sink hsink
    refine ⟨sink.response.headers, .inl ⟨hsink, ?_⟩⟩
    simp [deliver, ResponseSink.append, ResponseSink.withHeaders]
  | cons e events ih =>
    obtain ⟨he, hevents⟩ := List.forall_mem_cons.mp hplain
    intro sink hsink
    cases e with
    | header d =>
      have hd : d.Plain := he
      obtain ⟨headers, h⟩ := ih hevents
        (sink.withHeaders (headersAfter sink.response.headers d.data)) hsink
      refine ⟨headers, ?_⟩
      rw [deliver_header sink hd]
      rcases h with ⟨hfits, h⟩ | ⟨before, d', after, rfl, hfits, hnot, h⟩
      · exact .inl ⟨hfits, h⟩
      · exact .inr ⟨.header d :: before, d', after, rfl, hfits, hnot, h⟩
    | body d =>
      have hd : d.Plain := he
      by_cases hfits : Fits sink d.data.length
      · obtain ⟨headers, h⟩ := ih hevents (sink.append d.data) (.append hfits)
        refine ⟨headers, ?_⟩
        rw [deliver_fits hsink hd hfits]
        rcases h with ⟨htotal, h⟩ | ⟨before, d', after, rfl, hbefore, hnot, h⟩
        · rw [append_append] at h
          refine .inl ⟨?_, h⟩
          rwa [bodyTotal_body, ← fits_append]
        · rw [append_append] at h
          refine .inr ⟨.body d :: before, d', after, rfl, ?_, ?_, h⟩
          · rwa [bodyTotal_body, ← fits_append]
          · rwa [bodyTotal_body, Nat.add_assoc, ← fits_append]
      · refine ⟨sink.response.headers, .inr ⟨[], d, events, rfl, hsink, ?_, ?_⟩⟩
        · rwa [bodyTotal_nil, Nat.zero_add]
        · rw [deliver_overflow hsink hd hfits]
          simp [ResponseSink.append, ResponseSink.withHeaders]

/-! ## The response -/

theorem bounded_emptySink (config : ClientConfig) : Bounded (emptySink config) :=
  .inr (Nat.zero_le _)

/-- The sink after the first `n` calls of a transfer. -/
def sinkAfter (config : ClientConfig) (events : List Event) (n : ℕ) : ResponseSink :=
  (deliver (emptySink config) (events.take n)).2

theorem sinkAfter_limit (config : ClientConfig) {events : List Event}
    (hplain : ∀ e ∈ events, e.delivery.Plain) (n : ℕ) :
    (sinkAfter config events n).limit = config.maxResponseBytes ∧
      Bounded (sinkAfter config events n) := by
  obtain ⟨headers, ⟨hfits, h⟩ | ⟨before, d, after, -, hfits, -, h⟩⟩ :=
    deliver_bodies (fun e he => hplain e (List.mem_of_mem_take he)) _ (bounded_emptySink config)
  · rw [sinkAfter, h]
    exact ⟨rfl, Bounded.append hfits⟩
  · rw [sinkAfter, h]
    exact ⟨rfl, Bounded.append hfits⟩

theorem get_of_prepare {curl : Curl} {config : ClientConfig} {path : Bytes} {request : Request}
    (h : prepare curl config path = .ok request) :
    get curl config path = perform curl config request := by
  rw [get, h]

section perform

variable {curl : Curl} {config : ClientConfig} {request : Request} {sink : ResponseSink}

theorem perform_eq {complete : Bool}
    (h : deliver (emptySink config) (curl.transfer request).events = (complete, sink)) :
    perform curl config request =
      finish sink (if complete then (curl.transfer request).outcome else some curl.writeError)
        (curl.responseCode request) := by
  simp only [perform, h]

/-- A response has what the sink holds, and every callback took all it was given. -/
theorem perform_ok {response : HttpResponse} (h : perform curl config request = .ok response) :
    ∃ sink, deliver (emptySink config) (curl.transfer request).events = (true, sink) ∧
      response.headers = sink.response.headers := by
  rcases hdeliver : deliver (emptySink config) (curl.transfer request).events with ⟨c, sink⟩
  rw [perform_eq hdeliver] at h
  unfold finish at h
  cases c with
  | false =>
    rw [if_neg Bool.false_ne_true] at h
    split_ifs at h
  | true =>
    rw [if_pos rfl] at h
    split at h
    · cases h
    · split at h
      · cases h
      · split at h
        · cases h
        · cases h
          exact ⟨sink, rfl, rfl⟩

/-- A transfer that the limit cuts off. -/
theorem perform_overflow
    (h : deliver (emptySink config) (curl.transfer request).events = (false, sink))
    (hover : sink.overflowed = true) :
    perform curl config request = .error
      (Error.invalidRequest (bytes "Response exceeded ClientConfig::max_response_bytes")) := by
  rw [perform_eq h]
  unfold finish
  rw [if_pos hover]

/-- A transfer that the limit does not cut off: a response with what the sink holds, or an
    error of the network. -/
theorem perform_complete
    (h : deliver (emptySink config) (curl.transfer request).events = (true, sink))
    (hover : sink.overflowed = false) :
    (∃ status, perform curl config request =
        .ok { sink.response with statusCode := toInt16 status }) ∨
      ∃ text, perform curl config request = .error (Error.network text) := by
  rw [perform_eq h]
  unfold finish
  rw [hover, if_neg Bool.false_ne_true, if_pos rfl]
  cases (curl.transfer request).outcome with
  | some text => exact .inr ⟨text, rfl⟩
  | none =>
    cases curl.responseCode request with
    | none => exact .inr ⟨_, rfl⟩
    | some status => exact .inl ⟨status, rfl⟩

/-- What fits into the sink a transfer starts with. -/
theorem fits_emptySink_iff (hlimit : config.maxResponseBytes ≠ 0) (n : ℕ) :
    Fits (emptySink config) n ↔ n ≤ config.maxResponseBytes.toNat := by
  show config.maxResponseBytes = 0 ∨ 0 + n ≤ config.maxResponseBytes.toNat ↔ _
  rw [Nat.zero_add]
  exact or_iff_right hlimit

/-- A response has the whole body. -/
theorem perform_body (hplain : ∀ e ∈ (curl.transfer request).events, e.delivery.Plain)
    {response : HttpResponse} (hget : perform curl config request = .ok response) :
    response.body = (bodyChunks (curl.transfer request).events).flatten := by
  obtain ⟨headers, ⟨-, h⟩ | ⟨before, d, after, -, -, -, h⟩⟩ :=
    deliver_bodies hplain _ (bounded_emptySink config)
  · rcases perform_complete h rfl with ⟨status, hok⟩ | ⟨text, herror⟩
    · rw [hok] at hget
      cases hget
      rfl
    · rw [herror] at hget
      cases hget
  · rw [perform_overflow h rfl] at hget
    cases hget

/-- The request is refused by the first delivery that exceeds the limit. -/
theorem perform_refused_iff (hplain : ∀ e ∈ (curl.transfer request).events, e.delivery.Plain)
    (hlimit : config.maxResponseBytes ≠ 0) :
    (∃ e, perform curl config request = .error e ∧ e.code = .invalidRequest) ↔
      ∃ before d after, (curl.transfer request).events = before ++ .body d :: after ∧
        bodyTotal before ≤ config.maxResponseBytes.toNat ∧
        config.maxResponseBytes.toNat < bodyTotal before + d.data.length := by
  obtain ⟨headers, ⟨hfits, h⟩ | ⟨before, d, after, hsplit, hbefore, hnot, h⟩⟩ :=
    deliver_bodies hplain _ (bounded_emptySink config)
  · constructor
    · rintro ⟨e, hget, hcode⟩
      rcases perform_complete h rfl with ⟨status, hok⟩ | ⟨text, herror⟩
      · rw [hok] at hget
        cases hget
      · rw [herror] at hget
        cases hget
        exact absurd hcode nofun
    · rintro ⟨before, d, after, hsplit, -, hgt⟩
      have htotal := (fits_emptySink_iff hlimit _).mp hfits
      rw [hsplit, bodyTotal_append, bodyTotal_body] at htotal
      omega
  · refine iff_of_true ⟨_, perform_overflow h rfl, rfl⟩ ⟨before, d, after, hsplit, ?_, ?_⟩
    · exact (fits_emptySink_iff hlimit _).mp hbefore
    · rw [fits_emptySink_iff hlimit] at hnot
      omega

end perform

/-- **The body of a response is bounded and complete.** In every state of a transfer the body
    is within the limit, so that `limit - body.size()` is exact; a response has the whole
    body; and the request is refused exactly when the deliveries exceed a limit that is not
    zero, by the first of them that does. -/
theorem get_body_complete {curl : Curl} {config : ClientConfig} {path : Bytes}
    {request : Request} (hprepare : prepare curl config path = .ok request)
    (hplain : ∀ e ∈ (curl.transfer request).events, e.delivery.Plain) :
    (∀ n, let sink := sinkAfter config (curl.transfer request).events n
      (sink.limit = 0 ∨ sink.response.body.length ≤ sink.limit.toNat) ∧
        (sink.limit ≠ 0 →
          (sink.limit - UInt64.ofNat sink.response.body.length).toNat =
            sink.limit.toNat - sink.response.body.length)) ∧
    (∀ response, get curl config path = .ok response →
      response.body = (bodyChunks (curl.transfer request).events).flatten) ∧
    (config.maxResponseBytes ≠ 0 →
      ((∃ e, get curl config path = .error e ∧ e.code = .invalidRequest) ↔
        ∃ before d after, (curl.transfer request).events = before ++ .body d :: after ∧
          bodyTotal before ≤ config.maxResponseBytes.toNat ∧
          config.maxResponseBytes.toNat < bodyTotal before + d.data.length)) := by
  rw [get_of_prepare hprepare]
  refine ⟨fun n => ⟨(sinkAfter_limit config hplain n).2, fun hlimit => ?_⟩,
    fun response hget => perform_body hplain hget, perform_refused_iff hplain⟩
  have := toNat_room (sinkAfter_limit config hplain n).2 hlimit
  omega

/-- The request for `url` under the default configuration. -/
def defaultRequest (url : Bytes) : Request where
  url := url
  headers := [bytes "Accept: application/json"]
  timeout := 30
  userAgent := bytes "ncei-cpp/0.4.0"
  followLocation := true
  verifyPeer := 1
  verifyHost := 2

/-- Five bytes in two chunks, and a limit of four. -/
theorem get_body_complete_limit :
    let config : ClientConfig := { baseUrl := bytes "http://h", maxResponseBytes := 4 }
    let events : List Event := [.header (.ofBytes (bytes "HTTP/1.1 200 OK") (by decide)),
      .body (.ofBytes (bytes "abc") (by decide)), .body (.ofBytes (bytes "de") (by decide))]
    ∃ e, get (replay events 200) config (bytes "/") = .error e ∧ e.code = .invalidRequest := by
  intro config events
  have hplain : ∀ e ∈ events, e.delivery.Plain := by
    intro e he
    simp only [events, List.mem_cons, List.not_mem_nil, or_false] at he
    rcases he with rfl | rfl | rfl <;> exact ⟨rfl, rfl⟩
  have hprepare : prepare (replay events 200) config (bytes "/") =
      .ok (defaultRequest (bytes "http://h/")) := by rfl
  refine ((get_body_complete hprepare hplain).2.2 (by decide)).mpr ?_
  exact ⟨events.take 2, _, [], rfl, by decide, by decide⟩

end NceiCpp.Http
