import NceiCpp.Http.ResponseBody

/-!
# The headers of a response

What `header_callback` keeps of the header lines of one transfer. A transfer with
redirects, interim or proxy responses has several blocks of them.

* `headersAfter_status`, `headersAfter_field`, `headersAfter_blank`: what a line of each kind
  does.
* `foldl_blocks`: what all blocks of a transfer leave.
* `headers_final_block_iff`: the reported headers are those of the last block exactly when
  its reason phrase has no colon.
-/

namespace NceiCpp.Http

open NceiCpp.Core

/-! ## Header lines -/

/-- The characters of a field name. -/
def isTokenChar (c : Byte) : Bool := isLetter c || isDigit c || c ∈ bytes "!#$%&'*+-.^_`|~"

/-- `HTTP/version code reason`. -/
structure StatusLine where
  version : Bytes
  code : Bytes
  reason : Bytes
  version_chars : ∀ c ∈ version, isDigit c = true ∨ c = ch '.'
  code_chars : ∀ c ∈ code, isDigit c = true

/-- `name: value`, with any blanks around the value. -/
structure FieldLine where
  name : Bytes
  lead : Bytes
  value : Bytes
  trail : Bytes
  name_chars : ∀ c ∈ name, isTokenChar c = true
  lead_blank : ∀ c ∈ lead, isBlank c = true
  value_bare : Trim.Bare isBlank value
  trail_blank : ∀ c ∈ trail, isBlank c = true

def StatusLine.text (l : StatusLine) : Bytes :=
  bytes "HTTP/" ++ l.version ++ ch ' ' :: l.code ++ ch ' ' :: l.reason

def FieldLine.text (l : FieldLine) : Bytes := l.name ++ ch ':' :: (l.lead ++ l.value ++ l.trail)

/-- The header lines of one response; every line ends with `eol`. -/
structure Block where
  status : StatusLine
  fields : List FieldLine
  eol : Bytes
  eol_chars : eol = [ch '\r', ch '\n'] ∨ eol = [ch '\n']

def Block.lines (b : Block) : List Bytes :=
  (b.status.text ++ b.eol) :: (b.fields.map (fun l => l.text ++ b.eol) ++ [b.eol])

/-- The names and values of the field lines. -/
def Block.reported (b : Block) : List (Bytes × Bytes) := b.fields.map fun l => (l.name, l.value)

/-- What `header_callback` makes of a status line whose reason phrase has a colon. -/
def statusEntry (line : Bytes) : Bytes × Bytes :=
  (line.takeWhile (· ≠ ch ':'), headerValue (line.dropWhile (· ≠ ch ':')).tail)

/-! ## One line -/

theorem Block.eol_blank (b : Block) : ∀ c ∈ b.eol, isBlank c = true := by
  rcases b.eol_chars with h | h <;> simp [h, isBlank]

theorem not_mem_eol (b : Block) : ch ':' ∉ b.eol := by
  intro h
  have := b.eol_blank _ h
  revert this
  decide

theorem colon_mem_status (b : Block) :
    ch ':' ∈ b.status.text ++ b.eol ↔ ch ':' ∈ b.status.reason := by
  have hversion : ch ':' ∉ b.status.version := by
    intro h
    have := b.status.version_chars _ h
    revert this
    decide
  have hcode : ch ':' ∉ b.status.code := by
    intro h
    have := b.status.code_chars _ h
    revert this
    decide
  have hhttp : ch ':' ∉ bytes "HTTP/" := by decide
  have hspace : ch ':' ≠ ch ' ' := by decide
  simp only [StatusLine.text, List.mem_append, List.mem_cons, hhttp, hversion, hcode, hspace,
    not_mem_eol b, false_or, or_false]

theorem headersAfter_status (headers : List (Bytes × Bytes)) (b : Block) :
    headersAfter headers (b.status.text ++ b.eol) =
      if ch ':' ∈ b.status.reason then [statusEntry (b.status.text ++ b.eol)] else [] := by
  have hhttp : (bytes "HTTP/").isPrefixOf (b.status.text ++ b.eol) = true := by
    rw [List.isPrefixOf_iff_prefix]
    simp only [StatusLine.text, List.append_assoc]
    exact List.prefix_append _ _
  unfold headersAfter
  simp only [hhttp, if_true, colon_mem_status b, List.nil_append]
  rfl

/-- No field name starts as a status line does. -/
theorem not_status_field (l : FieldLine) (rest : Bytes) :
    (bytes "HTTP/").isPrefixOf (l.text ++ rest) = false := by
  rw [Bool.eq_false_iff, Ne, List.isPrefixOf_iff_prefix]
  rintro ⟨t, ht⟩
  -- the slash would have to be in the name, or the name would be shorter and end at a colon
  have hcolon : ch ':' ∉ bytes "HTTP/" := by decide
  have htext : l.text ++ rest = l.name ++ ch ':' :: (l.lead ++ l.value ++ l.trail ++ rest) := by
    simp [FieldLine.text]
  rw [htext] at ht
  rcases List.append_eq_append_iff.mp ht.symm with ⟨u, hu, hrest⟩ | ⟨u, hu, -⟩
  · cases u with
    | nil =>
      rw [List.append_nil] at hu
      have := l.name_chars (ch '/') (by rw [← hu]; decide)
      revert this
      decide
    | cons c u =>
      obtain ⟨rfl, -⟩ := List.cons.inj hrest
      apply hcolon
      rw [hu]
      exact List.mem_append_right _ List.mem_cons_self
  · have := l.name_chars (ch '/') (by rw [hu]; exact List.mem_append_left _ (by decide))
    revert this
    decide

theorem headersAfter_field (headers : List (Bytes × Bytes)) (b : Block) (l : FieldLine) :
    headersAfter headers (l.text ++ b.eol) = headers ++ [(l.name, l.value)] := by
  have hname : ∀ c ∈ l.name, decide (c ≠ ch ':') = true := by
    intro c hc
    have h := l.name_chars c hc
    rw [decide_eq_true_eq]
    rintro rfl
    revert h
    decide
  have htext : l.text ++ b.eol = l.name ++ ch ':' :: (l.lead ++ l.value ++ (l.trail ++ b.eol)) := by
    simp [FieldLine.text]
  have htrail : ∀ c ∈ l.trail ++ b.eol, isBlank c = true := by
    intro c hc
    rcases List.mem_append.mp hc with hc | hc
    · exact l.trail_blank c hc
    · exact b.eol_blank c hc
  have hmem : ch ':' ∈ l.text ++ b.eol := by
    rw [htext]
    exact List.mem_append_right _ List.mem_cons_self
  have htake : (l.text ++ b.eol).takeWhile (· ≠ ch ':') = l.name := by
    rw [htext, List.takeWhile_append_of_pos hname, List.takeWhile_cons_of_neg (by simp),
      List.append_nil]
  have hdrop : (l.text ++ b.eol).dropWhile (· ≠ ch ':') =
      ch ':' :: (l.lead ++ l.value ++ (l.trail ++ b.eol)) := by
    rw [htext, List.dropWhile_append_of_pos hname, List.dropWhile_cons_of_neg (by simp)]
  unfold headersAfter
  rw [not_status_field, if_neg Bool.false_ne_true]
  dsimp only
  rw [if_pos hmem, htake, hdrop, List.tail_cons, headerValue,
    Trim.trim_append l.lead_blank l.value_bare htrail]

theorem headersAfter_blank (headers : List (Bytes × Bytes)) (b : Block) :
    headersAfter headers b.eol = headers := by
  have hhttp : (bytes "HTTP/").isPrefixOf b.eol = false := by
    rcases b.eol_chars with h | h <;> rw [h] <;> decide
  unfold headersAfter
  rw [hhttp, if_neg Bool.false_ne_true]
  exact if_neg (not_mem_eol b)

/-! ## All lines -/

/-- What the status line of a block leaves in the headers. -/
def statusEntries (b : Block) : List (Bytes × Bytes) :=
  if ch ':' ∈ b.status.reason then [statusEntry (b.status.text ++ b.eol)] else []

theorem foldl_fields (b : Block) (fields : List FieldLine) :
    ∀ headers, (fields.map fun l => l.text ++ b.eol).foldl headersAfter headers =
      headers ++ fields.map fun l => (l.name, l.value) := by
  induction fields with
  | nil =>
    intro headers
    simp
  | cons l fields ih =>
    intro headers
    rw [List.map_cons, List.foldl_cons, headersAfter_field, ih]
    simp

theorem foldl_block (headers : List (Bytes × Bytes)) (b : Block) :
    b.lines.foldl headersAfter headers = statusEntries b ++ b.reported := by
  rw [Block.lines, List.foldl_cons, headersAfter_status, List.foldl_append, foldl_fields,
    List.foldl_cons, headersAfter_blank, List.foldl_nil]
  rfl

/-- Only the last block counts: its status line clears what the others left. -/
theorem foldl_blocks (headers : List (Bytes × Bytes)) (blocks : List Block) (last : Block) :
    ((blocks ++ [last]).flatMap Block.lines).foldl headersAfter headers =
      statusEntries last ++ last.reported := by
  rw [List.flatMap_append, List.foldl_append, List.flatMap_singleton, foldl_block]

/-! ## One transfer -/

/-- The lines passed to `header_callback`. -/
def headerLines (events : List Event) : List Bytes :=
  events.filterMap fun
    | .header d => some d.data
    | .body _ => none

theorem writeCallback_headers (sink : ResponseSink) (d : Delivery) :
    (writeCallback sink d).2.response.headers = sink.response.headers := by
  unfold writeCallback
  dsimp only
  split_ifs <;> rfl

/-- A transfer that runs to its end goes on behind every call. -/
theorem deliver_rest {sink sink' : ResponseSink} {e : Event} {events : List Event}
    (h : deliver sink (e :: events) = (true, sink')) :
    deliver (callback sink e).2 events = (true, sink') := by
  by_cases htaken : (callback sink e).1.toNat = e.delivery.data.length
  · simpa only [deliver, htaken, if_true] using h
  · simp [deliver, htaken] at h

theorem deliver_headers {events : List Event} (hplain : ∀ e ∈ events, e.delivery.Plain) :
    ∀ {sink sink' : ResponseSink}, deliver sink events = (true, sink') →
      sink'.response.headers = (headerLines events).foldl headersAfter sink.response.headers := by
  induction events with
  | nil =>
    rintro sink sink' ⟨⟩
    rfl
  | cons e events ih =>
    obtain ⟨he, hevents⟩ := List.forall_mem_cons.mp hplain
    intro sink sink' h
    cases e with
    | header d =>
      have hd : d.Plain := he
      rw [deliver_header sink hd] at h
      exact ih hevents h
    | body d =>
      rw [ih hevents (deliver_rest h), callback, writeCallback_headers]
      rfl

/-- **The final headers.** The headers of a response are the fields of the last block
    exactly when the reason phrase of that block has no colon: a status line with a colon
    is kept as if it were a field. -/
theorem headers_final_block_iff {curl : Curl} {config : ClientConfig} {path : Bytes}
    {request : Request} (hprepare : prepare curl config path = .ok request)
    (hplain : ∀ e ∈ (curl.transfer request).events, e.delivery.Plain)
    {blocks : List Block} {last : Block}
    (hlines : headerLines (curl.transfer request).events =
      (blocks ++ [last]).flatMap Block.lines)
    {response : HttpResponse} (hget : get curl config path = .ok response) :
    response.headers = last.reported ↔ ch ':' ∉ last.status.reason := by
  have hheaders : response.headers = statusEntries last ++ last.reported := by
    rw [get_of_prepare hprepare] at hget
    obtain ⟨sink, h, hresponse⟩ := perform_ok hget
    have := deliver_headers hplain h
    rw [hresponse, this, hlines, foldl_blocks]
  rw [hheaders, List.append_left_eq_self, statusEntries]
  split_ifs with h <;> simp [h]

/-- A response with one field and a reason phrase. -/
def sampleBlock (reason : Bytes) : Block where
  status :=
    { version := bytes "1.1"
      code := bytes "404"
      reason := reason
      version_chars := by simp [bytes, ch, isDigit]
      code_chars := by simp [bytes, ch, isDigit] }
  fields :=
    [{ name := bytes "Content-Length"
       lead := bytes " "
       value := bytes "0"
       trail := []
       name_chars := by simp [bytes, ch, isTokenChar, isLetter]
       lead_blank := by simp [bytes, isBlank]
       value_bare := by simp [bytes, Trim.Bare, isBlank, ch]
       trail_blank := by simp }]
  eol := bytes "\r\n"
  eol_chars := .inl rfl

def headerEvent (line : String) (h : (bytes line).length < 2 ^ 64) : Event :=
  .header (.ofBytes (bytes line) h)

/-- The last block counts, not the first. -/
theorem headers_final_block_iff_interim :
    let config : ClientConfig := { baseUrl := bytes "http://h" }
    let events : List Event :=
      [headerEvent "HTTP/1.1 404 Early: hints\r\n" (by decide),
        headerEvent "Content-Length: 0\r\n" (by decide), headerEvent "\r\n" (by decide),
        headerEvent "HTTP/1.1 404 Not Found\r\n" (by decide),
        headerEvent "Content-Length: 0\r\n" (by decide), headerEvent "\r\n" (by decide)]
    ∃ response, get (replay events 404) config (bytes "/") = .ok response ∧
      response.headers = (sampleBlock (bytes "Not Found")).reported := by
  intro config events
  have hplain : ∀ e ∈ events, e.delivery.Plain := by
    simp [events, headerEvent, Event.delivery, Delivery.Plain, Delivery.ofBytes]
  have hprepare : prepare (replay events 404) config (bytes "/") =
      .ok (defaultRequest (bytes "http://h/")) := by rfl
  have hlines : headerLines events =
      ([sampleBlock (bytes "Early: hints")] ++ [sampleBlock (bytes "Not Found")]).flatMap
        Block.lines := by rfl
  exact ⟨_, rfl, (headers_final_block_iff hprepare hplain hlines rfl).mpr (by decide)⟩

/-- A status line whose reason phrase has a colon is reported as a field. -/
theorem status_line_reported :
    let config : ClientConfig := { baseUrl := bytes "http://h" }
    let events : List Event :=
      [headerEvent "HTTP/1.1 404 Not Found: no data\r\n" (by decide),
        headerEvent "Content-Length: 0\r\n" (by decide), headerEvent "\r\n" (by decide)]
    headerLines events = (sampleBlock (bytes "Not Found: no data")).lines ∧
      ∃ response, get (replay events 404) config (bytes "/") = .ok response ∧
        response.headers =
          [(bytes "HTTP/1.1 404 Not Found", bytes "no data"), (bytes "Content-Length", bytes "0")] ∧
        response.headers ≠ (sampleBlock (bytes "Not Found: no data")).reported := by
  refine ⟨rfl, _, rfl, rfl, ?_⟩
  decide

end NceiCpp.Http
