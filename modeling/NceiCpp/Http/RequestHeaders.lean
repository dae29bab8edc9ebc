import NceiCpp.Http.Client

/-!
# The header fields of a request

What `HttpClient::get` hands to libcurl of the configured header fields: a list of C strings,
one for each field. libcurl passes them on as they stand, one line each, and leaves out those
with a blank value; that is not modelled. No string may be cut short, be more than one line, or
be taken for another field.

* `ValidField.line_clean`, `ValidField.eq_of_line`: the line of a field.
* `appendHeaders_ok`, `appendHeaders_of_valid`: the loop over `extra_headers`.
* `prepare_lines`, `fields_of_headers`: the header lines of a request.
* `request_fields`: which configurations make a request, and what its fields are.
-/

namespace NceiCpp.Http

open NceiCpp.Core

/-! ## The line of a field -/

/-- The line of a field (`key + ": " + value`). -/
def fieldLine (field : Bytes × Bytes) : Bytes := field.1 ++ bytes ": " ++ field.2

/-- What the loop of `get` asks of a field (lines 144–147). -/
structure ValidField (field : Bytes × Bytes) : Prop where
  name_ne : field.1 ≠ []
  name_colon : ch ':' ∉ field.1
  name_clean : invalidHeader field.1 = false
  value_clean : invalidHeader field.2 = false

theorem invalidHeader_append (a b : Bytes) :
    invalidHeader (a ++ b) = (invalidHeader a || invalidHeader b) := List.any_append

/-- The line of a field without line breaks has none. -/
theorem ValidField.line_clean {field : Bytes × Bytes} (h : ValidField field) :
    invalidHeader (fieldLine field) = false := by
  have hsep : invalidHeader (bytes ": ") = false := by decide
  rw [fieldLine, invalidHeader_append, invalidHeader_append, h.name_clean, h.value_clean, hsep]
  rfl

theorem fieldLine_eq (field : Bytes × Bytes) :
    fieldLine field = field.1 ++ ch ':' :: ch ' ' :: field.2 := by
  rw [fieldLine, List.append_assoc]
  rfl

/-- The name of a field ends at the first colon of its line. -/
theorem ValidField.name_eq {field : Bytes × Bytes} (h : ValidField field) :
    (fieldLine field).takeWhile (· ≠ ch ':') = field.1 := by
  have hname : ∀ c ∈ field.1, decide (c ≠ ch ':') = true := by
    intro c hc
    rw [decide_eq_true_eq]
    rintro rfl
    exact h.name_colon hc
  rw [fieldLine_eq, List.takeWhile_append_of_pos hname]
  simp

/-- A line is that of one field only. -/
theorem ValidField.eq_of_line {field field' : Bytes × Bytes} (h : ValidField field)
    (h' : ValidField field') (hline : fieldLine field = fieldLine field') : field = field' := by
  have hname : field.1 = field'.1 := by rw [← h.name_eq, hline, h'.name_eq]
  rw [fieldLine_eq, fieldLine_eq, hname] at hline
  have hvalue := List.append_cancel_left hline
  rw [List.cons.injEq, List.cons.injEq] at hvalue
  exact Prod.ext hname hvalue.2.2

theorem eq_of_lines {fields fields' : List (Bytes × Bytes)} (h : ∀ f ∈ fields, ValidField f)
    (h' : ∀ f ∈ fields', ValidField f) (hlines : fields.map fieldLine = fields'.map fieldLine) :
    fields = fields' := by
  induction fields generalizing fields' with
  | nil => simpa using hlines.symm
  | cons field fields ih =>
    obtain ⟨field', fields', rfl⟩ := List.exists_cons_of_ne_nil
      (show fields' ≠ [] by rintro rfl; cases hlines)
    obtain ⟨hfield, hrest⟩ := List.forall_mem_cons.mp h
    obtain ⟨hfield', hrest'⟩ := List.forall_mem_cons.mp h'
    rw [List.map_cons, List.map_cons, List.cons.injEq] at hlines
    rw [hfield.eq_of_line hfield' hlines.1, ih hrest hrest' hlines.2]

/-! ## The list of header lines -/

/-- `curl_slist_append` puts a line behind the others, or fails. -/
def Appends (curl : Curl) : Prop :=
  ∀ headers header appended, curl.append headers header = some appended →
    appended = headers ++ [header]

/-- libcurl grants all it is asked for. -/
structure Grants (curl : Curl) : Prop where
  ready : curl.ready = true
  append : ∀ headers header, curl.append headers header = some (headers ++ [header])
  accepts : ∀ request, curl.accepts request = true

theorem validField_iff (key value : Bytes) :
    ValidField (key, value) ↔
      ¬ (key = [] ∨ ch ':' ∈ key ∨ invalidHeader key = true ∨ invalidHeader value = true) := by
  simp only [not_or, Bool.not_eq_true]
  exact ⟨fun h => ⟨h.name_ne, h.name_colon, h.name_clean, h.value_clean⟩,
    fun h => ⟨h.1, h.2.1, h.2.2.1, h.2.2.2⟩⟩

/-- The loop succeeds on valid fields only, and puts their lines behind the others. -/
theorem appendHeaders_ok {curl : Curl} (hcurl : Appends curl) {headers lines : List Bytes}
    {fields : List (Bytes × Bytes)} (h : appendHeaders curl headers fields = .ok lines) :
    (∀ f ∈ fields, ValidField f) ∧ lines = headers ++ fields.map fieldLine := by
  induction fields generalizing headers with
  | nil =>
    rw [appendHeaders] at h
    cases h
    simp
  | cons field fields ih =>
    obtain ⟨key, value⟩ := field
    rw [appendHeaders] at h
    split_ifs at h with hinvalid
    split at h
    · cases h
    · next appended happend =>
      obtain ⟨hvalid, rfl⟩ := ih h
      refine ⟨List.forall_mem_cons.mpr ⟨(validField_iff key value).mpr hinvalid, hvalid⟩, ?_⟩
      rw [hcurl _ _ _ happend, List.append_assoc]
      rfl

theorem appendHeaders_of_valid {curl : Curl} (hcurl : Grants curl) (headers : List Bytes)
    {fields : List (Bytes × Bytes)} (h : ∀ f ∈ fields, ValidField f) :
    appendHeaders curl headers fields = .ok (headers ++ fields.map fieldLine) := by
  induction fields generalizing headers with
  | nil => simp [appendHeaders]
  | cons field fields ih =>
    obtain ⟨key, value⟩ := field
    obtain ⟨hfield, hrest⟩ := List.forall_mem_cons.mp h
    rw [appendHeaders, if_neg ((validField_iff key value).mp hfield), hcurl.append]
    dsimp only
    rw [ih _ hrest, List.append_assoc]
    rfl

/-! ## Requests -/

theorem validField_accept {accept : Bytes} (h : invalidHeader accept = false) :
    ValidField (bytes "Accept", accept) := by
  have hname : bytes "Accept" ≠ [] ∧ ch ':' ∉ bytes "Accept" ∧
      invalidHeader (bytes "Accept") = false := by decide
  exact ⟨hname.1, hname.2.1, hname.2.2, h⟩

/-- The header fields of a configuration. -/
def ClientConfig.fields (config : ClientConfig) : List (Bytes × Bytes) :=
  (bytes "Accept", config.accept) :: config.extraHeaders

/-- What a request that was prepared has of its configuration. -/
theorem prepare_ok {curl : Curl} (hcurl : Appends curl) {config : ClientConfig} {path : Bytes}
    {request : Request} (h : prepare curl config path = .ok request) :
    (0 ∉ requestUrl config path ∧ invalidHeader config.userAgent = false ∧
      invalidHeader config.accept = false ∧ 0 ≤ config.timeout ∧
      ∀ f ∈ config.extraHeaders, ValidField f) ∧
    request.url = requestUrl config path ∧ request.userAgent = config.userAgent ∧
    request.headers = ((bytes "Accept", config.accept) :: config.extraHeaders).map fieldLine ∧
    request.followLocation = config.extraHeaders.isEmpty ∧
    request.timeout = curlTimeout config.timeout := by
  unfold prepare at h
  dsimp only at h
  generalize (if config.verifySsl = true then (1 : ℤ) else 0) = verify at h
  split_ifs at h with hready hinvalid
  push Not at hinvalid
  obtain ⟨hurl, hagent, haccept, htimeout⟩ := hinvalid
  rw [ne_eq, Bool.not_eq_true] at hagent haccept
  split at h
  · cases h
  · next headers happend =>
    split at h
    · cases h
    · next lines hlines =>
      obtain ⟨hvalid, rfl⟩ := appendHeaders_ok hcurl hlines
      split_ifs at h
      cases h
      refine ⟨⟨hurl, hagent, haccept, htimeout, hvalid⟩, rfl, rfl, ?_, rfl, rfl⟩
      rw [hcurl _ _ _ happend]
      rfl

/-- The header lines of a request that was prepared. -/
theorem prepare_lines {curl : Curl} (hcurl : Appends curl) {config : ClientConfig} {path : Bytes}
    {request : Request} (h : prepare curl config path = .ok request) :
    request.headers = config.fields.map fieldLine ∧ (∀ f ∈ config.fields, ValidField f) ∧
      ∀ line ∈ request.headers, invalidHeader line = false := by
  obtain ⟨⟨-, -, haccept, -, hvalid⟩, -, -, hheaders, -⟩ := prepare_ok hcurl h
  have hall : ∀ f ∈ config.fields, ValidField f :=
    List.forall_mem_cons.mpr ⟨validField_accept haccept, hvalid⟩
  refine ⟨hheaders, hall, ?_⟩
  rw [hheaders]
  intro line hline
  obtain ⟨field, hfield, rfl⟩ := List.mem_map.mp hline
  exact (hall field hfield).line_clean

/-- The list tells the fields. -/
theorem fields_of_headers {curl : Curl} (hcurl : Appends curl) {config config' : ClientConfig}
    {path path' : Bytes} {request request' : Request}
    (h : prepare curl config path = .ok request) (h' : prepare curl config' path' = .ok request')
    (hsame : request'.headers = request.headers) : config'.fields = config.fields := by
  obtain ⟨hheaders, hvalid, -⟩ := prepare_lines hcurl h
  obtain ⟨hheaders', hvalid', -⟩ := prepare_lines hcurl h'
  rw [hheaders, hheaders'] at hsame
  exact eq_of_lines hvalid' hvalid hsame

theorem prepare_of_valid {curl : Curl} (hcurl : Grants curl) {config : ClientConfig}
    {path : Bytes} (hurl : 0 ∉ requestUrl config path)
    (hagent : invalidHeader config.userAgent = false)
    (haccept : invalidHeader config.accept = false) (htimeout : 0 ≤ config.timeout)
    (hvalid : ∀ f ∈ config.extraHeaders, ValidField f) :
    ∃ request, prepare curl config path = .ok request := by
  have hinvalid : ¬ (0 ∈ requestUrl config path ∨ invalidHeader config.userAgent = true ∨
      invalidHeader config.accept = true ∨ config.timeout < 0) := by
    rw [hagent, haccept]
    simp [hurl, htimeout]
  unfold prepare
  dsimp only
  rw [if_neg (by simp [hcurl.ready]), if_neg hinvalid, hcurl.append]
  dsimp only
  rw [appendHeaders_of_valid hcurl _ hvalid]
  dsimp only
  rw [if_pos (hcurl.accepts _)]
  exact ⟨_, rfl⟩

/-- The list that libcurl gets has the line of `Accept` and those of the `extra_headers`, in
    order and nothing else, whatever bytes the configuration has: each is one line without CR,
    LF and NUL, and the list tells the fields, so that no value adds or splits a line or stands
    for another field. No text that is handed over as a C string has a NUL; and a redirect is
    followed only without `extra_headers`. A libcurl that grants everything makes a request of
    exactly the configurations whose texts allow it. -/
theorem request_fields (config : ClientConfig) (path : Bytes) :
    (∀ curl, Appends curl → ∀ request, prepare curl config path = .ok request →
      request.headers = config.fields.map fieldLine ∧
      (∀ line ∈ request.headers, invalidHeader line = false) ∧
      (∀ config' path' request', prepare curl config' path' = .ok request' →
        request'.headers = request.headers → config'.fields = config.fields) ∧
      (0 ∉ request.url ∧ request.userAgent = config.userAgent ∧
        invalidHeader request.userAgent = false) ∧
      (request.followLocation = true ↔ config.extraHeaders = []) ∧
      0 ≤ request.timeout ∧ request.timeout < 2 ^ 63) ∧
    ∀ curl, Grants curl → ((∃ request, prepare curl config path = .ok request) ↔
      0 ∉ requestUrl config path ∧ invalidHeader config.userAgent = false ∧
        invalidHeader config.accept = false ∧ 0 ≤ config.timeout ∧
        ∀ f ∈ config.extraHeaders, ValidField f) := by
  constructor
  · intro curl hcurl request h
    obtain ⟨⟨hurl, hagent, -, hpos, -⟩, hurl', hagent', -, hfollow, htimeout⟩ :=
      prepare_ok hcurl h
    obtain ⟨hheaders, -, hclean⟩ := prepare_lines hcurl h
    refine ⟨hheaders, hclean, fun config' path' request' => fields_of_headers hcurl h,
      ⟨hurl' ▸ hurl, hagent', hagent' ▸ hagent⟩, ?_, ?_, ?_⟩
    · rw [hfollow, List.isEmpty_iff]
    · rw [htimeout, curlTimeout]
      omega
    · rw [htimeout, curlTimeout]
      omega
  · intro curl hcurl
    refine ⟨fun ⟨request, h⟩ => (prepare_ok (fun headers header appended happend => ?_) h).1,
      fun ⟨hurl, hagent, haccept, htimeout, hvalid⟩ =>
        prepare_of_valid hcurl hurl hagent haccept htimeout hvalid⟩
    rw [hcurl.append] at happend
    exact (Option.some.inj happend).symm

/-- A value that looks like another field: no other configuration has this list. -/
theorem request_fields_colon :
    let config : ClientConfig :=
      { baseUrl := bytes "https://host", extraHeaders := [(bytes "token", bytes "a: b")] }
    ∃ request, prepare (replay [] 200) config (bytes "/x") = .ok request ∧
      request.headers = [bytes "Accept: application/json", bytes "token: a: b"] ∧
      ∀ config' path' request', prepare (replay [] 200) config' path' = .ok request' →
        request'.headers = request.headers →
        config'.extraHeaders = [(bytes "token", bytes "a: b")] := by
  intro config
  have hcurl : Appends (replay [] 200) := fun _ _ _ h => (Option.some.inj h).symm
  have hprepare : prepare (replay [] 200) config (bytes "/x") =
      .ok { url := bytes "https://host/x"
            headers := [bytes "Accept: application/json", bytes "token: a: b"]
            timeout := 30
            userAgent := bytes "ncei-cpp/0.4.0"
            followLocation := false
            verifyPeer := 1
            verifyHost := 2 } := by rfl
  obtain ⟨-, -, htells, -⟩ := (request_fields config (bytes "/x")).1 _ hcurl _ hprepare
  refine ⟨_, hprepare, rfl, fun config' path' request' h' hsame => ?_⟩
  exact (List.cons.inj (htells config' path' request' h' hsame)).2

end NceiCpp.Http
