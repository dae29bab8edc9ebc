import NceiCpp.Models.DataPoint

/-!
# Climate at a Glance

Model of `deserialize_cag_series` in `src/models/climate_index.cpp`. What Glaze does is a
parameter.

* `Spells`: the JSON values that spell one decimal value.
* `cagPoint_eq`: what the loop makes of an entry, however its value is spelled.
* `deserializeCagSeries_spelling_iff`: when two spellings have the same outcome, and when a
  missing marker is dropped.
-/

namespace NceiCpp.Models

open NceiCpp.Core

structure ClimatePoint where
  period : Bytes
  value : Double := 0
  deriving DecidableEq

structure CagSeries where
  title : Bytes := []
  units : Bytes := []
  basePeriod : Bytes := []
  data : List ClimatePoint := []
  deriving DecidableEq

/-- `trim` (lines 24–31). -/
def trim (s : Bytes) : Bytes := (s.dropWhile isBlank).rdropWhile isBlank

/-- `parse_value` (lines 33–57). -/
def parseValue (raw : Bytes) : Option Double :=
  let t := trim raw
  if t = [] ∨ t = bytes "***" ∨ t = bytes "-9999" ∨ t = bytes "-99.99" ∨ t = bytes "NA" then none
  else
    let number := if t.head? = some (ch '+') then t.tail else t
    if t.head? = some (ch '+') ∧
        (number = [] ∨ number.head? = some (ch '+') ∨ number.head? = some (ch '-')) then none
    else
      match fromCharsDouble number with
      | some (v, []) => ifFinite v
      | _ => none

/-- The value of an entry, if it has one (lines 91–118). -/
def cagValue : Json → Option Double
  | .string s => parseValue s
  | .number v => ifFinite (.finite v)
  | .object inner =>
    match findMember inner (bytes "departure") with
    | some (.string s) => parseValue s
    | some (.number v) => ifFinite (.finite v)
    | _ => none
  | _ => none

/-- One turn of the loop over the data object (lines 90–122): the point that is pushed. -/
def cagPoint (kv : Bytes × Json) : Option ClimatePoint :=
  (cagValue kv.2).map fun v => { period := kv.1, value := v }

/-- The fields of the `description` object (lines 79–84). -/
def cagDescription (o : List (Bytes × Json)) : CagSeries :=
  match findMember o (bytes "description") with
  | some (.object d) =>
    { title := getString (.object d) (bytes "title")
      units := getString (.object d) (bytes "units")
      basePeriod := getString (.object d) (bytes "base_period") }
  | _ => {}

/-- The check for an empty series (lines 123–127). -/
def finishCag (parsed out : CagSeries) : Result Unit × CagSeries :=
  if parsed.data = [] then (.error (Error.parse (bytes "CAG: empty data series")), out)
  else (.ok (), parsed)

/-- `deserialize_cag_series` (lines 70–128): the result and the new `out`. -/
def deserializeCagSeries (glaze : GlazeGeneric) (body : Bytes) (out : CagSeries) :
    Result Unit × CagSeries :=
  match glaze.read body with
  | .ok (.object o) =>
    match findMember o (bytes "data") with
    | some (.object data) =>
      finishCag { cagDescription o with data := data.filterMap cagPoint } out
    | _ => (.error (Error.parse (bytes "CAG: no data object")), out)
  | _ => (.error (Error.parse (bytes "CAG: invalid JSON")), out)

/-! ## Spellings -/

/-- A string that reads `v`: a text of the number, behind a plus sign if it has no sign of its
    own, between blanks. -/
def StringSpells (v : ℚ) (s : Bytes) : Prop :=
  ∃ (n : Numeral) (plus : Bool) (lead trail : Bytes),
    n.value = v ∧ (plus = true → n.negative = false) ∧ (∀ c ∈ lead ++ trail, isBlank c = true) ∧
      s = lead ++ ((if plus then [ch '+'] else []) ++ n.text) ++ trail

/-- The four spellings of `v`. A JSON number is a `double`. -/
inductive Spells (v : ℚ) : Json → Prop
  | string {s : Bytes} (h : StringSpells v s) : Spells v (.string s)
  | number (h : InRange v) : Spells v (.number v)
  | departureString {members : List (Bytes × Json)} {s : Bytes}
      (hfind : findMember members (bytes "departure") = some (.string s))
      (h : StringSpells v s) : Spells v (.object members)
  | departureNumber {members : List (Bytes × Json)}
      (hfind : findMember members (bytes "departure") = some (.number v))
      (h : InRange v) : Spells v (.object members)

/-- The strings that are exactly a marker of a missing value, between blanks. -/
def MarkerString (s : Bytes) : Prop := trim s = bytes "-9999" ∨ trim s = bytes "-99.99"

/-- A value spelled by such a string. -/
def MarkerText : Json → Prop
  | .string s => MarkerString s
  | .object members => ∃ s, findMember members (bytes "departure") = some (.string s) ∧
      MarkerString s
  | _ => False

/-- The missing markers that are numbers. -/
def IsMarker (v : ℚ) : Prop := v = -9999 ∨ v = -99.99

/-- The root of a body whose data object has the entry `(key, j)`. An object has every key
    once. -/
def cagRoot (before after front back : List (Bytes × Json)) (key : Bytes) (j : Json) : Json :=
  .object (before ++ (bytes "data", .object (front ++ (key, j) :: back)) :: after)

/-- No point of a series that was read has the period `key`. -/
def Dropped (key : Bytes) (outcome : Result Unit × CagSeries) : Prop :=
  outcome.1 = .ok () → key ∉ outcome.2.data.map ClimatePoint.period

/-! ## What a spelling is read as -/

/-- The trimmed texts that `parse_value` takes for a missing value. -/
def IsMissing (t : Bytes) : Prop :=
  t = [] ∨ t = bytes "***" ∨ t = bytes "-9999" ∨ t = bytes "-99.99" ∨ t = bytes "NA"

instance (t : Bytes) : Decidable (IsMissing t) :=
  inferInstanceAs (Decidable
    (t = [] ∨ t = bytes "***" ∨ t = bytes "-9999" ∨ t = bytes "-99.99" ∨ t = bytes "NA"))

theorem trim_blanks {lead core trail : Bytes} (hblank : ∀ c ∈ lead ++ trail, isBlank c = true)
    (hcore : ∀ c ∈ core, isBlank c = false) : trim (lead ++ core ++ trail) = core :=
  Trim.trim_append (fun c hc => hblank c (List.mem_append_left _ hc)) (.of_forall hcore)
    fun c hc => hblank c (List.mem_append_right _ hc)

theorem StringSpells.trim_eq {v : ℚ} {s : Bytes} (h : StringSpells v s) :
    ∃ (n : Numeral) (plus : Bool), n.value = v ∧ (plus = true → n.negative = false) ∧
      trim s = (if plus then [ch '+'] else []) ++ n.text := by
  obtain ⟨n, plus, lead, trail, hvalue, hplus, hblank, rfl⟩ := h
  refine ⟨n, plus, hvalue, hplus, trim_blanks hblank fun c hc => ?_⟩
  apply isBlank_eq_false
  rcases List.mem_append.mp hc with hc | hc
  · split_ifs at hc
    · rw [List.mem_singleton.mp hc]
      decide
    · cases hc
  · exact n.mem_text hc

theorem parseValue_of_marker {s : Bytes} (h : MarkerString s) : parseValue s = none := by
  rw [parseValue]
  rcases h with h | h <;> simp [h]

/-- `-9999`. -/
def ninesNumeral : Numeral := ⟨true, [9, 9, 9, 9], none, none, by decide, by decide⟩

/-- `-99.99`. -/
def hundredthsNumeral : Numeral := ⟨true, [9, 9], some [9, 9], none, by decide, by decide⟩

theorem ninesNumeral_value : ninesNumeral.value = -9999 := by
  norm_num [ninesNumeral, Numeral.value, Numeral.magnitude, DecimalDigits.value]

theorem hundredthsNumeral_value : hundredthsNumeral.value = -99.99 := by
  norm_num [hundredthsNumeral, Numeral.value, Numeral.magnitude, DecimalDigits.value]

theorem inRange_marker {v : ℚ} (h : IsMarker v) : InRange v := by
  rcases h with rfl | rfl <;> apply inRange_of_le <;> norm_num [abs_of_neg]

/-- A numeral behind a plus sign is no marker, and one without is a marker as its text. -/
theorem isMarker_of_text {n : Numeral} {plus : Bool} {s : Bytes}
    (htrim : trim s = (if plus then [ch '+'] else []) ++ n.text) (hs : MarkerString s) :
    IsMarker n.value := by
  have hplus : plus = false := by
    by_contra hplus
    rw [Bool.not_eq_false] at hplus
    rw [hplus, if_pos rfl] at htrim
    rcases hs with hs | hs <;>
    · rw [hs] at htrim
      exact absurd (List.cons.inj htrim).1 (by decide)
  rw [hplus, if_neg (by decide), List.nil_append] at htrim
  rcases hs with hs | hs
  · have htext : n.text = ninesNumeral.text := by
      rw [← htrim, hs]
      decide
    have hvalue := Numeral.value_eq_of_text htext
      (inRange_marker (.inl ninesNumeral_value))
    exact .inl (hvalue.trans ninesNumeral_value)
  · have htext : n.text = hundredthsNumeral.text := by
      rw [← htrim, hs]
      decide
    have hvalue := Numeral.value_eq_of_text htext
      (inRange_marker (.inr hundredthsNumeral_value))
    exact .inr (hvalue.trans hundredthsNumeral_value)

/-- What `parse_value` takes for missing starts with no sign, digit or point, unless it is one
    of the numbers. -/
theorem not_missing_of_text {n : Numeral} {plus : Bool} {s : Bytes}
    (htrim : trim s = (if plus then [ch '+'] else []) ++ n.text) (hs : ¬MarkerString s) :
    ¬IsMissing (trim s) := by
  obtain ⟨c, rest, htext, hc⟩ := n.text_eq_cons
  have hfirst : ∀ x t, trim s = x :: t →
      x = ch '+' ∨ x = ch '-' ∨ isDigit x = true ∨ x = ch '.' := by
    intro x t hx
    rw [htrim, htext] at hx
    cases plus with
    | true => exact .inl (List.cons.inj hx).1.symm
    | false =>
      obtain ⟨rfl, -⟩ := List.cons.inj hx
      rcases hc with ⟨-, hc⟩ | ⟨-, hc⟩
      · exact .inr (.inl hc)
      · exact .inr (.inr hc)
  rintro (h | h | h | h | h)
  · simp [htrim, htext] at h
  · exact absurd (hfirst _ _ h) (by decide)
  · exact hs (.inl h)
  · exact hs (.inr h)
  · exact absurd (hfirst _ _ h) (by decide)

/-- `parse_value` is the reader of the attributes behind a list of markers. -/
theorem parseValue_eq (raw : Bytes) :
    parseValue raw = if IsMissing (trim raw) then none else readNumber (trim raw) := rfl

/-- The text of a number that is no marker is read as the number, if it is in range. -/
theorem parseValue_text {n : Numeral} {plus : Bool} {s : Bytes}
    (htrim : trim s = (if plus then [ch '+'] else []) ++ n.text)
    (hplus : plus = true → n.negative = false) (hs : ¬MarkerString s) :
    parseValue s = if InRange n.value then some (.finite n.value) else none := by
  rw [parseValue_eq, if_neg (not_missing_of_text htrim hs), htrim, readNumber_text hplus]

/-- What a string that spells `v` is read as. -/
theorem StringSpells.parseValue_eq {v : ℚ} {s : Bytes} (h : StringSpells v s) :
    (MarkerString s ∧ IsMarker v ∧ parseValue s = none) ∨
      (¬MarkerString s ∧ parseValue s = if InRange v then some (.finite v) else none) := by
  obtain ⟨n, plus, rfl, hplus, htrim⟩ := h.trim_eq
  by_cases hs : MarkerString s
  · exact .inl ⟨hs, isMarker_of_text htrim hs, parseValue_of_marker hs⟩
  · exact .inr ⟨hs, parseValue_text htrim hplus hs⟩

/-- What a spelling of `v` is read as. -/
theorem Spells.cagValue_eq {v : ℚ} {j : Json} (h : Spells v j) :
    (MarkerText j ∧ IsMarker v ∧ cagValue j = none) ∨
      (¬MarkerText j ∧ cagValue j = if InRange v then some (.finite v) else none) := by
  cases h with
  | string h => exact h.parseValue_eq
  | number h => exact .inr ⟨id, by rw [if_pos h]; rfl⟩
  | departureString hfind h =>
    have hmarker : ∀ s, MarkerText (.object s) = ∃ t, findMember s (bytes "departure") =
      some (.string t) ∧ MarkerString t := fun _ => rfl
    simpa only [hmarker, cagValue, hfind, Option.some.injEq, Json.string.injEq,
      exists_eq_left'] using h.parseValue_eq
  | departureNumber hfind h =>
    refine .inr ⟨?_, ?_⟩
    · rintro ⟨s, hs, -⟩
      rw [hfind] at hs
      cases hs
    · rw [cagValue, hfind, if_pos h]
      rfl

/-- An entry in range becomes a point unless its value is spelled by a marker. -/
theorem cagPoint_eq {v : ℚ} {j : Json} (h : Spells v j) (key : Bytes) :
    (MarkerText j ∧ IsMarker v ∧ cagPoint (key, j) = none) ∨
      (¬MarkerText j ∧ cagPoint (key, j) =
        if InRange v then some { period := key, value := .finite v } else none) := by
  rcases h.cagValue_eq with ⟨hmarker, hv, hvalue⟩ | ⟨hmarker, hvalue⟩
  · exact .inl ⟨hmarker, hv, by rw [cagPoint, hvalue]; rfl⟩
  · refine .inr ⟨hmarker, ?_⟩
    rw [cagPoint, hvalue]
    split_ifs <;> rfl

/-! ## What a body is read as -/

/-- The points of a body with the entry `(key, j)`. -/
theorem deserializeCagSeries_eq {glaze : GlazeGeneric} {body : Bytes}
    {before after front back : List (Bytes × Json)} {key : Bytes} {j : Json}
    (h : glaze.read body = .ok (cagRoot before after front back key j))
    (hbefore : bytes "data" ∉ before.map Prod.fst) (out : CagSeries) :
    deserializeCagSeries glaze body out =
      finishCag { cagDescription (before ++ after) with
        data := front.filterMap cagPoint ++ (cagPoint (key, j)).toList ++
          back.filterMap cagPoint } out := by
  have hdescription : ∀ x, cagDescription (before ++ (bytes "data", x) :: after) =
      cagDescription (before ++ after) := by
    intro x
    rw [cagDescription, cagDescription, findMember_of_ne x (by decide)]
  have hentry : (front ++ (key, j) :: back).filterMap cagPoint =
      front.filterMap cagPoint ++ (cagPoint (key, j)).toList ++ back.filterMap cagPoint := by
    rw [List.filterMap_append, List.filterMap_cons, List.append_assoc]
    cases cagPoint (key, j) <;> rfl
  rw [deserializeCagSeries, h, cagRoot]
  simp only [findMember_of_not_mem _ hbefore, hdescription, hentry]

/-- The points can be told from the outcome. -/
theorem finishCag_inj {d out : CagSeries} {l l' : List ClimatePoint}
    (h : finishCag { d with data := l } out = finishCag { d with data := l' } out) : l = l' := by
  unfold finishCag at h
  split_ifs at h with hl hl' hl'
  · exact hl.trans hl'.symm
  · cases h
  · cases h
  · injection h with _ h
    injection h

/-- A series drops the period of an entry exactly if the entry is no point. -/
theorem dropped_finishCag {d out : CagSeries} {front back : List (Bytes × Json)} {key : Bytes}
    {p : Option ClimatePoint} (hp : ∀ x ∈ p, x.period = key)
    (hkey : key ∉ (front ++ back).map Prod.fst) :
    Dropped key (finishCag { d with
      data := front.filterMap cagPoint ++ p.toList ++ back.filterMap cagPoint } out) ↔
      p = none := by
  have hother : ∀ l : List (Bytes × Json), key ∉ l.map Prod.fst →
      key ∉ (l.filterMap cagPoint).map ClimatePoint.period := by
    intro l hl hmem
    obtain ⟨x, hx, rfl⟩ := List.mem_map.mp hmem
    obtain ⟨kv, hkv, hpoint⟩ := List.mem_filterMap.mp hx
    obtain ⟨v, -, rfl⟩ := Option.map_eq_some_iff.mp hpoint
    exact hl (List.mem_map_of_mem hkv)
  rw [List.map_append, List.mem_append, not_or] at hkey
  cases p with
  | none =>
    refine iff_of_true ?_ rfl
    unfold Dropped finishCag
    split_ifs with hnil
    · rintro ⟨⟩
    · intro _
      rw [Option.toList_none, List.append_nil, List.map_append, List.mem_append, not_or]
      exact ⟨hother front hkey.1, hother back hkey.2⟩
  | some x =>
    refine iff_of_false ?_ (by simp)
    intro hdropped
    unfold Dropped finishCag at hdropped
    rw [if_neg (by simp)] at hdropped
    have hperiod : x.period = key := hp x rfl
    exact hdropped rfl (by simp [hperiod])

/-- A missing marker becomes no point exactly if it is spelled by a marker text. -/
theorem cagPoint_eq_none_iff {v : ℚ} {j : Json} (h : Spells v j) (hv : IsMarker v) (key : Bytes) :
    cagPoint (key, j) = none ↔ MarkerText j := by
  rcases cagPoint_eq h key with ⟨hmarker, -, hpoint⟩ | ⟨hmarker, hpoint⟩
  · exact iff_of_true hpoint hmarker
  · rw [hpoint, if_pos (inRange_marker hv)]
    exact iff_of_false (by simp) hmarker

theorem Spells.isMarker {v : ℚ} {j : Json} (h : Spells v j) (hmarker : MarkerText j) :
    IsMarker v := by
  rcases h.cagValue_eq with ⟨-, hv, -⟩ | ⟨hno, -⟩
  · exact hv
  · exact absurd hmarker hno

/-- Two spellings of one value give the same point or none unless one of them is a marker text. -/
theorem cagPoint_eq_iff {v : ℚ} {j j' : Json} (h : Spells v j) (h' : Spells v j') (key : Bytes) :
    cagPoint (key, j) = cagPoint (key, j') ↔ (MarkerText j ↔ MarkerText j') := by
  by_cases hv : IsMarker v
  · rw [← cagPoint_eq_none_iff h hv key, ← cagPoint_eq_none_iff h' hv key]
    rcases cagPoint_eq h key with ⟨-, -, hp⟩ | ⟨-, hp⟩ <;>
    rcases cagPoint_eq h' key with ⟨-, -, hp'⟩ | ⟨-, hp'⟩ <;>
    · rw [hp, hp']
      simp [inRange_marker hv]
  · have hno : ¬MarkerText j := fun hm => hv (h.isMarker hm)
    have hno' : ¬MarkerText j' := fun hm => hv (h'.isMarker hm)
    rcases cagPoint_eq h key with ⟨hm, -, -⟩ | ⟨-, hp⟩
    · exact absurd hm hno
    rcases cagPoint_eq h' key with ⟨hm, -, -⟩ | ⟨-, hp'⟩
    · exact absurd hm hno'
    exact iff_of_true (hp.trans hp'.symm) (iff_of_false hno hno')

/-- Where the value of an entry is spelled in another way, the outcome is the same and a
    missing marker is dropped in both spellings exactly if a marker is spelled by one of the
    marker texts both times. The outcome alone is the same exactly if both spellings are marker
    texts or neither is. -/
theorem deserializeCagSeries_spelling_iff {glaze : GlazeGeneric} {body body' : Bytes}
    {before after front back : List (Bytes × Json)} {key : Bytes} {v : ℚ} {j j' : Json}
    (h : glaze.read body = .ok (cagRoot before after front back key j))
    (h' : glaze.read body' = .ok (cagRoot before after front back key j'))
    (hbefore : bytes "data" ∉ before.map Prod.fst) (hkey : key ∉ (front ++ back).map Prod.fst)
    (hj : Spells v j) (hj' : Spells v j') (out : CagSeries) :
    (deserializeCagSeries glaze body out = deserializeCagSeries glaze body' out ∧
        (IsMarker v → Dropped key (deserializeCagSeries glaze body out) ∧
          Dropped key (deserializeCagSeries glaze body' out)) ↔
      (IsMarker v → MarkerText j ∧ MarkerText j')) ∧
    (deserializeCagSeries glaze body out = deserializeCagSeries glaze body' out ↔
      (MarkerText j ↔ MarkerText j')) := by
  have hperiod : ∀ k, ∀ x ∈ cagPoint (key, k), x.period = key := by
    intro k x hx
    obtain ⟨w, -, rfl⟩ := Option.map_eq_some_iff.mp hx
    rfl
  have hsame : deserializeCagSeries glaze body out = deserializeCagSeries glaze body' out ↔
      cagPoint (key, j) = cagPoint (key, j') := by
    rw [deserializeCagSeries_eq h hbefore, deserializeCagSeries_eq h' hbefore]
    constructor
    · intro heq
      have hlist := List.append_cancel_left (List.append_cancel_right (finishCag_inj heq))
      have hhead := congrArg List.head? hlist
      rwa [Option.head?_toList, Option.head?_toList] at hhead
    · intro heq
      rw [heq]
  have hdropped : Dropped key (deserializeCagSeries glaze body out) ↔
      cagPoint (key, j) = none := by
    rw [deserializeCagSeries_eq h hbefore]
    exact dropped_finishCag (hperiod j) hkey
  have hdropped' : Dropped key (deserializeCagSeries glaze body' out) ↔
      cagPoint (key, j') = none := by
    rw [deserializeCagSeries_eq h' hbefore]
    exact dropped_finishCag (hperiod j') hkey
  rw [hsame, hdropped, hdropped', cagPoint_eq_iff hj hj' key]
  refine ⟨?_, Iff.rfl⟩
  constructor
  · rintro ⟨-, hdrop⟩ hv
    obtain ⟨hnone, hnone'⟩ := hdrop hv
    exact ⟨(cagPoint_eq_none_iff hj hv key).mp hnone, (cagPoint_eq_none_iff hj' hv key).mp hnone'⟩
  · intro hmarker
    refine ⟨⟨fun hm => (hmarker (hj.isMarker hm)).2, fun hm => (hmarker (hj'.isMarker hm)).1⟩, ?_⟩
    intro hv
    obtain ⟨hm, hm'⟩ := hmarker hv
    exact ⟨(cagPoint_eq_none_iff hj hv key).mpr hm, (cagPoint_eq_none_iff hj' hv key).mpr hm'⟩

/-! ## A body with one entry -/

/-- The entry of the year 1850 in either form. -/
def bareBody (value : String) : Bytes := bytes ("\x7b\"data\":\x7b\"1850\":" ++ value ++ "\x7d\x7d")

def departureBody (value : String) : Bytes :=
  bareBody ("\x7b\"departure\":" ++ value ++ "\x7d")

def departure (j : Json) : Json := .object [(bytes "departure", j)]

/-- Glaze on two bodies with the entry of the year 1850. -/
def yearGlaze (body body' : Bytes) (j j' : Json) : GlazeGeneric where
  read b :=
    if b = body then .ok (cagRoot [] [] [] [] (bytes "1850") j)
    else if b = body' then .ok (cagRoot [] [] [] [] (bytes "1850") j')
    else .error []
  write _ := none

theorem yearGlaze_read {body body' : Bytes} (j j' : Json) (h : body' ≠ body) :
    (yearGlaze body body' j j').read body = .ok (cagRoot [] [] [] [] (bytes "1850") j) ∧
      (yearGlaze body body' j j').read body' = .ok (cagRoot [] [] [] [] (bytes "1850") j') := by
  simp [yearGlaze, h]

/-- `1.29`, written with a plus sign or as a number. -/
theorem deserializeCagSeries_spelling_iff_plus :
    let glaze := yearGlaze (bareBody "\"+1.29\"") (departureBody "1.29")
      (.string (bytes "+1.29")) (departure (.number 1.29))
    deserializeCagSeries glaze (bareBody "\"+1.29\"") {} =
      deserializeCagSeries glaze (departureBody "1.29") {} := by
  intro glaze
  have hstring : Spells 1.29 (.string (bytes "+1.29")) := by
    refine .string ⟨⟨false, [1], some [2, 9], none, by decide, by decide⟩, true, [], [], ?_,
      fun _ => rfl, by simp, by decide⟩
    norm_num [Numeral.value, Numeral.magnitude, DecimalDigits.value]
  have hnumber : Spells 1.29 (departure (.number 1.29)) := by
    refine .departureNumber rfl (inRange_of_le ?_ ?_) <;> norm_num [abs_of_pos]
  have hmarker : ¬IsMarker 1.29 := by
    norm_num [IsMarker]
  obtain ⟨hread, hread'⟩ := yearGlaze_read (.string (bytes "+1.29")) (departure (.number 1.29))
    (show departureBody "1.29" ≠ bareBody "\"+1.29\"" by decide)
  have houtcome := (deserializeCagSeries_spelling_iff hread hread' (by simp) (by simp) hstring
    hnumber {}).2
  exact houtcome.mpr (iff_of_false (fun hm => hmarker (hstring.isMarker hm))
    fun hm => hmarker (hnumber.isMarker hm))

/-- `-9999` as a string is a missing value, and as a number it is an anomaly. -/
theorem deserializeCagSeries_numberMarker :
    let j := departure (.string (bytes "-9999"))
    let j' := departure (.number (-9999))
    let glaze := yearGlaze (departureBody "\"-9999\"") (departureBody "-9999") j j'
    (Spells (-9999) j ∧ Spells (-9999) j') ∧
      (glaze.read (departureBody "\"-9999\"") = .ok (cagRoot [] [] [] [] (bytes "1850") j) ∧
        glaze.read (departureBody "-9999") = .ok (cagRoot [] [] [] [] (bytes "1850") j')) ∧
      deserializeCagSeries glaze (departureBody "\"-9999\"") {} =
        (.error (Error.parse (bytes "CAG: empty data series")), {}) ∧
      deserializeCagSeries glaze (departureBody "-9999") {} =
        (.ok (), { data := [{ period := bytes "1850", value := .finite (-9999) }] }) := by
  intro j j' glaze
  refine ⟨⟨?_, ?_⟩, yearGlaze_read j j' (by decide), ?_, ?_⟩
  · exact .departureString rfl ⟨ninesNumeral, false, [], [], ninesNumeral_value, by simp, by simp,
      by decide⟩
  · exact .departureNumber rfl (inRange_marker (.inl rfl))
  · rfl
  · rfl

end NceiCpp.Models
