import NceiCpp.Common.Numeral
import NceiCpp.Core.CsvParser
import NceiCpp.Core.Error
import NceiCpp.Lib.AssocList
import NceiCpp.Lib.Trim

/-!
# Data points

Model of `src/models/data_service/data_point.cpp` and of the getters of
`src/models/common.cpp`. What Glaze does is a parameter.

* `populateFromRow_eq`: what a row with distinct headers is stored as.
* `readNumber_text`: what is read from the text of a number.
-/

namespace NceiCpp.Models

open NceiCpp.Core

@[ext] structure DataPoint where
  date : Bytes := []
  station : Bytes := []
  name : Bytes := []
  latitude : Double := 0
  longitude : Double := 0
  elevation : Double := 0
  attributes : List (Bytes × Bytes) := []
  deriving DecidableEq

structure DataPointCollection where
  columns : List Bytes := []
  records : List DataPoint := []
  deriving DecidableEq

/-- `DataPoint::get` (lines 142–149). -/
def DataPoint.get (dp : DataPoint) (key : Bytes) : Option Bytes := dp.attributes.lookup key

/-! ## Numbers -/

/-- The characters that are cut off both ends of a number. -/
def isBlank (c : Byte) : Bool := c ∈ [ch ' ', ch '\t', ch '\r', ch '\n']

/-- `v` unless it is an infinity or no number (`std::isfinite`). -/
def ifFinite : Double → Option Double
  | .finite v => some (.finite v)
  | _ => none

/-- A finite number to the last character of the text (lines 168–175). -/
def readWhole (number : Bytes) : Option Double :=
  match fromCharsDouble number with
  | some (v, []) => ifFinite v
  | _ => none

/-- What is read from the text of an attribute without the blanks around it (lines 162–175): a
    plus sign is skipped if no sign follows it. -/
def readNumber (text : Bytes) : Option Double :=
  let number := if text.head? = some (ch '+') then text.tail else text
  if text.head? = some (ch '+') ∧
      (number = [] ∨ number.head? = some (ch '+') ∨ number.head? = some (ch '-')) then none
  else readWhole number

/-- `DataPoint::get_double` (lines 151–180). -/
def DataPoint.getDouble (dp : DataPoint) (key : Bytes) : Option Double :=
  match dp.get key with
  | none => none
  | some val =>
    let text := Trim.trim isBlank val
    if text = [] then none else readNumber text

/-- `kKnownFields` (lines 27–28). -/
def knownFields : List Bytes :=
  [bytes "DATE", bytes "STATION", bytes "NAME", bytes "LATITUDE", bytes "LONGITUDE",
    bytes "ELEVATION"]

/-! ## Delimited text -/

/-- A coordinate of a row: `0.0` when `std::stod` throws. -/
def readCoordinate (val : Bytes) : Double := (stod val).getD 0

/-- The body of the loop of `populate_from_row` (lines 34–62). -/
def populateField (dp : DataPoint) (field : Bytes × Bytes) : DataPoint :=
  let (col, val) := field
  if col = bytes "DATE" then { dp with date := val }
  else if col = bytes "STATION" then { dp with station := val }
  else if col = bytes "NAME" then { dp with name := val }
  else if col = bytes "LATITUDE" then { dp with latitude := readCoordinate val }
  else if col = bytes "LONGITUDE" then { dp with longitude := readCoordinate val }
  else if col = bytes "ELEVATION" then { dp with elevation := readCoordinate val }
  else { dp with attributes := dp.attributes ++ [(col, val)] }

/-- `populate_from_row` (lines 30–64): `zip` stops at the shorter list. -/
def populateFromRow (dp : DataPoint) (headers values : List Bytes) : DataPoint :=
  (headers.zip values).foldl populateField dp

/-- `parse_delimited` (lines 66–84). -/
def parseDelimited (text : Bytes) (delim : Delimiter) : DataPointCollection :=
  match parse delim text with
  | [] => {}
  | columns :: rows => { columns := columns, records := rows.map (populateFromRow {} columns) }

def parseCsvData (text : Bytes) : DataPointCollection := parseDelimited text .comma

def parseSsvData (text : Bytes) : DataPointCollection := parseDelimited text .space

/-! ## JSON -/

/-- What Glaze does with a `glz::generic`: `glz::read`, which fails with a text, and
    `glz::write_json`, `none` when it fails. -/
structure GlazeGeneric where
  read : Bytes → Except Bytes Json
  write : Json → Option Bytes

/-- `detail::get_string` (`common.cpp`, lines 25–35). -/
def getString (obj : Json) (key : Bytes) : Bytes :=
  match obj with
  | .object members =>
    match findMember members key with
    | some (.string s) => s
    | _ => []
  | _ => []

/-- `detail::get_double` (lines 37–47): `def` unless there is a number. -/
def getDouble (obj : Json) (key : Bytes) (default : Double := 0) : Double :=
  match obj with
  | .object members =>
    match findMember members key with
    | some (.number v) => .finite v
    | _ => default
  | _ => default

/-- The text of an attribute (lines 112–126). -/
def attributeText (write : Json → Option Bytes) : Json → Bytes
  | .string s => s
  | .number v => toStringDouble v
  | .null => []
  | val => (write val).getD []

/-- `populate_data_point_from_object` (lines 96–129). -/
def populateFromObject (write : Json → Option Bytes) (root : Json) (dp : DataPoint) : DataPoint :=
  match root with
  | .object members =>
    { date := getString root (bytes "DATE")
      station := getString root (bytes "STATION")
      name := getString root (bytes "NAME")
      latitude := getDouble root (bytes "LATITUDE")
      longitude := getDouble root (bytes "LONGITUDE")
      elevation := getDouble root (bytes "ELEVATION")
      attributes := (members.filter fun m => m.1 ∉ knownFields).map fun m =>
        (m.1, attributeText write m.2) }
  | _ => dp

/-- `collect_columns` (lines 131–138), behind the columns that are there. -/
def collectColumns (obj : Json) (columns : List Bytes) : List Bytes :=
  match obj with
  | .object members => columns ++ members.map Prod.fst
  | _ => columns

/-- `deserialize_data_point_collection` (lines 182–217): the result and the new `out`. -/
def deserializeDataPointCollection (glaze : GlazeGeneric) (body : Bytes)
    (out : DataPointCollection) : Result Unit × DataPointCollection :=
  match glaze.read body with
  | .error text => (.error (Error.parse text), out)
  | .ok root =>
    match root with
    | .array items =>
      (.ok (), {
        columns := match items.head? with
          | some item => collectColumns item []
          | none => []
        records := items.map fun item => populateFromObject glaze.write item {} })
    | .object _ =>
      (.ok (), {
        columns := collectColumns root []
        records := [populateFromObject glaze.write root {}] })
    | _ => (.error (Error.parse (bytes "Expected a JSON object or array")), out)

/-! ## What the getter reads -/

theorem isBlank_eq_false {c : Byte} (h : 43 ≤ c.toNat) : isBlank c = false := by
  by_contra hblank
  rw [Bool.not_eq_false, isBlank, decide_eq_true_eq] at hblank
  revert h
  fin_cases hblank <;> decide

theorem readWhole_eq_iff {t : Bytes} {x : Double} :
    readWhole t = some x ↔ ∃ v, x = .finite v ∧ fromCharsDouble t = some (.finite v, []) := by
  unfold readWhole
  match fromCharsDouble t with
  | none => simp
  | some (.finite v, []) => simp [ifFinite, eq_comm]
  | some (.infinity negative, []) | some (.nan, []) => simp [ifFinite]
  | some (v, c :: rest) => simp

/-- The text of a number is read as the number, if it is in range. -/
theorem readNumber_text {n : Numeral} {plus : Bool} (hplus : plus = true → n.negative = false) :
    readNumber ((if plus then [ch '+'] else []) ++ n.text) =
      if InRange n.value then some (.finite n.value) else none := by
  have hread : readWhole n.text = if InRange n.value then some (.finite n.value) else none := by
    rw [readWhole, fromCharsDouble_text]
    split_ifs <;> rfl
  obtain ⟨c, rest, htext, -⟩ := n.text_eq_cons
  obtain ⟨hc, hminus⟩ := Numeral.head_text htext
  cases plus with
  | true =>
    have hminus := hminus (hplus rfl)
    rw [if_pos rfl, List.singleton_append, readNumber]
    rw [htext] at hread ⊢
    simp only [List.head?_cons, List.tail_cons, if_true, hread, Option.some.injEq, hc, hminus,
      reduceCtorEq, or_self, and_false, if_false]
  | false =>
    rw [if_neg (by decide), List.nil_append, readNumber]
    rw [htext] at hread ⊢
    simp only [List.head?_cons, Option.some.injEq, hc, if_false, false_and, hread]

theorem DataPoint.getDouble_of_get {dp : DataPoint} {key val : Bytes} (h : dp.get key = some val) :
    dp.getDouble key = readNumber (Trim.trim isBlank val) := by
  rw [getDouble, h]
  dsimp only
  split_ifs with hnil
  · rw [hnil]
    rfl
  · rfl

/-! ## What the decoders store -/

theorem nodup_zip {headers : List Bytes} (h : headers.Nodup) {β : Type} (values : List β) :
    ((headers.zip values).map Prod.fst).Nodup := by
  induction headers generalizing values with
  | nil => simp
  | cons header headers ih =>
    cases values with
    | nil => simp
    | cons value values =>
      rw [List.nodup_cons] at h
      rw [List.zip_cons_cons, List.map_cons, List.nodup_cons]
      refine ⟨fun hmem => h.1 ?_, ih h.2 values⟩
      obtain ⟨p, hp, heq⟩ := List.mem_map.mp hmem
      rw [← show p.1 = header from heq]
      exact (List.of_mem_zip hp).1

theorem foldl_attributes (fields : List (Bytes × Bytes)) (dp : DataPoint) :
    (fields.foldl populateField dp).attributes =
      dp.attributes ++ fields.filter fun p => p.1 ∉ knownFields := by
  induction fields generalizing dp with
  | nil => simp
  | cons p fields ih =>
    rw [List.foldl_cons, ih, List.filter_cons]
    unfold populateField knownFields
    dsimp only
    split_ifs <;> simp_all

/-- A row with distinct headers: each known field is looked up, the others are attributes. -/
theorem populateFromRow_eq {headers values : List Bytes} (h : headers.Nodup) :
    populateFromRow {} headers values =
      let fields := headers.zip values
      { date := (fields.lookup (bytes "DATE")).getD []
        station := (fields.lookup (bytes "STATION")).getD []
        name := (fields.lookup (bytes "NAME")).getD []
        latitude := ((fields.lookup (bytes "LATITUDE")).map readCoordinate).getD 0
        longitude := ((fields.lookup (bytes "LONGITUDE")).map readCoordinate).getD 0
        elevation := ((fields.lookup (bytes "ELEVATION")).map readCoordinate).getD 0
        attributes := fields.filter fun p => p.1 ∉ knownFields } := by
  have hkeys := nodup_zip h values
  have hstring : ∀ (get : DataPoint → Bytes) (name : Bytes),
      (∀ dp val, get (populateField dp (name, val)) = val) →
      (∀ dp (p : Bytes × Bytes), p.1 ≠ name → get (populateField dp p) = get dp) →
      get (populateFromRow {} headers values) =
        ((headers.zip values).lookup name).getD (get {}) := by
    intro get name hset hother
    have hset' : ∀ dp val, get (populateField dp (name, val)) = id val := hset
    have h := AssocList.foldl_lookup hset' hother hkeys {}
    rwa [Option.map_id] at h
  have hnumber : ∀ (get : DataPoint → Double) (name : Bytes),
      (∀ dp val, get (populateField dp (name, val)) = readCoordinate val) →
      (∀ dp (p : Bytes × Bytes), p.1 ≠ name → get (populateField dp p) = get dp) →
      get (populateFromRow {} headers values) =
        (((headers.zip values).lookup name).map readCoordinate).getD (get {}) :=
    fun get name hset hother => AssocList.foldl_lookup hset hother hkeys {}
  refine DataPoint.ext (hstring _ (bytes "DATE") (fun _ _ => rfl) ?_)
    (hstring _ (bytes "STATION") (fun _ _ => rfl) ?_) (hstring _ (bytes "NAME") (fun _ _ => rfl) ?_)
    (hnumber _ (bytes "LATITUDE") (fun _ _ => rfl) ?_)
    (hnumber _ (bytes "LONGITUDE") (fun _ _ => rfl) ?_)
    (hnumber _ (bytes "ELEVATION") (fun _ _ => rfl) ?_) (foldl_attributes _ {})
  -- a field of another name leaves the member alone
  all_goals
    intro dp p hp
    unfold populateField
    dsimp only
    split_ifs
    all_goals first | rfl | contradiction

end NceiCpp.Models
