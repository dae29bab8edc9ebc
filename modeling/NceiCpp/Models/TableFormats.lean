import NceiCpp.Common.Strtod
import NceiCpp.Models.DataPoint

/-!
# One table, two formats

A table of observations written as comma-separated text and as a JSON array of objects.
The data of the two is decoded by different code. Coordinates are text in one format and
numbers in the other; a coordinate that is a JSON string is not read.

* `csv_json_same`: the two decoders agree on every table, but for coordinates that are JSON
  strings, which are `0.0`.
* `csv_json_strings_differ`: so the two differ on a table with a latitude.
-/

namespace NceiCpp.Models

open NceiCpp.Core DelimitedText

/-- The columns of the coordinates. -/
def coordinateColumns : List Bytes := [bytes "LATITUDE", bytes "LONGITUDE", bytes "ELEVATION"]

/-- A cell: any text, or a plain decimal number in the range of `double`. -/
inductive Cell
  | text (s : Bytes)
  | decimal (d : Decimal) (range : StrtodRange d.value)

namespace Cell

def isDecimal : Cell → Bool
  | text _ => false
  | decimal _ _ => true

/-- The text of the cell. -/
def bytes : Cell → Bytes
  | text s => s
  | decimal d _ => d.text

/-- The cell in JSON. A decimal is a number, which denotes what its text does, or a string. -/
def json (numbers : Bool) : Cell → Json
  | text s => .string s
  | decimal d _ => if numbers then .number d.value else .string d.text

end Cell

/-- A row of a table with these columns. -/
structure Record (columns : List Bytes) where
  cells : List Cell
  length_eq : cells.length = columns.length
  coordinates : ∀ p ∈ columns.zip cells, p.2.isDecimal = true ↔ p.1 ∈ coordinateColumns

structure Table where
  columns : List Bytes
  nodup : columns.Nodup
  two_columns : 2 ≤ columns.length
  records : List (Record columns)

/-- The named cells of a row. -/
def Record.named {columns : List Bytes} (r : Record columns) : List (Bytes × Cell) :=
  columns.zip r.cells

/-- The members of the JSON object of a row. -/
def Record.members {columns : List Bytes} (json : Cell → Json) (r : Record columns) :
    List (Bytes × Json) := r.named.map fun p => (p.1, json p.2)

/-- The rows of the text, the header first. -/
def Table.fields (t : Table) : List (List Bytes) :=
  t.columns :: t.records.map fun r => r.cells.map Cell.bytes

/-- The items of the array of `t`: one object a row, its members in any order. -/
def Table.IsArray (t : Table) (json : Cell → Json) (items : List Json) : Prop :=
  List.Forall₂ (fun r item => ∃ members, item = .object members ∧
    members.Perm (r.members json)) t.records items

/-- Two data points of one row have the same members and the same `get`, but for the
    coordinates of `q` if they were no JSON numbers. The order of the attributes may differ. -/
structure SameRow (numbers : Bool) (p q : DataPoint) : Prop where
  date : q.date = p.date
  station : q.station = p.station
  name : q.name = p.name
  latitude : q.latitude = if numbers then p.latitude else 0
  longitude : q.longitude = if numbers then p.longitude else 0
  elevation : q.elevation = if numbers then p.elevation else 0
  get : ∀ key, q.get key = p.get key

/-! ## Text -/

/-- Parsing a written table gives the header and the rows. -/
theorem parse_table {t : Table} (terminated : Bool) {written : List (Row Delimiter.comma.dialect)}
    (h : written.map Row.fields = t.fields) :
    parse .comma (render terminated written) = t.fields := by
  have hblank : ∀ r ∈ written, r.isBlank = false := by
    intro r hr
    apply Row.isBlank_eq_false
    have hmem : r.fields ∈ t.fields := h ▸ List.mem_map_of_mem hr
    rcases List.mem_cons.mp hmem with heq | hmem
    · rw [heq]
      exact t.two_columns
    · obtain ⟨record, -, heq⟩ := List.mem_map.mp hmem
      rw [← heq, List.length_map, record.length_eq]
      exact t.two_columns
  rw [parse_rows .comma terminated hblank, h]

/-! ## Rows and objects -/

variable {columns : List Bytes}

theorem Record.lookup_text (hcolumns : columns.Nodup) (r : Record columns) {name : Bytes}
    (hname : name ∉ coordinateColumns) {c : Cell} (h : r.named.lookup name = some c) :
    ∃ s, c = .text s := by
  have hmem := (AssocList.lookup_eq_some_iff (nodup_zip hcolumns r.cells)).mp h
  have hiff := r.coordinates _ hmem
  cases c with
  | text s => exact ⟨s, rfl⟩
  | decimal d _ => exact absurd (hiff.mp rfl) hname

theorem Record.lookup_decimal (hcolumns : columns.Nodup) (r : Record columns) {name : Bytes}
    (hname : name ∈ coordinateColumns) {c : Cell} (h : r.named.lookup name = some c) :
    ∃ d range, c = .decimal d range := by
  have hmem := (AssocList.lookup_eq_some_iff (nodup_zip hcolumns r.cells)).mp h
  have hiff := r.coordinates _ hmem
  cases c with
  | text s => exact absurd (hiff.mpr hname) (by simp [Cell.isDecimal])
  | decimal d range => exact ⟨d, range, rfl⟩

section Members

variable {numbers : Bool} {r : Record columns} {members : List (Bytes × Json)}

theorem lookup_fields (r : Record columns) (key : Bytes) :
    (columns.zip (r.cells.map Cell.bytes)).lookup key = (r.named.lookup key).map Cell.bytes := by
  rw [← AssocList.lookup_map_snd, List.zip_map_right]
  rfl

theorem findMember_members (hcolumns : columns.Nodup)
    (hperm : members.Perm (r.members (Cell.json numbers))) (key : Bytes) :
    findMember members key = (r.named.lookup key).map (Cell.json numbers) := by
  have hkeys : ((r.members (Cell.json numbers)).map Prod.fst).Nodup := by
    rw [Record.members, List.map_map]
    exact nodup_zip hcolumns r.cells
  rw [findMember, ← AssocList.lookup_perm hkeys hperm.symm, Record.members,
    AssocList.lookup_map_snd]

theorem getString_members (hcolumns : columns.Nodup)
    (hperm : members.Perm (r.members (Cell.json numbers)))
    {name : Bytes} (hname : name ∉ coordinateColumns) :
    getString (.object members) name =
      ((columns.zip (r.cells.map Cell.bytes)).lookup name).getD [] := by
  rw [lookup_fields, getString, findMember_members hcolumns hperm]
  cases h : r.named.lookup name with
  | none => rfl
  | some c =>
    obtain ⟨s, rfl⟩ := r.lookup_text hcolumns hname h
    rfl

theorem getDouble_members (hcolumns : columns.Nodup)
    (hperm : members.Perm (r.members (Cell.json numbers)))
    {name : Bytes} (hname : name ∈ coordinateColumns) :
    getDouble (.object members) name = if numbers then
      (((columns.zip (r.cells.map Cell.bytes)).lookup name).map readCoordinate).getD 0 else 0 := by
  rw [lookup_fields, getDouble, findMember_members hcolumns hperm]
  cases h : r.named.lookup name with
  | none => cases numbers <;> rfl
  | some c =>
    obtain ⟨d, range, rfl⟩ := r.lookup_decimal hcolumns hname h
    cases numbers <;> simp [Cell.bytes, Cell.json, readCoordinate, stod_text range]

theorem attributes_members (hcolumns : columns.Nodup)
    (hperm : members.Perm (r.members (Cell.json numbers)))
    (write : Json → Option Bytes) (key : Bytes) :
    ((members.filter fun m => m.1 ∉ knownFields).map fun m =>
        (m.1, attributeText write m.2)).lookup key =
      ((columns.zip (r.cells.map Cell.bytes)).filter fun p => p.1 ∉ knownFields).lookup key := by
  rw [AssocList.lookup_map_snd, AssocList.lookup_filter (fun k => k ∉ knownFields),
    AssocList.lookup_filter (fun k => k ∉ knownFields), lookup_fields, ← findMember,
    findMember_members hcolumns hperm]
  split_ifs with hkey
  · have hcoordinate : key ∉ coordinateColumns := by
      intro hmem
      apply of_decide_eq_true hkey
      fin_cases hmem <;> decide
    cases h : r.named.lookup key with
    | none => rfl
    | some c =>
      obtain ⟨s, rfl⟩ := r.lookup_text hcolumns hcoordinate h
      rfl
  · rfl

/-- A row and its JSON object are stored as the same data point. -/
theorem populate_same (hcolumns : columns.Nodup)
    (hperm : members.Perm (r.members (Cell.json numbers)))
    (write : Json → Option Bytes) :
    SameRow numbers (populateFromRow {} columns (r.cells.map Cell.bytes))
      (populateFromObject write (.object members) {}) := by
  rw [populateFromRow_eq hcolumns]
  exact ⟨getString_members hcolumns hperm (by decide), getString_members hcolumns hperm (by decide),
    getString_members hcolumns hperm (by decide), getDouble_members hcolumns hperm (by decide),
    getDouble_members hcolumns hperm (by decide), getDouble_members hcolumns hperm (by decide),
    attributes_members hcolumns hperm write⟩

end Members

/-! ## The result -/

/-- The text and the JSON array of a table are decoded to the same records in the same order,
    however the text is quoted and terminated; coordinates that are JSON strings are `0.0`. -/
theorem csv_json_same (t : Table) (terminated : Bool) (written : List (Row Delimiter.comma.dialect))
    (hwritten : written.map Row.fields = t.fields) (glaze : GlazeGeneric) (body : Bytes)
    (numbers : Bool) (items : List Json) (hread : glaze.read body = .ok (.array items))
    (hitems : t.IsArray (Cell.json numbers) items) (out : DataPointCollection) :
    ∃ out', deserializeDataPointCollection glaze body out = (.ok (), out') ∧
      List.Forall₂ (SameRow numbers) (parseCsvData (render terminated written)).records
        out'.records := by
  have hcsv : (parseCsvData (render terminated written)).records =
      t.records.map fun r => populateFromRow {} t.columns (r.cells.map Cell.bytes) := by
    rw [parseCsvData, parseDelimited, parse_table terminated hwritten, Table.fields]
    dsimp only
    rw [List.map_map]
    rfl
  unfold deserializeDataPointCollection
  rw [hread]
  refine ⟨_, rfl, ?_⟩
  rw [hcsv, List.forall₂_map_left_iff, List.forall₂_map_right_iff]
  refine hitems.imp ?_
  rintro r _ ⟨members, rfl, hperm⟩
  exact populate_same t.nodup hperm glaze.write

/-! ## A table with a latitude -/

/-- The number `47.5`. -/
def stationLatitude : Decimal := ⟨false, [4, 7], [5], by decide, by decide⟩

theorem stationLatitude_value : stationLatitude.value = 95 / 2 := by
  norm_num [stationLatitude, Decimal.value, DecimalDigits.value]

theorem stationLatitude_range : StrtodRange stationLatitude.value := by
  rw [stationLatitude_value]
  exact strtodRange_of_le (by norm_num) (by norm_num)

/-- The columns `STATION` and `LATITUDE` and the row `A`, `47.5`. -/
def stationTable : Table where
  columns := [bytes "STATION", bytes "LATITUDE"]
  nodup := by decide
  two_columns := le_rfl
  records := [
    { cells := [.text (bytes "A"), .decimal stationLatitude stationLatitude_range]
      length_eq := rfl
      coordinates := by decide }]

/-- `stationTable` with every field in quotes. -/
def stationRows : List (Row Delimiter.comma.dialect) :=
  stationTable.fields.attach.map fun row =>
    { cells := row.1.map fun s => { text := s, quoted := true, plain := nofun }
      nonempty := by
        have hne : ∀ row ∈ stationTable.fields, row ≠ [] := by decide
        simpa using hne row.1 row.2
      crlf := true }

theorem stationRows_fields : stationRows.map Row.fields = stationTable.fields := by rfl

/-- The array of `stationTable`. -/
def stationItems (latitude : Json) : List Json :=
  [.object [(bytes "STATION", .string (bytes "A")), (bytes "LATITUDE", latitude)]]

/-- Glaze on the JSON text of `stationTable`. -/
def stationGlaze (body : Bytes) (latitude : Json) : GlazeGeneric where
  read b := if b = body then .ok (.array (stationItems latitude)) else .error (bytes "syntax_error")
  write _ := none

theorem stationGlaze_read (body : Bytes) (latitude : Json) :
    (stationGlaze body latitude).read body = .ok (.array (stationItems latitude)) := if_pos rfl

/-- With its latitude as a number. -/
theorem csv_json_same_stationTable :
    let body := bytes "[\x7b\"STATION\":\"A\",\"LATITUDE\":47.5\x7d]"
    ∃ out', deserializeDataPointCollection (stationGlaze body (.number (95 / 2))) body {} =
        (.ok (), out') ∧
      List.Forall₂ (SameRow true) (parseCsvData (render true stationRows)).records
        out'.records := by
  intro body
  refine csv_json_same stationTable true stationRows stationRows_fields _ body true
    (stationItems (.number (95 / 2))) (stationGlaze_read _ _) ?_ {}
  refine .cons ⟨_, rfl, ?_⟩ .nil
  rw [← stationLatitude_value]
  exact List.Perm.refl _

/-- With its latitude as a string: the text has it, the array has `0.0`. -/
theorem csv_json_strings_differ :
    let body := bytes "[\x7b\"STATION\":\"A\",\"LATITUDE\":\"47.5\"\x7d]"
    let glaze := stationGlaze body (.string (bytes "47.5"))
    let items := stationItems (.string (bytes "47.5"))
    stationRows.map Row.fields = stationTable.fields ∧
      glaze.read body = .ok (.array items) ∧ stationTable.IsArray (Cell.json false) items ∧
      (parseCsvData (render true stationRows)).records.map DataPoint.latitude =
        [.finite (95 / 2)] ∧
      (deserializeDataPointCollection glaze body {}).2.records.map DataPoint.latitude =
        [.finite 0] := by
  intro body glaze items
  refine ⟨stationRows_fields, stationGlaze_read _ _, .cons ⟨_, rfl, List.Perm.refl _⟩ .nil, ?_, ?_⟩
  · rw [parseCsvData, parseDelimited, parse_table true stationRows_fields, ← stationLatitude_value]
    show [readCoordinate stationLatitude.text] = _
    rw [readCoordinate, stod_text stationLatitude_range]
    rfl
  · rw [deserializeDataPointCollection, stationGlaze_read]
    rfl

end NceiCpp.Models
