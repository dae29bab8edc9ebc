import NceiCpp.Models.TableFormats

/-!
# The tables of the Data Service as they are published

The record of a row, stated of its cells, and the parser of delimited text.

* `Record.dataPoint`: the record of a row, field by field.
* `parseDelimited_tableBody`: a written table is parsed to its records.
-/

namespace NceiCpp.Models

open DelimitedText NceiCpp.Core

variable {columns : List Bytes}

/-- The text of the cell in a column, nothing if there is no such column. -/
def Record.text (r : Record columns) (name : Bytes) : Bytes :=
  ((r.named.lookup name).map Cell.bytes).getD []

/-- The number of the cell in a column of coordinates, 0 if there is no such column. -/
def Record.coordinate (r : Record columns) (name : Bytes) : Double :=
  match r.named.lookup name with
  | some (.decimal d _) => .finite d.value
  | _ => 0

/-- The record of a row. -/
def Record.dataPoint (r : Record columns) : DataPoint where
  date := r.text (bytes "DATE")
  station := r.text (bytes "STATION")
  name := r.text (bytes "NAME")
  latitude := r.coordinate (bytes "LATITUDE")
  longitude := r.coordinate (bytes "LONGITUDE")
  elevation := r.coordinate (bytes "ELEVATION")
  attributes := (r.named.filter fun p => p.1 ∉ knownFields).map fun p => (p.1, p.2.bytes)

def Table.collection (t : Table) : DataPointCollection where
  columns := t.columns
  records := t.records.map Record.dataPoint

/-- The text of a table. -/
def TableBody (delim : Delimiter) (t : Table) (body : Bytes) : Prop :=
  ∃ (written : List (Row delim.dialect)) (terminated : Bool),
    written.map Row.fields = t.fields ∧ body = render terminated written

theorem Record.readCoordinate_eq (hcolumns : columns.Nodup) (r : Record columns) {name : Bytes}
    (hname : name ∈ coordinateColumns) :
    (((columns.zip (r.cells.map Cell.bytes)).lookup name).map readCoordinate).getD 0 =
      r.coordinate name := by
  rw [lookup_fields, Record.coordinate]
  cases h : r.named.lookup name with
  | none => rfl
  | some c =>
    obtain ⟨d, range, rfl⟩ := r.lookup_decimal hcolumns hname h
    simp [Cell.bytes, readCoordinate, stod_text range]

theorem populateFromRow_record (hcolumns : columns.Nodup) (r : Record columns) :
    populateFromRow {} columns (r.cells.map Cell.bytes) = r.dataPoint := by
  have hattributes : (columns.zip (r.cells.map Cell.bytes)).filter (fun p => p.1 ∉ knownFields) =
      r.dataPoint.attributes := by
    have hzip : columns.zip (r.cells.map Cell.bytes) = r.named.map fun p => (p.1, p.2.bytes) := by
      rw [List.zip_map_right]
      rfl
    rw [hzip, List.filter_map]
    rfl
  rw [populateFromRow_eq hcolumns]
  dsimp only
  rw [r.readCoordinate_eq hcolumns (by decide), r.readCoordinate_eq hcolumns (by decide),
    r.readCoordinate_eq hcolumns (by decide), hattributes, lookup_fields, lookup_fields,
    lookup_fields]
  rfl

/-- The attributes of a record are the cells of the other columns. -/
theorem Record.get_dataPoint (r : Record columns) (key : Bytes) :
    r.dataPoint.get key =
      if key ∈ knownFields then none else (r.named.lookup key).map Cell.bytes := by
  rw [DataPoint.get, Record.dataPoint]
  dsimp only
  rw [AssocList.lookup_map_snd, AssocList.lookup_filter (fun k => k ∉ knownFields)]
  by_cases hkey : key ∈ knownFields <;> simp [hkey]

theorem parseDelimited_tableBody {delim : Delimiter} {t : Table} {body : Bytes}
    (h : TableBody delim t body) : parseDelimited body delim = t.collection := by
  obtain ⟨written, terminated, hwritten, rfl⟩ := h
  have hblank : ∀ r ∈ written, r.isBlank = false := by
    intro r hr
    apply Row.isBlank_eq_false
    have hmem : r.fields ∈ t.fields := hwritten ▸ List.mem_map_of_mem hr
    rcases List.mem_cons.mp hmem with heq | hmem
    · rw [heq]
      exact t.two_columns
    · obtain ⟨record, -, heq⟩ := List.mem_map.mp hmem
      rw [← heq, List.length_map, record.length_eq]
      exact t.two_columns
  rw [parseDelimited, parse_rows delim terminated hblank, hwritten, Table.fields]
  dsimp only
  rw [List.map_map, Table.collection]
  congr 1
  exact List.map_congr_left fun r _ => populateFromRow_record t.nodup r

end NceiCpp.Models
