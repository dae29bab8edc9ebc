import NceiCpp.Core.CsvParser
import NceiCpp.Models.ClimateIndex

/-!
# The CSV feeds

Model of `deserialize_gistemp_csv` and `deserialize_nsidc_sea_ice_csv` in
`src/models/climate_index.cpp`. A column index is an `int`, -1 for a column that is absent;
it is a plain integer here, as no row has `2 ^ 31` cells.

* `gistempRows_eq`: the loop over the rows is a search for the header and then a filter.
-/

namespace NceiCpp.Models

open DelimitedText NceiCpp.Core

abbrev CsvRow := List Bytes

structure GistempSeries where
  annual : List ClimatePoint := []
  deriving DecidableEq

structure SeaIceSeries where
  monthly : Bool := true
  region : Bytes := bytes "arctic"
  extent : List ClimatePoint := []
  deriving DecidableEq

/-- `header_index` (lines 59–66). The `int` is unbounded here: no header has `2 ^ 31` cells. -/
def headerIndex (header : CsvRow) (name : Bytes) : ℤ :=
  match header.findIdx? fun cell => trim cell = name with
  | some i => i
  | none => -1

/-- `row[static_cast<std::size_t>(col)]`. -/
def cell (row : CsvRow) (col : ℤ) : Bytes := row.getD col.toNat []

/-- `row.size() <= static_cast<std::size_t>(std::max(a, b))`. -/
def tooShort (row : CsvRow) (a b : ℤ) : Bool := row.length ≤ (max a b).toNat

/-! ## GISTEMP -/

/-- The locals of `deserialize_gistemp_csv` (lines 131–137). -/
structure GistempState where
  parsed : GistempSeries := {}
  yearCol : ℤ := -1
  jdCol : ℤ := -1
  inData : Bool := false

/-- The point a data row adds (lines 152–162). -/
def gistempPoint (yearCol jdCol : ℤ) (row : CsvRow) : Option ClimatePoint :=
  if tooShort row yearCol jdCol then none
  else
    let yr := trim (cell row yearCol)
    if !yr.head?.any isDigit then none
    else (parseValue (cell row jdCol)).map fun v => { period := yr, value := v }

/-- The body of the loop (lines 138–163). -/
def gistempRow (st : GistempState) (row : CsvRow) : GistempState :=
  if row.isEmpty then st
  else if !st.inData then
    let yc := headerIndex row (bytes "Year")
    let jc := headerIndex row (bytes "J-D")
    if yc ≥ 0 ∧ jc ≥ 0 then { st with yearCol := yc, jdCol := jc, inData := true } else st
  else
    match gistempPoint st.yearCol st.jdCol row with
    | some p => { st with parsed := { annual := st.parsed.annual ++ [p] } }
    | none => st

/-- `deserialize_gistemp_csv` (lines 130–169): the result and the new `out`. -/
def deserializeGistempCsv (body : Bytes) (out : GistempSeries) : Result Unit × GistempSeries :=
  let st := (parse .comma body).foldl gistempRow {}
  if st.parsed.annual = [] then
    (.error (Error.parse (bytes "GISTEMP: no annual J-D values")), out)
  else (.ok (), st.parsed)

/-! ## NSIDC -/

/-- The column indices of `deserialize_nsidc_sea_ice_csv`. -/
structure SeaIceColumns where
  year : ℤ
  extent : ℤ
  month : ℤ
  day : ℤ

/-- The columns of a header (lines 181–184). -/
def seaIceColumns (monthly : Bool) (header : CsvRow) : SeaIceColumns where
  year := headerIndex header (bytes (if monthly then "year" else "Year"))
  extent := headerIndex header (bytes (if monthly then "extent" else "Extent"))
  month := headerIndex header (bytes (if monthly then "mo" else "Month"))
  day := headerIndex header (bytes "Day")

/-- One optional part of a period (lines 203–210 and 211–218). -/
def appendPart (row : CsvRow) (col : ℤ) (period : Bytes) : Bytes :=
  if col ≥ 0 ∧ (row.length : ℤ) > col then
    let m := trim (cell row col)
    if m.length = 1 then period ++ bytes "-0" ++ m
    else if m ≠ [] then period ++ bytes "-" ++ m
    else period
  else period

/-- `extent <= 0.0`. -/
def nonPositive : Double → Bool
  | .finite v => v ≤ 0
  | .infinity negative => negative
  | .nan => false

/-- The point a data row adds (lines 191–219). -/
def seaIcePoint (monthly : Bool) (cols : SeaIceColumns) (row : CsvRow) : Option ClimatePoint :=
  if tooShort row cols.year cols.extent then none
  else
    match parseValue (cell row cols.extent) with
    | none => none
    | some extent =>
      if nonPositive extent then none
      else
        let y := trim (cell row cols.year)
        if y = [] then none
        else
          let period := appendPart row cols.month y
          let period := if monthly then period else appendPart row cols.day period
          some { period := period, value := extent }

/-- `deserialize_nsidc_sea_ice_csv` (lines 171–226): the result and the new `out`. -/
def deserializeNsidcSeaIceCsv (body : Bytes) (monthly : Bool) (out : SeaIceSeries) :
    Result Unit × SeaIceSeries :=
  match parse .comma body with
  | [] => (.error (Error.parse (bytes "NSIDC: empty CSV")), out)
  | header :: rows =>
    let cols := seaIceColumns monthly header
    if cols.year < 0 ∨ cols.extent < 0 then
      (.error (Error.parse (bytes "NSIDC: unrecognized CSV header")), out)
    else
      let extent := rows.filterMap (seaIcePoint monthly cols)
      if extent = [] then (.error (Error.parse (bytes "NSIDC: no usable extent rows")), out)
      else (.ok (), { monthly := monthly, extent := extent })

/-! ## The rows of GISTEMP -/

/-- A row with a cell of both names. -/
def isGistempHeader (row : CsvRow) : Bool :=
  headerIndex row (bytes "Year") ≥ 0 ∧ headerIndex row (bytes "J-D") ≥ 0

/-- The first header and the rows behind it. -/
def gistempTable : List CsvRow → Option (CsvRow × List CsvRow)
  | [] => none
  | row :: rows => if isGistempHeader row then some (row, rows) else gistempTable rows

/-- The points of the rows behind the header. -/
def gistempRows (rows : List CsvRow) : List ClimatePoint :=
  match gistempTable rows with
  | none => []
  | some (header, data) =>
    data.filterMap
      (gistempPoint (headerIndex header (bytes "Year")) (headerIndex header (bytes "J-D")))

theorem gistempPoint_nil (yearCol jdCol : ℤ) : gistempPoint yearCol jdCol [] = none := by
  simp [gistempPoint, tooShort]

/-- Behind the header every row adds its point. -/
theorem foldl_gistempRow_data (rows : List CsvRow) (st : GistempState) (h : st.inData = true) :
    (rows.foldl gistempRow st).parsed.annual =
      st.parsed.annual ++ rows.filterMap (gistempPoint st.yearCol st.jdCol) := by
  induction rows generalizing st with
  | nil => simp
  | cons row rows ih =>
    rw [List.foldl_cons, List.filterMap_cons]
    by_cases hempty : row = []
    · rw [hempty, gistempPoint_nil]
      exact ih st h
    · have hstep : gistempRow st row =
          match gistempPoint st.yearCol st.jdCol row with
          | some p => { st with parsed := { annual := st.parsed.annual ++ [p] } }
          | none => st := by
        simp [gistempRow, hempty, h]
      rw [hstep]
      cases gistempPoint st.yearCol st.jdCol row with
      | none => exact ih st h
      | some p =>
        dsimp only
        rw [ih { st with parsed := { annual := st.parsed.annual ++ [p] } } h, List.append_assoc]
        rfl

theorem gistempRows_eq (rows : List CsvRow) :
    (rows.foldl gistempRow {}).parsed.annual = gistempRows rows := by
  induction rows with
  | nil => rfl
  | cons row rows ih =>
    rw [List.foldl_cons]
    unfold gistempRows at ih ⊢
    rw [gistempTable]
    by_cases hheader : isGistempHeader row = true
    · have hempty : row ≠ [] := by
        rintro rfl
        revert hheader
        decide
      have hboth : headerIndex row (bytes "Year") ≥ 0 ∧ headerIndex row (bytes "J-D") ≥ 0 :=
        of_decide_eq_true hheader
      have hstep : gistempRow {} row =
          { yearCol := headerIndex row (bytes "Year"), jdCol := headerIndex row (bytes "J-D"),
            inData := true } := by
        simp [gistempRow, hempty, hboth]
      rw [if_pos hheader, hstep, foldl_gistempRow_data _ _ rfl]
      rfl
    · have hnot : ¬(headerIndex row (bytes "Year") ≥ 0 ∧ headerIndex row (bytes "J-D") ≥ 0) :=
        fun h => hheader (decide_eq_true h)
      have hstep : gistempRow {} row = {} := by
        by_cases hempty : row = []
        · rw [hempty]
          rfl
        · simp only [gistempRow, hnot, if_false, Bool.not_false, if_true, ite_self]
      rw [if_neg hheader, hstep, ih]

theorem isGistempHeader_of_table {rows data : List CsvRow} {header : CsvRow}
    (h : gistempTable rows = some (header, data)) : isGistempHeader header = true := by
  induction rows with
  | nil => cases h
  | cons row rows ih =>
    rw [gistempTable] at h
    split_ifs at h with hheader
    · cases h
      exact hheader
    · exact ih h

/-! ## The results -/

theorem deserializeGistempCsv_eq (body : Bytes) (out : GistempSeries) :
    deserializeGistempCsv body out =
      if gistempRows (parse .comma body) = [] then
        (.error (Error.parse (bytes "GISTEMP: no annual J-D values")), out)
      else (.ok (), { annual := gistempRows (parse .comma body) }) := by
  unfold deserializeGistempCsv
  rw [← gistempRows_eq]

/-- Text in quotes may have any characters. -/
theorem plain_of_quoted (s : Bytes) : true = false → ∀ c ∈ s, c ≠ Delimiter.comma.dialect.delim ∧
    c ≠ Delimiter.comma.dialect.quote ∧ c ≠ Delimiter.comma.dialect.cr ∧
    c ≠ Delimiter.comma.dialect.lf := nofun

/-- A row of quoted cells. -/
def quotedRow (row : CsvRow) (h : row ≠ []) : Row Delimiter.comma.dialect where
  cells := row.map fun s => { text := s, quoted := true, plain := plain_of_quoted s }
  nonempty := by simpa using h
  crlf := false

end NceiCpp.Models
