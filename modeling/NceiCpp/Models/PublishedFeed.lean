import NceiCpp.Core.DateStrings
import NceiCpp.Models.FeedLayout
import NceiCpp.Models.FeedPeriods

/-!
# The feeds as they are published

A feed is a table of measurements, written as text with the columns, the padding, the quotes
and the line ends its publisher likes.

* `Extent`, `SeaIceFile`: the measurements of sea ice, and a table that has them.
* `deserialize_seaIceBody`: the parser gives back the measurements.
* `seaIcePoints_sorted`: in the order of their dates the periods are in order, too.
* `Anomaly`, `GistempFile`, `deserialize_gistempBody`: the same for the annual means.
* `CagBody`, `deserialize_cagBody`: the same for Climate at a Glance.
-/

namespace NceiCpp.Models

open DelimitedText NceiCpp.Core

/-! ## Sea ice -/

/-- The extent of one month or day. Missing ones are published as a negative number; an extent
    of 0 is dropped as well. -/
structure Extent where
  year : ℕ
  month : ℕ
  day : ℕ
  value : ℚ

/-- `YYYY-MM`, and `YYYY-MM-DD` for daily data. -/
def Extent.period (monthly : Bool) (e : Extent) : Bytes :=
  formatPadded 4 e.year ++ ch '-' :: (formatPadded 2 e.month ++
    if monthly then [] else ch '-' :: formatPadded 2 e.day)

/-- The points of the extents that are not missing. -/
def seaIcePoints (monthly : Bool) (data : List Extent) : List ClimatePoint :=
  (data.filter fun e => 0 < e.value).map fun e =>
    { period := e.period monthly, value := .finite e.value }

theorem seaIcePoints_cons (monthly : Bool) (e : Extent) (data : List Extent) :
    seaIcePoints monthly (e :: data) =
      if 0 < e.value then
        { period := e.period monthly, value := .finite e.value } :: seaIcePoints monthly data
      else seaIcePoints monthly data := by
  rw [seaIcePoints, List.filter_cons]
  simp only [decide_eq_true_eq]
  split_ifs <;> rfl

/-- Where a table has its columns. -/
structure SeaIceLayout (n : ℕ) where
  year : Fin n
  month : Fin n
  day : Fin n
  extent : Fin n

/-- The columns have the names of monthly or daily data. -/
structure SeaIceLayout.Names {n : ℕ} (c : SeaIceLayout n) (monthly : Bool)
    (header : Fin n → Bytes) : Prop where
  year : trim (header c.year) = bytes (if monthly then "year" else "Year")
  month : trim (header c.month) = bytes (if monthly then "mo" else "Month")
  day : monthly = false → trim (header c.day) = bytes "Day"
  extent : trim (header c.extent) = bytes (if monthly then "extent" else "Extent")

/-- The cell has the number `k` in one or two digits, between blanks. -/
def TwoDigits (text : Bytes) (k : ℕ) : Prop :=
  (DigitText 1 (trim text) ∨ DigitText 2 (trim text)) ∧ number (trim text) = k

/-- The cell has the year in four digits, between blanks. -/
def FourDigits (text : Bytes) (k : ℕ) : Prop :=
  DigitText 4 (trim text) ∧ number (trim text) = k

/-- The row has the measurement `e`, and whatever it likes in other columns. -/
structure SeaIceLayout.Writes {n : ℕ} (c : SeaIceLayout n) (monthly : Bool) (row : Fin n → Bytes)
    (e : Extent) : Prop where
  year : FourDigits (row c.year) e.year
  month : TwoDigits (row c.month) e.month
  day : monthly = false → TwoDigits (row c.day) e.day
  extent : StringSpells e.value (row c.extent)
  inRange : 0 < e.value → InRange e.value

/-- The table has the measurements `data`. -/
structure SeaIceFile {n : ℕ} (monthly : Bool) (t : FeedTable n) (data : List Extent) : Prop where
  layout : ∃ c : SeaIceLayout n, c.Names monthly t.header ∧
    List.Forall₂ (c.Writes monthly) t.rows data

section cells

variable {n : ℕ}

theorem headerIndex_ofFn {header : Fin n → Bytes}
    (hdistinct : Function.Injective fun i => trim (header i)) {i : Fin n} {name : Bytes}
    (h : trim (header i) = name) : headerIndex (List.ofFn header) name = i := by
  have hfind : (List.ofFn header).findIdx? (fun cell => trim cell = name) = some i.val := by
    rw [List.findIdx?_eq_some_iff_getElem]
    refine ⟨by simp, by simpa using h, fun j hj => ?_⟩
    have hne : trim (header ⟨j, hj.trans i.isLt⟩) ≠ name := by
      intro hj'
      have := hdistinct (hj'.trans h.symm)
      rw [Fin.ext_iff] at this
      exact hj.ne this
    simpa using hne
  rw [headerIndex, hfind]

theorem cell_ofFn (row : Fin n → Bytes) (i : Fin n) : cell (List.ofFn row) (i : ℤ) = row i := by
  simp [cell]

theorem present_ofFn (row : Fin n → Bytes) (i : Fin n) :
    0 ≤ (i : ℤ) ∧ (i : ℤ) < (List.ofFn row).length := by
  rw [List.length_ofFn]
  omega

end cells

/-- Padding is what `std::format` does. -/
theorem TwoDigits.padPart_eq {text : Bytes} {k : ℕ} (h : TwoDigits text k) :
    padPart (trim text) = formatPadded 2 k := by
  obtain ⟨hdigits, rfl⟩ := h
  have htwo := digitText_padPart.mpr hdigits
  have hformat := formatPadded_text (htwo.ne_nil (by decide)) htwo.2
  rw [htwo.1] at hformat
  rw [← number_padPart]
  exact hformat.symm

theorem FourDigits.trim_eq {text : Bytes} {k : ℕ} (h : FourDigits text k) :
    trim text = formatPadded 4 k := by
  obtain ⟨hdigits, rfl⟩ := h
  have hformat := formatPadded_text (hdigits.ne_nil (by decide)) hdigits.2
  rw [hdigits.1] at hformat
  exact hformat.symm

/-- The number in a cell, at its index in the row. -/
theorem TwoDigits.numberIn {n : ℕ} {row : Fin n → Bytes} {i : Fin n} {k : ℕ}
    (h : TwoDigits (row i) k) : NumberIn (List.ofFn row) i k := by
  obtain ⟨hdigits, hnumber⟩ := h
  have hne : trim (row i) ≠ [] ∧ ∀ c ∈ trim (row i), isDigit c = true := by
    rcases hdigits with h | h
    · exact ⟨h.ne_nil (by decide), h.2⟩
    · exact ⟨h.ne_nil (by decide), h.2⟩
  rw [← cell_ofFn row i] at hne hnumber
  exact ⟨present_ofFn row i, hne.1, hne.2, hnumber⟩

/-- Of a missing extent no point is made. -/
theorem StringSpells.positive {v : ℚ} {s : Bytes} (h : StringSpells v s)
    (hrange : 0 < v → InRange v) :
    (parseValue s).any (fun v => !nonPositive v) = decide (0 < v) ∧
      (0 < v → parseValue s = some (.finite v)) := by
  rcases h.parseValue_eq with ⟨-, hmarker, hnone⟩ | ⟨-, hvalue⟩
  · have hneg : ¬ 0 < v := by
      rcases hmarker with rfl | rfl <;> norm_num
    rw [hnone]
    exact ⟨by simp [hneg], fun hpos => absurd hpos hneg⟩
  · rw [hvalue]
    by_cases hpos : 0 < v
    · rw [if_pos (hrange hpos)]
      exact ⟨by simp [nonPositive, hpos], fun _ => rfl⟩
    · refine ⟨?_, fun h => absurd h hpos⟩
      split_ifs
      · simp [nonPositive, not_lt.mp hpos, hpos]
      · simpa using hpos

section seaIce

variable {n : ℕ} {c : SeaIceLayout n} {monthly : Bool}

/-- The columns the parser finds. -/
def SeaIceLayout.Found (c : SeaIceLayout n) (monthly : Bool) (cols : SeaIceColumns) : Prop :=
  cols.year = c.year ∧ cols.extent = c.extent ∧ cols.month = c.month ∧
    (monthly = false → cols.day = c.day)

/-- The year and the extent are two columns. -/
theorem SeaIceLayout.Names.two_le {header : Fin n → Bytes} (h : c.Names monthly header) :
    2 ≤ n := by
  have hne : c.year.val ≠ c.extent.val := by
    intro heq
    have hyear := h.year
    rw [Fin.ext heq, h.extent] at hyear
    revert hyear
    cases monthly <;> decide
  have := c.year.isLt
  have := c.extent.isLt
  omega

theorem SeaIceLayout.Names.found {t : FeedTable n} (h : c.Names monthly t.header) :
    c.Found monthly (seaIceColumns monthly (List.ofFn t.header)) :=
  ⟨headerIndex_ofFn t.distinct h.year, headerIndex_ofFn t.distinct h.extent,
    headerIndex_ofFn t.distinct h.month,
    fun hmonthly => headerIndex_ofFn t.distinct (h.day hmonthly)⟩

/-- A row gives the point of its measurement, unless that is missing. -/
theorem SeaIceLayout.Writes.point {row : Fin n → Bytes} {e : Extent} (h : c.Writes monthly row e)
    {cols : SeaIceColumns} (hfound : c.Found monthly cols) :
    seaIcePoint monthly cols (List.ofFn row) =
      if 0 < e.value then some { period := e.period monthly, value := .finite e.value }
      else none := by
  obtain ⟨hyear, hextent, hmonth, hday⟩ := hfound
  obtain ⟨hany, hpositive⟩ := h.extent.positive h.inRange
  have hshort : tooShort (List.ofFn row) cols.year cols.extent = false := by
    rw [hyear, hextent]
    exact tooShort_eq_false (present_ofFn row _).2 (present_ofFn row _).2 (present_ofFn row _).1
  have husable : usableRow cols (List.ofFn row) = decide (0 < e.value) := by
    have hne : (trim (row c.year)).isEmpty = false := by
      rw [List.isEmpty_eq_false_iff]
      exact h.year.1.ne_nil (by decide)
    rw [usableRow, hshort, hextent, hyear, cell_ofFn, cell_ofFn, hany, hne]
    simp
  rw [seaIcePoint_eq, husable]
  by_cases hpos : 0 < e.value
  · have hperiod : rowPeriod monthly cols (List.ofFn row) = e.period monthly := by
      rw [rowPeriod_eq (m := e.month) (d := e.day) (by rw [hmonth]; exact h.month.numberIn)
        (fun hmonthly => by rw [hday hmonthly]; exact (h.day hmonthly).numberIn), hyear, hmonth,
        cell_ofFn, cell_ofFn, h.year.trim_eq, h.month.padPart_eq, Extent.period]
      cases monthly with
      | true => rfl
      | false => rw [if_neg Bool.false_ne_true, if_neg Bool.false_ne_true, hday rfl, cell_ofFn,
          (h.day rfl).padPart_eq]
    rw [if_pos hpos, if_pos (decide_eq_true hpos), hextent, cell_ofFn, hpositive hpos, hperiod]
    rfl
  · rw [if_neg hpos, if_neg (by simpa using hpos)]

/-- The points of a table are those of its measurements. -/
theorem SeaIceFile.points {t : FeedTable n} {data : List Extent} (h : SeaIceFile monthly t data) :
    (t.rows.map List.ofFn).filterMap
      (seaIcePoint monthly (seaIceColumns monthly (List.ofFn t.header))) =
      seaIcePoints monthly data := by
  obtain ⟨c, hnames, hrows⟩ := h.layout
  have hfound := hnames.found
  generalize seaIceColumns monthly (List.ofFn t.header) = cols at hfound
  generalize t.rows = rows at hrows
  clear h
  induction hrows with
  | nil => rfl
  | cons hrow _ ih =>
    rw [List.map_cons, List.filterMap_cons, hrow.point hfound, seaIcePoints_cons, ih]
    split_ifs <;> rfl

/-- The text of a file with the measurements `data`. -/
def SeaIceBody (monthly : Bool) (data : List Extent) (body : Bytes) : Prop :=
  ∃ (n : ℕ) (t : FeedTable n) (written : List (Row Delimiter.comma.dialect)) (terminated : Bool),
    SeaIceFile monthly t data ∧ written.map Row.fields = t.csv ∧ body = render terminated written

/-- **Round trip.** Whatever the layout of a file is, and however it is written, the parser gives
    back the measurements that are not missing, in their order. -/
theorem deserialize_seaIceBody {data : List Extent} {body : Bytes}
    (h : SeaIceBody monthly data body) (out : SeaIceSeries) :
    deserializeNsidcSeaIceCsv body monthly out =
      if seaIcePoints monthly data = [] then
        (.error (Error.parse (bytes "NSIDC: no usable extent rows")), out)
      else (.ok (), { monthly := monthly, extent := seaIcePoints monthly data }) := by
  obtain ⟨n, t, written, terminated, hfile, hwritten, rfl⟩ := h
  obtain ⟨c, hnames, -⟩ := hfile.layout
  obtain ⟨hyear, hextent, -⟩ := hnames.found
  have hheader : ¬ ((seaIceColumns monthly (List.ofFn t.header)).year < 0 ∨
      (seaIceColumns monthly (List.ofFn t.header)).extent < 0) := by
    rw [hyear, hextent]
    omega
  unfold deserializeNsidcSeaIceCsv
  rw [FeedTable.parse hnames.two_le hwritten, FeedTable.csv]
  dsimp only
  rw [if_neg hheader, hfile.points]

/-- The date of `e` is before that of `e'`. -/
def Extent.Before (monthly : Bool) (e e' : Extent) : Prop :=
  e.year < e'.year ∨ (e.year = e'.year ∧
    (e.month < e'.month ∨ (e.month = e'.month ∧ monthly = false ∧ e.day < e'.day)))

theorem DigitText.number_lt {w : ℕ} {t : Bytes} (h : DigitText w t) : number t < 10 ^ w := by
  have hlt := DecimalDigits.value_lt (digitVal_lt_of_mem h.2)
  rwa [List.length_map, h.1] at hlt

theorem TwoDigits.lt {text : Bytes} {k : ℕ} (h : TwoDigits text k) : k < 10 ^ 2 := by
  obtain ⟨hdigits | hdigits, rfl⟩ := h
  · exact hdigits.number_lt.trans (by norm_num)
  · exact hdigits.number_lt

theorem FourDigits.lt {text : Bytes} {k : ℕ} (h : FourDigits text k) : k < 10 ^ 4 := by
  obtain ⟨hdigits, rfl⟩ := h
  exact hdigits.number_lt

/-- The numbers of a date have the widths of a period. -/
structure Extent.Fits (monthly : Bool) (e : Extent) : Prop where
  year : e.year < 10 ^ 4
  month : e.month < 10 ^ 2
  day : monthly = false → e.day < 10 ^ 2

theorem SeaIceLayout.Writes.fits {row : Fin n → Bytes} {e : Extent}
    (h : c.Writes monthly row e) : e.Fits monthly :=
  ⟨h.year.lt, h.month.lt, fun hmonthly => (h.day hmonthly).lt⟩

theorem formatPadded_natCast_lt {w k k' : ℕ} (hw : 0 < w) (h : k < k') (hk' : k' < 10 ^ w)
    (s s' : Bytes) : formatPadded w k ++ s < formatPadded w k' ++ s' := by
  have hcast : (k' : ℤ) < 10 ^ w := by exact_mod_cast hk'
  have hlt : (k : ℤ) < k' := by exact_mod_cast h
  refine append_lt_append ?_ (formatPadded_lt hw (by omega) hlt hcast)
  rw [length_formatPadded hw (by omega) (hlt.trans hcast), length_formatPadded hw (by omega) hcast]

/-- The periods are ordered as the dates. -/
theorem Extent.Before.period_lt {e e' : Extent} (h : e.Before monthly e')
    (hfits : e'.Fits monthly) : e.period monthly < e'.period monthly := by
  unfold Extent.period
  rcases h with hyear | ⟨hyear, hmonth | ⟨hmonth, hdaily, hday⟩⟩
  · exact formatPadded_natCast_lt (by decide) hyear hfits.year _ _
  · rw [hyear]
    refine List.append_left_lt (List.cons_lt_cons_iff.mpr (.inr ⟨rfl, ?_⟩))
    exact formatPadded_natCast_lt (by decide) hmonth hfits.month _ _
  · rw [hyear, hmonth, hdaily]
    refine List.append_left_lt (List.cons_lt_cons_iff.mpr (.inr ⟨rfl, ?_⟩))
    refine List.append_left_lt (List.cons_lt_cons_iff.mpr (.inr ⟨rfl, ?_⟩))
    have hlt := formatPadded_natCast_lt (w := 2) (by decide) hday (hfits.day hdaily) [] []
    rwa [List.append_nil, List.append_nil] at hlt

theorem SeaIceBody.fits {data : List Extent} {body : Bytes} (h : SeaIceBody monthly data body) :
    ∀ e ∈ data, e.Fits monthly := by
  obtain ⟨n, t, -, -, ⟨c, -, hrows⟩, -, -⟩ := h
  generalize t.rows = rows at hrows
  induction hrows with
  | nil => exact List.forall_mem_nil _
  | cons hrow _ ih => exact List.forall_mem_cons.mpr ⟨hrow.fits, ih⟩

/-- Measurements in the order of their dates give points in the order of their periods. -/
theorem seaIcePoints_sorted {data : List Extent} (hfits : ∀ e ∈ data, e.Fits monthly)
    (hsorted : data.Pairwise (Extent.Before monthly)) :
    (seaIcePoints monthly data).Pairwise fun p q => p.period < q.period := by
  rw [seaIcePoints, List.pairwise_map]
  refine (hsorted.filter _).imp_of_mem fun _ hmem hbefore => ?_
  exact hbefore.period_lt (hfits _ (List.mem_of_mem_filter hmem))

end seaIce

/-! ## Annual means -/

/-- The annual mean of a year; missing ones are published as a marker. -/
structure Anomaly where
  year : ℕ
  value : Option ℚ

/-- The points of the means that are not missing. -/
def annualPoints (data : List Anomaly) : List ClimatePoint :=
  data.filterMap fun a => a.value.map fun v =>
    { period := formatPadded 4 a.year, value := .finite v }

/-- The text has the value, or a marker. A value is no marker and in the range of a `double`. -/
def WritesValue (text : Bytes) : Option ℚ → Prop
  | some v => StringSpells v text ∧ InRange v ∧ ¬ IsMarker v
  | none => IsMissing (trim text)

theorem WritesValue.parseValue_eq {text : Bytes} {value : Option ℚ} (h : WritesValue text value) :
    parseValue text = value.map .finite := by
  cases value with
  | none => exact if_pos h
  | some v =>
    obtain ⟨hspells, hrange, hmarker⟩ := h
    rcases hspells.parseValue_eq with ⟨-, hv, -⟩ | ⟨-, hv⟩
    · exact absurd hv hmarker
    · rw [hv, if_pos hrange]
      rfl

/-- The table has the means `data`. -/
structure GistempFile {n : ℕ} (t : FeedTable n) (data : List Anomaly) : Prop where
  layout : ∃ year mean : Fin n, trim (t.header year) = bytes "Year" ∧
    trim (t.header mean) = bytes "J-D" ∧
    List.Forall₂ (fun row a => FourDigits (row year) a.year ∧ WritesValue (row mean) a.value)
      t.rows data

section gistemp

variable {n : ℕ}

/-- A row gives the point of its mean, unless that is missing. -/
theorem gistempPoint_ofFn {row : Fin n → Bytes} {year mean : Fin n} {a : Anomaly}
    (hyear : FourDigits (row year) a.year) (hmean : WritesValue (row mean) a.value) :
    gistempPoint year mean (List.ofFn row) = a.value.map fun v =>
      { period := formatPadded 4 a.year, value := .finite v } := by
  have hshort : tooShort (List.ofFn row) year mean = false :=
    tooShort_eq_false (present_ofFn row _).2 (present_ofFn row _).2 (present_ofFn row _).1
  have hdigit : (trim (row year)).head?.any isDigit = true := by
    obtain ⟨c, rest, hc⟩ := List.exists_cons_of_ne_nil (hyear.1.ne_nil (by decide))
    rw [hc]
    exact hyear.1.2 c (hc ▸ List.mem_cons_self)
  rw [gistempPoint_eq, gistempUsable, hshort, cell_ofFn, cell_ofFn, hdigit, hmean.parseValue_eq,
    hyear.trim_eq]
  cases a.value <;> rfl

theorem GistempFile.points {t : FeedTable n} {data : List Anomaly} (h : GistempFile t data) :
    ¬IsBanner (List.ofFn t.header) ∧
      (t.rows.map List.ofFn).filterMap (gistempPoint
        (headerIndex (List.ofFn t.header) (bytes "Year"))
        (headerIndex (List.ofFn t.header) (bytes "J-D"))) = annualPoints data := by
  obtain ⟨year, mean, hyear, hmean, hrows⟩ := h.layout
  constructor
  · intro hbanner
    exact hbanner ⟨⟨_, List.mem_ofFn.mpr ⟨year, rfl⟩, hyear⟩,
      ⟨_, List.mem_ofFn.mpr ⟨mean, rfl⟩, hmean⟩⟩
  · rw [headerIndex_ofFn t.distinct hyear, headerIndex_ofFn t.distinct hmean, annualPoints]
    generalize t.rows = rows at hrows
    clear h
    induction hrows with
    | nil => rfl
    | cons hrow _ ih =>
      rw [List.map_cons, List.filterMap_cons, gistempPoint_ofFn hrow.1 hrow.2, List.filterMap_cons,
        ih]

theorem GistempFile.two_le {t : FeedTable n} {data : List Anomaly} (h : GistempFile t data) :
    2 ≤ n := by
  obtain ⟨year, mean, hyear, hmean, -⟩ := h.layout
  have hne : year.val ≠ mean.val := by
    intro heq
    rw [Fin.ext heq, hmean] at hyear
    revert hyear
    decide
  have := year.isLt
  have := mean.isLt
  omega

/-- The text of a file with the means `data`, behind rows without a header. -/
def GistempBody (data : List Anomaly) (body : Bytes) : Prop :=
  ∃ (n : ℕ) (t : FeedTable n) (banner written : List (Row Delimiter.comma.dialect))
    (terminated : Bool), GistempFile t data ∧
      (∀ r ∈ banner, r.isBlank = false → IsBanner r.fields) ∧
      written.map Row.fields = t.csv ∧ body = render terminated (banner ++ written)

/-- **Round trip.** Whatever stands above the table, the parser gives back the means that are not
    missing, in their order. -/
theorem deserialize_gistempBody {data : List Anomaly} {body : Bytes} (h : GistempBody data body)
    (out : GistempSeries) :
    deserializeGistempCsv body out =
      if annualPoints data = [] then
        (.error (Error.parse (bytes "GISTEMP: no annual J-D values")), out)
      else (.ok (), { annual := annualPoints data }) := by
  obtain ⟨n, t, banner, written, terminated, hfile, hbanner, hwritten, rfl⟩ := h
  obtain ⟨hheader, hpoints⟩ := hfile.points
  have hrows : parse .comma (render terminated (banner ++ written)) =
      (banner.filter fun r => !r.isBlank).map Row.fields ++ t.csv := by
    have hkeep : written.filter (fun r => !r.isBlank) = written :=
      List.filter_eq_self.mpr fun r hr => by
        rw [FeedTable.not_blank hfile.two_le hwritten r hr]
        rfl
    rw [parse_render, List.filter_append, List.map_append, hkeep, hwritten]
  have hall : ∀ row ∈ (banner.filter fun r => !r.isBlank).map Row.fields, IsBanner row := by
    intro row hrow
    obtain ⟨r, hr, rfl⟩ := List.mem_map.mp hrow
    obtain ⟨hmem, hblank⟩ := List.mem_filter.mp hr
    exact hbanner r hmem (by simpa using hblank)
  rw [deserializeGistempCsv_eq, hrows, gistempRows_csv hall hheader, hpoints]

end gistemp

/-! ## Climate at a Glance -/

/-- The points of the entries that are not missing, under their keys. -/
def cagPoints (data : List (Bytes × Option ℚ)) : List ClimatePoint :=
  data.filterMap fun x => x.2.map fun v => { period := x.1, value := .finite v }

/-- The entry has the value in one of its spellings, or is spelled by a marker. -/
def WritesEntry (j : Json) : Option ℚ → Prop
  | some v => Spells v j ∧ InRange v ∧ ¬ IsMarker v
  | none => MarkerText j ∧ ∃ v, Spells v j

theorem WritesEntry.point {j : Json} {value : Option ℚ} (h : WritesEntry j value) (key : Bytes) :
    cagPoint (key, j) = value.map fun v => { period := key, value := .finite v } := by
  cases value with
  | none =>
    obtain ⟨hmarker, v, hspells⟩ := h
    rcases cagPoint_eq hspells key with ⟨-, -, hnone⟩ | ⟨hnot, -⟩
    · exact hnone
    · exact absurd hmarker hnot
  | some v =>
    obtain ⟨hspells, hrange, hmarker⟩ := h
    rcases cagPoint_eq hspells key with ⟨-, hv, -⟩ | ⟨-, hpoint⟩
    · exact absurd hv hmarker
    · rw [hpoint, if_pos hrange]
      rfl

/-- The body is an object with the entries `data` and the texts of `description`. -/
def CagBody (glaze : GlazeGeneric) (description : CagSeries) (data : List (Bytes × Option ℚ))
    (body : Bytes) : Prop :=
  ∃ o entries, glaze.read body = .ok (.object o) ∧
    findMember o (bytes "data") = some (.object entries) ∧ cagDescription o = description ∧
    List.Forall₂ (fun kv x => kv.1 = x.1 ∧ WritesEntry kv.2 x.2) entries data

theorem deserialize_cagBody {glaze : GlazeGeneric} {description : CagSeries}
    {data : List (Bytes × Option ℚ)} {body : Bytes} (h : CagBody glaze description data body)
    (out : CagSeries) :
    deserializeCagSeries glaze body out =
      finishCag { description with data := cagPoints data } out := by
  obtain ⟨o, entries, hread, hdata, rfl, hentries⟩ := h
  have hpoints : entries.filterMap cagPoint = cagPoints data := by
    rw [cagPoints]
    clear hdata
    induction hentries with
    | nil => rfl
    | @cons kv x _ _ hentry _ ih =>
      obtain ⟨key, j⟩ := kv
      obtain ⟨rfl, hwrites⟩ := hentry
      rw [List.filterMap_cons, hwrites.point, List.filterMap_cons, ih]
  rw [deserializeCagSeries, hread]
  dsimp only
  rw [hdata]
  dsimp only
  rw [hpoints]

end NceiCpp.Models
