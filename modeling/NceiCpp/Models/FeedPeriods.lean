import NceiCpp.Models.ClimateFeeds

/-!
# The periods of the CSV feeds

A point should carry the date of its row: `YYYY`, `YYYY-MM` or `YYYY-MM-DD`. The parsers do
not check the cells that the parts of a period are taken from.

* `Placed`: the period of a point is the date of its row.
* `Dated`: the date cells of a row have the widths a period needs.
* `seaIcePoint_placed_iff`: a point is placed exactly when its row is dated.
* `Placed.sameDate`: placed points of one period have rows of one date.
* `feed_periods_iff`: when all points of a feed are placed.
-/

namespace NceiCpp.Models

open DecimalDigits DelimitedText NceiCpp.Core

/-! ## Dates -/

/-- A text of `w` digits. -/
def DigitText (w : ℕ) (t : Bytes) : Prop := t.length = w ∧ ∀ c ∈ t, isDigit c = true

theorem DigitText.ne_nil {w : ℕ} {t : Bytes} (h : DigitText w t) (hw : 0 < w) : t ≠ [] := by
  rintro rfl
  exact hw.ne h.1

/-- The number a text of digits denotes. -/
def number (t : Bytes) : ℕ := value (t.map digitVal)

/-- The column has a cell in the row, and that cell is the number `n` between blanks. -/
structure NumberIn (row : CsvRow) (col : ℤ) (n : ℕ) : Prop where
  present : 0 ≤ col ∧ col < row.length
  ne : trim (cell row col) ≠ []
  digits : ∀ c ∈ trim (cell row col), isDigit c = true
  number_eq : number (trim (cell row col)) = n

/-- The period consists of the year, the month and, for daily data, the day of the row. -/
def Placed (monthly : Bool) (cols : SeaIceColumns) (row : CsvRow) (period : Bytes) : Prop :=
  ∃ year month, DigitText 4 year ∧ DigitText 2 month ∧ NumberIn row cols.year (number year) ∧
    NumberIn row cols.month (number month) ∧
    if monthly then period = year ++ ch '-' :: month
    else ∃ day, DigitText 2 day ∧ NumberIn row cols.day (number day) ∧
      period = year ++ ch '-' :: (month ++ ch '-' :: day)

/-- The column has a cell in the row, of one or two digits between blanks. -/
def PartIn (row : CsvRow) (col : ℤ) : Prop :=
  (0 ≤ col ∧ col < row.length) ∧
    (DigitText 1 (trim (cell row col)) ∨ DigitText 2 (trim (cell row col)))

/-- Four digits for the year, one or two for the month and the day. -/
def Dated (monthly : Bool) (cols : SeaIceColumns) (row : CsvRow) : Prop :=
  DigitText 4 (trim (cell row cols.year)) ∧ PartIn row cols.month ∧
    (monthly = false → PartIn row cols.day)

/-- Both rows have the same numbers in the date columns. -/
def SameDate (cols : SeaIceColumns) (row row' : CsvRow) : Prop :=
  ∀ col ∈ [cols.year, cols.month, cols.day], ∀ n, NumberIn row col n ↔ NumberIn row' col n

/-! ## One part of a period -/

/-- A one-character part gets a zero in front. -/
def padPart (t : Bytes) : Bytes := if t.length = 1 then ch '0' :: t else t

theorem number_padPart (t : Bytes) : number (padPart t) = number t := by
  unfold padPart
  split_ifs with h
  · show value (0 :: t.map digitVal) = _
    rw [value_cons, Nat.zero_mul, Nat.zero_add]
    rfl
  · rfl

theorem digits_padPart {t : Bytes} :
    (∀ c ∈ padPart t, isDigit c = true) ↔ ∀ c ∈ t, isDigit c = true := by
  unfold padPart
  split_ifs
  · rw [List.forall_mem_cons]
    exact and_iff_right (by decide)
  · rfl

/-- Padding makes two digits of one or two. -/
theorem digitText_padPart {t : Bytes} :
    DigitText 2 (padPart t) ↔ DigitText 1 t ∨ DigitText 2 t := by
  unfold DigitText
  rw [digits_padPart, ← or_and_right]
  refine and_congr_left fun _ => ?_
  unfold padPart
  split_ifs with h
  · simp [h]
  · exact (or_iff_right h).symm

theorem appendPart_eq {row : CsvRow} {col : ℤ} (hpresent : 0 ≤ col ∧ col < row.length)
    (hne : trim (cell row col) ≠ []) (period : Bytes) :
    appendPart row col period = period ++ ch '-' :: padPart (trim (cell row col)) := by
  unfold appendPart padPart
  rw [if_pos ⟨hpresent.1, hpresent.2⟩]
  dsimp only
  split_ifs with hlength
  · rw [List.append_assoc]
    rfl
  · rw [List.append_assoc]
    rfl

theorem NumberIn.unique {row : CsvRow} {col : ℤ} {m n : ℕ} (h : NumberIn row col m)
    (h' : NumberIn row col n) : m = n := h.number_eq.symm.trans h'.number_eq

/-- A part of one or two digits is a number in its cell. -/
theorem PartIn.numberIn {row : CsvRow} {col : ℤ} (h : PartIn row col) :
    NumberIn row col (number (padPart (trim (cell row col)))) ∧
      DigitText 2 (padPart (trim (cell row col))) := by
  obtain ⟨hpresent, hdigits⟩ := h
  have hpad := digitText_padPart.mpr hdigits
  refine ⟨⟨hpresent, ?_, digits_padPart.mp hpad.2, (number_padPart _).symm⟩, hpad⟩
  rcases hdigits with h | h
  · exact h.ne_nil (by decide)
  · exact h.ne_nil (by decide)

/-! ## A row -/

theorem append_dash_inj {a b s t : Bytes} (ha : ∀ c ∈ a, isDigit c = true)
    (hb : ∀ c ∈ b, isDigit c = true) (h : a ++ ch '-' :: s = b ++ ch '-' :: t) :
    a = b ∧ s = t := by
  have hdash : ∀ l : Bytes, (∀ c ∈ l, isDigit c = true) → ∀ r,
      (l ++ ch '-' :: r).takeWhile isDigit = l := by
    intro l hl r
    rw [List.takeWhile_append_of_pos hl, List.takeWhile_cons_of_neg (by decide), List.append_nil]
  have hab : a = b := by rw [← hdash a ha s, h, hdash b hb t]
  subst hab
  exact ⟨rfl, (List.cons.inj (List.append_cancel_left h)).2⟩

/-- A row that gives a point: long enough, with a positive extent and a year. -/
def usableRow (cols : SeaIceColumns) (row : CsvRow) : Bool :=
  !tooShort row cols.year cols.extent &&
    (parseValue (cell row cols.extent)).any (fun v => !nonPositive v) &&
    !(trim (cell row cols.year)).isEmpty

/-- The period of the point a row gives. -/
def rowPeriod (monthly : Bool) (cols : SeaIceColumns) (row : CsvRow) : Bytes :=
  let period := appendPart row cols.month (trim (cell row cols.year))
  if monthly then period else appendPart row cols.day period

theorem seaIcePoint_eq (monthly : Bool) (cols : SeaIceColumns) (row : CsvRow) :
    seaIcePoint monthly cols row =
      if usableRow cols row then
        (parseValue (cell row cols.extent)).map fun v =>
          { period := rowPeriod monthly cols row, value := v }
      else none := by
  unfold seaIcePoint usableRow rowPeriod
  cases htooShort : tooShort row cols.year cols.extent with
  | true => simp
  | false =>
    cases hvalue : parseValue (cell row cols.extent) with
    | none => simp
    | some v =>
      cases hpositive : nonPositive v with
      | true => simp [hpositive]
      | false => simp [hpositive]

theorem isSome_of_usableRow {cols : SeaIceColumns} {row : CsvRow} (h : usableRow cols row = true) :
    (parseValue (cell row cols.extent)).isSome = true := by
  unfold usableRow at h
  rw [Bool.and_eq_true, Bool.and_eq_true, Option.any_eq_true] at h
  obtain ⟨⟨-, v, hv, -⟩, -⟩ := h
  rw [hv]
  rfl

theorem lt_length_of_usableRow {cols : SeaIceColumns} {row : CsvRow}
    (h : usableRow cols row = true) : cols.year < row.length := by
  unfold usableRow tooShort at h
  rw [Bool.and_eq_true, Bool.and_eq_true, Bool.not_eq_true', decide_eq_false_iff_not] at h
  have := h.1.1
  omega

/-- What the period of a row is when its date cells are numbers. -/
theorem rowPeriod_eq {monthly : Bool} {cols : SeaIceColumns} {row : CsvRow} {m d : ℕ}
    (hmonth : NumberIn row cols.month m) (hday : monthly = false → NumberIn row cols.day d) :
    rowPeriod monthly cols row = trim (cell row cols.year) ++ ch '-' ::
      (padPart (trim (cell row cols.month)) ++
        if monthly then [] else ch '-' :: padPart (trim (cell row cols.day))) := by
  unfold rowPeriod
  dsimp only
  rw [appendPart_eq hmonth.present hmonth.ne]
  cases monthly with
  | true => simp
  | false =>
    have hday := hday rfl
    rw [if_neg Bool.false_ne_true, if_neg Bool.false_ne_true, appendPart_eq hday.present hday.ne,
      List.append_assoc, List.cons_append]

theorem Placed.dated {monthly : Bool} {cols : SeaIceColumns} {row : CsvRow}
    (h : Placed monthly cols row (rowPeriod monthly cols row)) : Dated monthly cols row := by
  obtain ⟨year, month, hyear4, hmonth2, hyear, hmonth, hperiod⟩ := h
  have hmonthDigits := digits_padPart.mpr hmonth.digits
  cases monthly with
  | true =>
    have hday : true = false → NumberIn row cols.day 0 := nofun
    rw [if_pos rfl, rowPeriod_eq hmonth hday, if_pos rfl, List.append_nil] at hperiod
    obtain ⟨hy, hm⟩ := append_dash_inj hyear.digits hyear4.2 hperiod
    refine ⟨hy ▸ hyear4, ⟨hmonth.present, digitText_padPart.mp (hm ▸ hmonth2)⟩, nofun⟩
  | false =>
    rw [if_neg Bool.false_ne_true] at hperiod
    obtain ⟨day, hday2, hday, hperiod⟩ := hperiod
    rw [rowPeriod_eq hmonth fun _ => hday, if_neg Bool.false_ne_true] at hperiod
    obtain ⟨hy, hrest⟩ := append_dash_inj hyear.digits hyear4.2 hperiod
    obtain ⟨hm, hd⟩ := append_dash_inj hmonthDigits hmonth2.2 hrest
    exact ⟨hy ▸ hyear4, ⟨hmonth.present, digitText_padPart.mp (hm ▸ hmonth2)⟩,
      fun _ => ⟨hday.present, digitText_padPart.mp (hd ▸ hday2)⟩⟩

theorem Dated.placed {monthly : Bool} {cols : SeaIceColumns} {row : CsvRow}
    (hyear : 0 ≤ cols.year ∧ cols.year < row.length) (h : Dated monthly cols row) :
    Placed monthly cols row (rowPeriod monthly cols row) := by
  obtain ⟨hyear4, hmonth, hday⟩ := h
  obtain ⟨hmonthNumber, hmonth2⟩ := hmonth.numberIn
  refine ⟨_, _, hyear4, hmonth2, ⟨hyear, hyear4.ne_nil (by decide), hyear4.2, rfl⟩,
    hmonthNumber, ?_⟩
  rw [rowPeriod_eq hmonthNumber fun hmonthly => (hday hmonthly).numberIn.1]
  cases monthly with
  | true => simp
  | false =>
    obtain ⟨hdayNumber, hday2⟩ := (hday rfl).numberIn
    exact ⟨_, hday2, hdayNumber, rfl⟩

/-- The points of one period have rows of one date. -/
theorem Placed.sameDate {cols : SeaIceColumns} {row row' : CsvRow} {period : Bytes}
    (h : Placed false cols row period) (h' : Placed false cols row' period) :
    SameDate cols row row' := by
  obtain ⟨year, month, hyear4, hmonth2, hyear, hmonth, day, hday2, hday, rfl⟩ := h
  obtain ⟨year', month', hyear4', hmonth2', hyear', hmonth', day', hday2', hday', hperiod⟩ := h'
  obtain ⟨rfl, hrest⟩ := append_dash_inj hyear4.2 hyear4'.2 hperiod
  obtain ⟨rfl, rfl⟩ := append_dash_inj hmonth2.2 hmonth2'.2 hrest
  have hiff : ∀ {col n}, NumberIn row col n → NumberIn row' col n →
      ∀ k, NumberIn row col k ↔ NumberIn row' col k := by
    intro col n hn hn' k
    constructor
    · intro hk
      rwa [hk.unique hn]
    · intro hk
      rwa [hk.unique hn']
  intro col hcol
  simp only [List.mem_cons, List.not_mem_nil, or_false] at hcol
  rcases hcol with rfl | rfl | rfl
  · exact hiff hyear hyear'
  · exact hiff hmonth hmonth'
  · exact hiff hday hday'

/-! ## A whole feed -/

/-- The points of the usable rows, each with its row. -/
theorem forall₂_points_iff {point : CsvRow → Option ClimatePoint} {usable : CsvRow → Bool}
    {value : CsvRow → Option Double} {period : CsvRow → Bytes} {R : CsvRow → Bytes → Prop}
    (hpoint : ∀ row, point row =
      if usable row then (value row).map fun v => { period := period row, value := v } else none)
    (hvalue : ∀ row, usable row = true → (value row).isSome = true) (rows : List CsvRow) :
    List.Forall₂ (fun row p => R row p.period) (rows.filter usable) (rows.filterMap point) ↔
      ∀ row ∈ rows, usable row = true → R row (period row) := by
  induction rows with
  | nil => simp
  | cons row rows ih =>
    rw [List.forall_mem_cons, ← ih, List.filterMap_cons, List.filter_cons, hpoint row]
    by_cases husable : usable row = true
    · obtain ⟨v, hv⟩ := Option.isSome_iff_exists.mp (hvalue row husable)
      simp [husable, hv]
    · simp [husable]

/-- The points of a monthly or daily series are placed, each with its row, and no two rows of
    different dates give points of one period. -/
structure SeaIcePlaced (monthly : Bool) (cols : SeaIceColumns) (rows : List CsvRow)
    (points : List ClimatePoint) : Prop where
  placed : List.Forall₂ (fun row p => Placed monthly cols row p.period) rows points
  distinct : monthly = false → ∀ x ∈ rows.zip points, ∀ x' ∈ rows.zip points,
    x.2.period = x'.2.period → SameDate cols x.1 x'.1

theorem seaIcePlaced_iff {monthly : Bool} {cols : SeaIceColumns} {rows : List CsvRow}
    {points : List ClimatePoint} :
    SeaIcePlaced monthly cols rows points ↔
      List.Forall₂ (fun row p => Placed monthly cols row p.period) rows points := by
  refine ⟨SeaIcePlaced.placed, fun h => ⟨h, ?_⟩⟩
  rintro rfl x hx x' hx' hperiod
  have hplaced : Placed false cols x.1 x.2.period := (List.forall₂_iff_zip.mp h).2 hx
  have hplaced' : Placed false cols x'.1 x'.2.period := (List.forall₂_iff_zip.mp h).2 hx'
  rw [← hperiod] at hplaced'
  exact hplaced.sameDate hplaced'

/-- The points of GISTEMP have periods of four digits, the years of their rows. -/
def GistempPlaced (yearCol : ℤ) (rows : List CsvRow) (points : List ClimatePoint) : Prop :=
  List.Forall₂ (fun row p => DigitText 4 p.period ∧ NumberIn row yearCol (number p.period))
    rows points

/-- A row that gives a point: long enough, with a value and a year that starts with a digit. -/
def gistempUsable (yearCol jdCol : ℤ) (row : CsvRow) : Bool :=
  !tooShort row yearCol jdCol && (trim (cell row yearCol)).head?.any isDigit &&
    (parseValue (cell row jdCol)).isSome

theorem gistempPoint_eq (yearCol jdCol : ℤ) (row : CsvRow) :
    gistempPoint yearCol jdCol row =
      if gistempUsable yearCol jdCol row then
        (parseValue (cell row jdCol)).map fun v => { period := trim (cell row yearCol), value := v }
      else none := by
  unfold gistempPoint gistempUsable
  cases tooShort row yearCol jdCol with
  | true => simp
  | false =>
    cases hdigit : (trim (cell row yearCol)).head?.any isDigit with
    | false => simp [hdigit]
    | true => cases parseValue (cell row jdCol) <;> simp [hdigit]

theorem gistempPlaced_iff {yearCol jdCol : ℤ} (hyear : 0 ≤ yearCol) (rows : List CsvRow) :
    GistempPlaced yearCol (rows.filter (gistempUsable yearCol jdCol))
        (rows.filterMap (gistempPoint yearCol jdCol)) ↔
      ∀ row ∈ rows, gistempUsable yearCol jdCol row = true →
        DigitText 4 (trim (cell row yearCol)) := by
  have hvalue : ∀ row, gistempUsable yearCol jdCol row = true →
      (parseValue (cell row jdCol)).isSome = true :=
    fun row h => ((Bool.and_eq_true _ _).mp h).2
  have hpoints := @forall₂_points_iff _ _ _ _
    (fun row period => DigitText 4 period ∧ NumberIn row yearCol (number period))
    (gistempPoint_eq yearCol jdCol) hvalue rows
  refine hpoints.trans (forall₂_congr fun row _ => ?_)
  refine ⟨fun h husable => (h husable).1, fun h husable => ⟨h husable, ?_⟩⟩
  have hyear4 := h husable
  have hlt : yearCol < row.length := by
    unfold gistempUsable tooShort at husable
    rw [Bool.and_eq_true, Bool.and_eq_true, Bool.not_eq_true', decide_eq_false_iff_not] at husable
    have := husable.1.1
    omega
  exact ⟨⟨hyear, hlt⟩, hyear4.ne_nil (by decide), hyear4.2, rfl⟩

theorem seaIcePlaced_points_iff {monthly : Bool} {cols : SeaIceColumns} (hyear : 0 ≤ cols.year)
    (rows : List CsvRow) :
    SeaIcePlaced monthly cols (rows.filter (usableRow cols))
        (rows.filterMap (seaIcePoint monthly cols)) ↔
      ∀ row ∈ rows, usableRow cols row = true → Dated monthly cols row := by
  have hpoints := @forall₂_points_iff _ _ _ _ (Placed monthly cols) (seaIcePoint_eq monthly cols)
    (fun _ => isSome_of_usableRow) rows
  rw [seaIcePlaced_iff]
  refine hpoints.trans (forall₂_congr fun row _ => ?_)
  constructor
  · intro h husable
    exact (h husable).dated
  · intro h husable
    exact (h husable).placed ⟨hyear, lt_length_of_usableRow husable⟩

/-- The points of a series that was read, with the header and the rows they come from. -/
theorem deserializeGistempCsv_ok {body : Bytes} {out series : GistempSeries}
    (h : deserializeGistempCsv body out = (.ok (), series)) :
    ∃ header rows, gistempTable (parse .comma body) = some (header, rows) ∧
      series.annual = rows.filterMap
        (gistempPoint (headerIndex header (bytes "Year")) (headerIndex header (bytes "J-D"))) := by
  rw [deserializeGistempCsv_eq] at h
  split_ifs at h with hempty
  · cases h
  · cases h
    cases htable : gistempTable (parse .comma body) with
    | none =>
      unfold gistempRows at hempty
      rw [htable] at hempty
      exact absurd rfl hempty
    | some table =>
      refine ⟨table.1, table.2, rfl, ?_⟩
      unfold gistempRows
      rw [htable]

theorem deserializeNsidcSeaIceCsv_ok {body : Bytes} {monthly : Bool} {out series : SeaIceSeries}
    (h : deserializeNsidcSeaIceCsv body monthly out = (.ok (), series)) :
    ∃ header rows, parse .comma body = header :: rows ∧
      0 ≤ (seaIceColumns monthly header).year ∧
      series.extent = rows.filterMap (seaIcePoint monthly (seaIceColumns monthly header)) := by
  unfold deserializeNsidcSeaIceCsv at h
  split at h
  · cases h
  · rename_i header rows hparse
    dsimp only at h
    split_ifs at h with hheader hempty
    · cases h
    · cases h
    · cases h
      rw [not_or, not_lt, not_lt] at hheader
      exact ⟨header, rows, hparse, hheader.1, rfl⟩

/-- **Periods.** The points of a feed are placed exactly when the date cells of every row that
    gives a point have the widths a period needs: four digits for the year and, for sea ice,
    one or two for the month and, if daily, for the day. -/
theorem feed_periods_iff (body : Bytes) (monthly : Bool) :
    (∀ out series, deserializeGistempCsv body out = (.ok (), series) →
      ∃ header rows, gistempTable (parse .comma body) = some (header, rows) ∧
        let year := headerIndex header (bytes "Year")
        let jd := headerIndex header (bytes "J-D")
        (GistempPlaced year (rows.filter (gistempUsable year jd)) series.annual ↔
          ∀ row ∈ rows, gistempUsable year jd row = true → DigitText 4 (trim (cell row year)))) ∧
    ∀ out series, deserializeNsidcSeaIceCsv body monthly out = (.ok (), series) →
      ∃ header rows, parse .comma body = header :: rows ∧
        let cols := seaIceColumns monthly header
        (SeaIcePlaced monthly cols (rows.filter (usableRow cols)) series.extent ↔
          ∀ row ∈ rows, usableRow cols row = true → Dated monthly cols row) := by
  constructor
  · intro out series h
    obtain ⟨header, rows, htable, hseries⟩ := deserializeGistempCsv_ok h
    refine ⟨header, rows, htable, ?_⟩
    have hyear := (of_decide_eq_true (isGistempHeader_of_table htable)).1
    rw [hseries]
    exact gistempPlaced_iff hyear rows
  · intro out series h
    obtain ⟨header, rows, hparse, hyear, hseries⟩ := deserializeNsidcSeaIceCsv_ok h
    refine ⟨header, rows, hparse, ?_⟩
    rw [hseries]
    exact seaIcePlaced_points_iff hyear rows

/-! ## Daily rows without a month or a day -/

/-- The number `12`. -/
def twelve : Numeral := ⟨false, [1, 2], none, none, by decide, by decide⟩

theorem parseValue_twelve : parseValue (bytes "12") = some (.finite 12) := by
  have hvalue : twelve.value = 12 := by
    norm_num [twelve, Numeral.value, Numeral.magnitude, DecimalDigits.value]
  have hrange : InRange twelve.value := by
    rw [hvalue]
    apply inRange_of_le <;> norm_num
  have hmarker : ¬MarkerString (bytes "12") := by
    unfold MarkerString
    decide
  have hsign : false = true → twelve.negative = false := fun h => by cases h
  have h := @parseValue_text twelve false (bytes "12") rfl hsign hmarker
  rwa [if_pos hrange, hvalue] at h

/-- An annual file with one row. -/
def annualRows : List (Row Delimiter.comma.dialect) :=
  [quotedRow [bytes "Year", bytes "J-D"] nofun, quotedRow [bytes "2020", bytes "12"] nofun]

theorem feed_periods_iff_annual :
    deserializeGistempCsv (render true annualRows) {} =
        (.ok (), { annual := [⟨bytes "2020", .finite 12⟩] }) ∧
      GistempPlaced 0 [[bytes "2020", bytes "12"]] [⟨bytes "2020", .finite 12⟩] := by
  have hparse : parse .comma (render true annualRows) =
      [[bytes "Year", bytes "J-D"], [bytes "2020", bytes "12"]] :=
    parse_rows .comma true (by decide)
  have htable : gistempTable (parse .comma (render true annualRows)) =
      some ([bytes "Year", bytes "J-D"], [[bytes "2020", bytes "12"]]) := by
    rw [hparse]
    decide
  have husable : gistempUsable 0 1 [bytes "2020", bytes "12"] = true := by
    unfold gistempUsable
    rw [show cell [bytes "2020", bytes "12"] 1 = bytes "12" from rfl, parseValue_twelve]
    decide
  have hpoints : gistempRows (parse .comma (render true annualRows)) =
      [⟨bytes "2020", .finite 12⟩] := by
    unfold gistempRows
    rw [htable]
    show [[bytes "2020", bytes "12"]].filterMap (gistempPoint 0 1) = _
    rw [List.filterMap_cons, gistempPoint_eq, if_pos husable,
      show cell [bytes "2020", bytes "12"] 1 = bytes "12" from rfl, parseValue_twelve]
    rfl
  have hok : deserializeGistempCsv (render true annualRows) {} =
      (.ok (), { annual := [⟨bytes "2020", .finite 12⟩] }) := by
    rw [deserializeGistempCsv_eq, hpoints]
    rfl
  refine ⟨hok, ?_⟩
  obtain ⟨header, rows, hheader, hiff⟩ := (feed_periods_iff _ true).1 _ _ hok
  rw [htable] at hheader
  cases hheader
  have hplaced := hiff.mpr fun row hrow _ => by
    rw [List.mem_singleton.mp hrow]
    have hall : (bytes "2020").all isDigit = true := rfl
    exact ⟨rfl, List.all_eq_true.mp hall⟩
  have hfilter : [[bytes "2020", bytes "12"]].filter (gistempUsable 0 1) =
      [[bytes "2020", bytes "12"]] := by
    rw [List.filter_cons_of_pos husable, List.filter_nil]
  rwa [← hfilter]

/-- A daily file whose rows lack the month and the day. -/
def gapHeader : CsvRow := [bytes "Year", bytes "Month", bytes "Day", bytes "Extent"]

def gapRow (month day : Bytes) : CsvRow := [bytes "2020", month, day, bytes "12"]

def gapRows : List (Row Delimiter.comma.dialect) :=
  [quotedRow gapHeader nofun, quotedRow (gapRow [] (bytes "05")) nofun,
    quotedRow (gapRow (bytes "05") []) nofun]

theorem seaIcePoint_gapRow (month day : Bytes) :
    seaIcePoint false (seaIceColumns false gapHeader) (gapRow month day) =
      some ⟨rowPeriod false (seaIceColumns false gapHeader) (gapRow month day), .finite 12⟩ := by
  have hcell : cell (gapRow month day) (seaIceColumns false gapHeader).extent = bytes "12" := rfl
  have husable : usableRow (seaIceColumns false gapHeader) (gapRow month day) = true := by
    unfold usableRow
    rw [hcell, parseValue_twelve]
    rfl
  rw [seaIcePoint_eq, if_pos husable, hcell, parseValue_twelve]
  rfl

/-- Both rows give the period `2020-05`. -/
theorem daily_periods_collide :
    deserializeNsidcSeaIceCsv (render true gapRows) false {} =
        (.ok (), { monthly := false, extent := [⟨bytes "2020-05", .finite 12⟩,
          ⟨bytes "2020-05", .finite 12⟩] }) ∧
      gapRows.map Row.fields = [gapHeader, gapRow [] (bytes "05"), gapRow (bytes "05") []] ∧
      ¬SeaIcePlaced false (seaIceColumns false gapHeader)
        [gapRow [] (bytes "05"), gapRow (bytes "05") []]
        [⟨bytes "2020-05", .finite 12⟩, ⟨bytes "2020-05", .finite 12⟩] := by
  refine ⟨?_, rfl, ?_⟩
  · have hparse : parse .comma (render true gapRows) =
        [gapHeader, gapRow [] (bytes "05"), gapRow (bytes "05") []] :=
      parse_rows .comma true (by decide)
    rw [deserializeNsidcSeaIceCsv, hparse]
    dsimp only
    rw [if_neg (by decide), List.filterMap_cons, seaIcePoint_gapRow, List.filterMap_cons,
      seaIcePoint_gapRow]
    rfl
  · rintro ⟨hplaced, -⟩
    obtain ⟨⟨_, _, -, -, -, hmonth, -⟩, -⟩ := List.forall₂_cons.mp hplaced
    exact hmonth.ne rfl

end NceiCpp.Models
