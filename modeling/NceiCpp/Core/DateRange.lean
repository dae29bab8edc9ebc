import NceiCpp.Common.Bytes
import NceiCpp.Lib.Gregorian
import NceiCpp.Lib.IntervalChunks

/-!
# Date strings and date ranges

Model of `src/core/date_range.cpp`. `std::chrono::sys_days` is the number of days
since 1970-01-01; its conversions from and to a civil date are those of
`Gregorian`. `std::chrono::days` is wide enough for every value that occurs, so day
counts are integers; `days_between` narrows its result to `std::int32_t`.

Throwing is `Except.error`.

Results:
* `dayOf_formatDate`: the day of the date string of a day.
* `daysBetween_eq`, `addDays_eq`, `addDays_ok`: day arithmetic on strings is integer
  arithmetic on their days, within 0001-01-01 … 9999-12-31.
* `splitDateRange_eq`: on two dates in order, `split_date_range` returns the
  consecutive intervals of `max_days + 1` days that `Chunked` describes; it throws
  nothing. `splitDateRange_ok`: otherwise it throws.
-/

namespace NceiCpp.Core

open Gregorian IntervalChunks

/-- `std::invalid_argument` and `std::out_of_range`, with their `what()`. -/
inductive StdException
  | invalidArgument (what : Bytes)
  | outOfRange (what : Bytes)
  deriving DecidableEq

def StdException.what : StdException → Bytes
  | invalidArgument what | outOfRange what => what

structure DateParts where
  year : ℤ := 0
  month : ℤ := 0
  day : ℤ := 0
  deriving DecidableEq, Repr

abbrev DateRange := Bytes × Bytes

/-- The `std::chrono::year_month_day` of `parts`. -/
def DateParts.ymd (parts : DateParts) : Date := ⟨parts.year, parts.month, parts.day⟩

/-- The day number of 1970-01-01, from which `sys_days` counts. -/
def epochDay : ℤ := 719162

/-- `to_sys_days` (lines 12–24). The components are in range before they are
    narrowed to the chrono types, so the narrowing keeps them. -/
def toSysDays (parts : DateParts) : Except StdException ℤ :=
  if parts.year < 1 ∨ parts.year > 9999 ∨ parts.month < 1 ∨ parts.month > 12 ∨
      parts.day < 1 ∨ parts.day > 31 then
    .error (.invalidArgument (bytes "Date components out of supported range"))
  else if ¬ Valid parts.ymd then
    .error (.invalidArgument (bytes "Invalid calendar date"))
  else .ok (toDays parts.ymd - epochDay)

/-- `from_sys_days` (lines 26–33). -/
def fromSysDays (sd : ℤ) : DateParts :=
  let ymd := ofDays (sd + epochDay)
  ⟨ymd.year, ymd.month, ymd.day⟩

/-- The lambda `read` of `parse_date` (lines 42–48). -/
def readField (isoDate : Bytes) (offset count : ℕ) : Except StdException ℤ :=
  match fromChars ((isoDate.drop offset).take count) with
  | some (value, []) => .ok value
  | _ => .error (.invalidArgument (bytes "Expected numeric date fields"))

/-- `parse_date` (lines 37–54). -/
def parseDate (isoDate : Bytes) : Except StdException DateParts :=
  if isoDate.length ≠ 10 ∨ isoDate[4]? ≠ some (ch '-') ∨ isoDate[7]? ≠ some (ch '-') then
    .error (.invalidArgument (bytes "Expected YYYY-MM-DD"))
  else do
    let year ← readField isoDate 0 4
    let month ← readField isoDate 5 2
    let day ← readField isoDate 8 2
    let parts : DateParts := ⟨year, month, day⟩
    let _ ← toSysDays parts
    .ok parts

/-- `format_date` (lines 56–59). -/
def formatDate (parts : DateParts) : Except StdException Bytes := do
  let _ ← toSysDays parts
  .ok (formatPadded 4 parts.year ++ ch '-' :: formatPadded 2 parts.month ++
    ch '-' :: formatPadded 2 parts.day)

/-- `days_between` (lines 61–68). -/
def daysBetween (start stop : Bytes) : Except StdException ℤ := do
  let startParts ← parseDate start
  let endParts ← parseDate stop
  let startDays ← toSysDays startParts
  let endDays ← toSysDays endParts
  .ok (toInt32 (endDays - startDays))

/-- `date_range_exceeds` (lines 70–72). -/
def dateRangeExceeds (start stop : Bytes) (maxDays : ℤ) : Except StdException Bool := do
  let days ← daysBetween start stop
  .ok (days > maxDays)

/-- `first` of `add_days`: 0001-01-01. -/
def firstSysDay : ℤ := toDays ⟨1, 1, 1⟩ - epochDay

/-- `last` of `add_days`: 9999-12-31. -/
def lastSysDay : ℤ := toDays ⟨9999, 12, 31⟩ - epochDay

/-- `add_days` (lines 96–107). -/
def addDays (date : Bytes) (days : ℤ) : Except StdException Bytes := do
  let parts ← parseDate date
  let sd ← toSysDays parts
  let sd := sd + days
  if sd < firstSysDay ∨ sd > lastSysDay then
    .error (.outOfRange (bytes "Date arithmetic exceeded year 1..9999"))
  else formatDate (fromSysDays sd)

/-- The day a date string denotes: `to_sys_days(parse_date(s))`. -/
def dayOf (s : Bytes) : Except StdException ℤ := do
  let parts ← parseDate s
  toSysDays parts

/-! ## Civil dates and days -/

theorem firstSysDay_eq : firstSysDay = -719162 := by decide

theorem lastSysDay_eq : lastSysDay = 2932896 := by decide

theorem toSysDays_eq_ok {parts : DateParts} {n : ℤ} :
    toSysDays parts = .ok n ↔
      1 ≤ parts.year ∧ parts.year ≤ 9999 ∧ Valid parts.ymd ∧ n = toDays parts.ymd - epochDay := by
  unfold toSysDays
  split_ifs with hrange hvalid
  · rw [false_iff]
    rintro ⟨h1, h2, ⟨h3, h4, h5, h6⟩, -⟩
    have := daysInMonth_le (isLeap parts.year) parts.month
    simp only [DateParts.ymd] at h3 h4 h5 h6
    omega
  · rw [Except.ok.injEq]
    constructor
    · rintro rfl
      exact ⟨by omega, by omega, hvalid, rfl⟩
    · rintro ⟨-, -, -, rfl⟩
      rfl
  · rw [false_iff]
    tauto

theorem toSysDays_range {parts : DateParts} {n : ℤ} (h : toSysDays parts = .ok n) :
    firstSysDay ≤ n ∧ n ≤ lastSysDay := by
  obtain ⟨h1, h2, hv, rfl⟩ := toSysDays_eq_ok.mp h
  have hlow := daysBeforeYear_le_toDays hv
  have hhigh := toDays_lt_daysBeforeYear hv
  have := daysBeforeYear_mono (y := 1) h1
  have := daysBeforeYear_mono (show parts.year + 1 ≤ 10000 by omega)
  have e1 : daysBeforeYear 1 = 0 := by decide
  have e2 : daysBeforeYear 10000 = 3652059 := by decide
  simp only [DateParts.ymd] at hlow hhigh ⊢
  rw [firstSysDay_eq, lastSysDay_eq, epochDay]
  omega

/-- `from_sys_days` inverts `to_sys_days` on the supported days. -/
theorem toSysDays_fromSysDays {n : ℤ} (h0 : firstSysDay ≤ n) (h1 : n ≤ lastSysDay) :
    toSysDays (fromSysDays n) = .ok n := by
  rw [toSysDays_eq_ok]
  rw [firstSysDay_eq] at h0
  rw [lastSysDay_eq] at h1
  have hymd : (fromSysDays n).ymd = ofDays (n + epochDay) := rfl
  have hlow : yearOf 0 ≤ yearOf (n + epochDay) := yearOf_mono (by unfold epochDay; omega)
  have hhigh : yearOf (n + epochDay) ≤ yearOf 3652058 := yearOf_mono (by unfold epochDay; omega)
  have e1 : yearOf 0 = 1 := by decide
  have e2 : yearOf 3652058 = 9999 := by decide
  refine ⟨?_, ?_, hymd ▸ ofDays_valid _, ?_⟩
  · simp only [fromSysDays, ofDays_year]
    omega
  · simp only [fromSysDays, ofDays_year]
    omega
  · rw [hymd, toDays_ofDays]
    ring

/-! ## Date strings -/

theorem readField_eq_ok {s : Bytes} {offset count : ℕ} {v : ℤ} :
    readField s offset count = .ok v ↔ fromChars ((s.drop offset).take count) = some (v, []) := by
  unfold readField
  split
  · next v' h => simp [h]
  · next h => exact ⟨nofun, fun h' => (h v h').elim⟩

/-- What `parse_date` checks, and what it reads. -/
theorem parseDate_eq_ok {s : Bytes} {parts : DateParts} :
    parseDate s = .ok parts ↔
      (s.length = 10 ∧ s[4]? = some (ch '-') ∧ s[7]? = some (ch '-')) ∧
        readField s 0 4 = .ok parts.year ∧ readField s 5 2 = .ok parts.month ∧
        readField s 8 2 = .ok parts.day ∧ ∃ n, toSysDays parts = .ok n := by
  unfold parseDate
  by_cases hform : s.length ≠ 10 ∨ s[4]? ≠ some (ch '-') ∨ s[7]? ≠ some (ch '-')
  · rw [if_pos hform]
    constructor
    · intro h
      cases h
    · rintro ⟨⟨h1, h2, h3⟩, -⟩
      tauto
  · rw [if_neg hform]
    have hform' : s.length = 10 ∧ s[4]? = some (ch '-') ∧ s[7]? = some (ch '-') := by tauto
    constructor
    · intro h
      cases h1 : readField s 0 4 with
      | error e => simp [h1, bind, Except.bind] at h
      | ok y =>
        cases h2 : readField s 5 2 with
        | error e => simp [h1, h2, bind, Except.bind] at h
        | ok m =>
          cases h3 : readField s 8 2 with
          | error e => simp [h1, h2, h3, bind, Except.bind] at h
          | ok d =>
            cases h4 : toSysDays ⟨y, m, d⟩ with
            | error e => simp [h1, h2, h3, h4, bind, Except.bind] at h
            | ok n =>
              simp only [h1, h2, h3, h4, bind, Except.bind, Except.ok.injEq] at h
              subst h
              exact ⟨hform', rfl, rfl, rfl, n, h4⟩
    · rintro ⟨-, h1, h2, h3, n, h4⟩
      simp only [h1, h2, h3, bind, Except.bind, h4]

/-- The text of a date splits into its three fields. -/
theorem readField_formatted {y m d : ℤ} (hy : 0 ≤ y ∧ y < 10 ^ 4) (hm : 0 ≤ m ∧ m < 10 ^ 2)
    (hd : 0 ≤ d ∧ d < 10 ^ 2) :
    let s := formatPadded 4 y ++ ch '-' :: formatPadded 2 m ++ ch '-' :: formatPadded 2 d
    s.length = 10 ∧ s[4]? = some (ch '-') ∧ s[7]? = some (ch '-') ∧
      readField s 0 4 = .ok y ∧ readField s 5 2 = .ok m ∧ readField s 8 2 = .ok d := by
  intro s
  have ly := length_formatPadded (w := 4) (by norm_num) hy.1 hy.2
  have lm := length_formatPadded (w := 2) (by norm_num) hm.1 hm.2
  have ld := length_formatPadded (w := 2) (by norm_num) hd.1 hd.2
  have fy := fromChars_formatPadded (w := 4) (by norm_num) hy.1 hy.2 (by unfold int32Max; omega)
  have fm := fromChars_formatPadded (w := 2) (by norm_num) hm.1 hm.2 (by unfold int32Max; omega)
  have fd := fromChars_formatPadded (w := 2) (by norm_num) hd.1 hd.2 (by unfold int32Max; omega)
  obtain ⟨y1, y2, y3, y4, ey⟩ := List.length_eq_four.mp ly
  obtain ⟨m1, m2, em⟩ := List.length_eq_two.mp lm
  obtain ⟨d1, d2, ed⟩ := List.length_eq_two.mp ld
  rw [ey] at fy
  rw [em] at fm
  rw [ed] at fd
  have hs : s = [y1, y2, y3, y4, ch '-', m1, m2, ch '-', d1, d2] := by
    simp only [s, ey, em, ed]
    rfl
  simp [hs, readField, fy, fm, fd]

/-- The string of a day of the calendar parses back to that day's date. -/
theorem parseDate_formatDate {parts : DateParts} {n : ℤ} (h : toSysDays parts = .ok n) :
    ∃ s, formatDate parts = .ok s ∧ parseDate s = .ok parts := by
  obtain ⟨h1, h2, ⟨hm1, hm2, hd1, hd2⟩, -⟩ := toSysDays_eq_ok.mp h
  have := daysInMonth_le (isLeap parts.year) parts.month
  simp only [DateParts.ymd] at hm1 hm2 hd1 hd2
  obtain ⟨hlen, h4, h7, ry, rm, rd⟩ := readField_formatted (y := parts.year) (m := parts.month)
    (d := parts.day) (by omega) (by omega) (by omega)
  refine ⟨_, by simp only [formatDate, h]; rfl, ?_⟩
  exact parseDate_eq_ok.mpr ⟨⟨hlen, h4, h7⟩, ry, rm, rd, n, h⟩

/-- Every supported day has a date string, which denotes it. -/
theorem dayOf_formatDate {n : ℤ} (h0 : firstSysDay ≤ n) (h1 : n ≤ lastSysDay) :
    ∃ s, formatDate (fromSysDays n) = .ok s ∧ dayOf s = .ok n := by
  have h := toSysDays_fromSysDays h0 h1
  obtain ⟨s, hs, hp⟩ := parseDate_formatDate h
  refine ⟨s, hs, ?_⟩
  rw [dayOf, hp]
  exact h

/-! ## Day arithmetic -/

/-- A date string that parses denotes a day. -/
theorem dayOf_of_parseDate {s : Bytes} {parts : DateParts} (h : parseDate s = .ok parts) :
    ∃ n, toSysDays parts = .ok n ∧ dayOf s = .ok n := by
  obtain ⟨-, -, -, -, n, hn⟩ := parseDate_eq_ok.mp h
  refine ⟨n, hn, ?_⟩
  rw [dayOf, h]
  exact hn

theorem parseDate_of_dayOf {s : Bytes} {n : ℤ} (h : dayOf s = .ok n) :
    ∃ parts, parseDate s = .ok parts ∧ toSysDays parts = .ok n := by
  unfold dayOf at h
  cases hp : parseDate s with
  | error e => simp [hp, bind, Except.bind] at h
  | ok parts => exact ⟨parts, rfl, by simpa [hp, bind, Except.bind] using h⟩

theorem dayOf_range {s : Bytes} {n : ℤ} (h : dayOf s = .ok n) :
    firstSysDay ≤ n ∧ n ≤ lastSysDay := by
  obtain ⟨parts, -, hn⟩ := parseDate_of_dayOf h
  exact toSysDays_range hn

theorem daysBetween_eq {a b : Bytes} {m n : ℤ} (ha : dayOf a = .ok m) (hb : dayOf b = .ok n) :
    daysBetween a b = .ok (n - m) := by
  obtain ⟨pa, hpa, hm⟩ := parseDate_of_dayOf ha
  obtain ⟨pb, hpb, hn⟩ := parseDate_of_dayOf hb
  have ra := dayOf_range ha
  have rb := dayOf_range hb
  rw [firstSysDay_eq, lastSysDay_eq] at ra rb
  simp only [daysBetween, hpa, hpb, bind, Except.bind, hm, hn]
  rw [toInt32_of_range (by unfold int32Min; omega) (by unfold int32Max; omega)]

theorem daysBetween_ok {a b : Bytes} {k : ℤ} (h : daysBetween a b = .ok k) :
    ∃ m n, dayOf a = .ok m ∧ dayOf b = .ok n ∧ k = n - m := by
  cases hpa : parseDate a with
  | error e => simp [daysBetween, hpa, bind, Except.bind] at h
  | ok pa =>
    cases hpb : parseDate b with
    | error e => simp [daysBetween, hpa, hpb, bind, Except.bind] at h
    | ok pb =>
      obtain ⟨m, -, hm⟩ := dayOf_of_parseDate hpa
      obtain ⟨n, -, hn⟩ := dayOf_of_parseDate hpb
      rw [daysBetween_eq hm hn, Except.ok.injEq] at h
      exact ⟨m, n, hm, hn, h.symm⟩

/-- `add_days` inside the supported range. -/
theorem addDays_eq {a : Bytes} {m k : ℤ} (ha : dayOf a = .ok m) (h0 : firstSysDay ≤ m + k)
    (h1 : m + k ≤ lastSysDay) : ∃ s, addDays a k = .ok s ∧ dayOf s = .ok (m + k) := by
  obtain ⟨pa, hpa, hm⟩ := parseDate_of_dayOf ha
  obtain ⟨s, hs, hday⟩ := dayOf_formatDate h0 h1
  refine ⟨s, ?_, hday⟩
  simp only [addDays, hpa, bind, Except.bind, hm]
  rw [if_neg (by omega), hs]

theorem addDays_ok {a s : Bytes} {k : ℤ} (h : addDays a k = .ok s) :
    ∃ m, dayOf a = .ok m ∧ dayOf s = .ok (m + k) := by
  cases hpa : parseDate a with
  | error e => simp [addDays, hpa, bind, Except.bind] at h
  | ok pa =>
    obtain ⟨m, hm, hday⟩ := dayOf_of_parseDate hpa
    simp only [addDays, hpa, bind, Except.bind, hm] at h
    split_ifs at h with hr
    obtain ⟨s', hs', hday'⟩ := dayOf_formatDate (n := m + k) (by omega) (by omega)
    rw [hs', Except.ok.injEq] at h
    exact ⟨m, hday, h ▸ hday'⟩

/-! ## Splitting a range -/

/-- `days_between(chunk_start, end)` as the loop of `split_date_range` counts down. -/
def daysLeft (chunkStart stop : Bytes) : ℕ :=
  match daysBetween chunkStart stop with
  | .ok n => n.toNat
  | .error _ => 0

/-- The loop of `split_date_range` (lines 82–91), entered with `max_days ≥ 0`. -/
def splitLoop (stop : Bytes) (maxDays : ℤ) (h0 : 0 ≤ maxDays) (ranges : List DateRange)
    (chunkStart : Bytes) : Except StdException (List DateRange) :=
  match _hr : daysBetween chunkStart stop with
  | .error e => .error e
  | .ok remaining =>
    if _hle : remaining ≤ maxDays then .ok (ranges ++ [(chunkStart, stop)])
    else
      match _he : addDays chunkStart maxDays with
      | .error e => .error e
      | .ok chunkEnd =>
        match _hn : addDays chunkEnd 1 with
        | .error e => .error e
        | .ok next => splitLoop stop maxDays h0 (ranges ++ [(chunkStart, chunkEnd)]) next
termination_by daysLeft chunkStart stop
decreasing_by
  obtain ⟨m, n, hm, hstop, rfl⟩ := daysBetween_ok _hr
  obtain ⟨m1, hm1, he1⟩ := addDays_ok _he
  obtain ⟨m2, hm2, hn1⟩ := addDays_ok _hn
  rw [hm, Except.ok.injEq] at hm1
  rw [he1, Except.ok.injEq] at hm2
  simp only [daysLeft, daysBetween_eq hn1 hstop, _hr]
  omega

/-- `split_date_range` (lines 74–94); the default of `max_days` is 365. -/
def splitDateRange (start stop : Bytes) (maxDays : ℤ := 365) :
    Except StdException (List DateRange) :=
  if h : maxDays < 0 then
    .error (.invalidArgument (bytes "Invalid date range or negative chunk size"))
  else do
    let days ← daysBetween start stop
    if days < 0 then
      .error (.invalidArgument (bytes "Invalid date range or negative chunk size"))
    else splitLoop stop maxDays (not_lt.mp h) [] start

/-- The day a valid date string denotes. -/
def dayNumber (s : Bytes) : ℤ :=
  match dayOf s with
  | .ok n => n
  | .error _ => 0

theorem dayNumber_eq {s : Bytes} {n : ℤ} (h : dayOf s = .ok n) : dayNumber s = n := by
  rw [dayNumber, h]

/-- The interval of days a range of date strings denotes. -/
def rangeDays (r : DateRange) : ℤ × ℤ := (dayNumber r.1, dayNumber r.2)

/-- Both ends of the range are valid date strings. -/
def ValidRange (r : DateRange) : Prop :=
  dayOf r.1 = .ok (rangeDays r).1 ∧ dayOf r.2 = .ok (rangeDays r).2

theorem rangeDays_eq {start stop : Bytes} {m n : ℤ} (hm : dayOf start = .ok m)
    (hn : dayOf stop = .ok n) :
    rangeDays (start, stop) = (m, n) ∧ ValidRange (start, stop) := by
  simp only [ValidRange, rangeDays, dayNumber_eq hm, dayNumber_eq hn]
  exact ⟨trivial, hm, hn⟩

theorem splitLoop_last {start stop : Bytes} {maxDays n : ℤ} {h0 : 0 ≤ maxDays}
    {ranges : List DateRange} (hr : daysBetween start stop = .ok n) (hle : n ≤ maxDays) :
    splitLoop stop maxDays h0 ranges start = .ok (ranges ++ [(start, stop)]) := by
  rw [splitLoop]
  split
  · simp_all
  · next n' hr' =>
    rw [hr, Except.ok.injEq] at hr'
    rw [dif_pos (hr' ▸ hle)]

theorem splitLoop_next {start stop chunkEnd next : Bytes} {maxDays n : ℤ} {h0 : 0 ≤ maxDays}
    {ranges : List DateRange} (hr : daysBetween start stop = .ok n) (hlt : maxDays < n)
    (he : addDays start maxDays = .ok chunkEnd) (hn : addDays chunkEnd 1 = .ok next) :
    splitLoop stop maxDays h0 ranges start =
      splitLoop stop maxDays h0 (ranges ++ [(start, chunkEnd)]) next := by
  rw [splitLoop]
  split
  · simp_all
  · next n' hr' =>
    rw [hr, Except.ok.injEq] at hr'
    rw [dif_neg (by omega)]
    split
    · simp_all
    · next e' he' =>
      rw [he, Except.ok.injEq] at he'
      subst he'
      split
      · simp_all
      · next next' hn' =>
        rw [hn, Except.ok.injEq] at hn'
        rw [hn']

theorem splitLoop_eq {stop : Bytes} {maxDays : ℤ} (h0 : 0 ≤ maxDays) {n : ℤ}
    (hstop : dayOf stop = .ok n) :
    ∀ (d : ℕ) (chunkStart : Bytes) (m : ℤ) (ranges : List DateRange),
      dayOf chunkStart = .ok m → m ≤ n → (n - m).toNat = d →
      ∃ l, splitLoop stop maxDays h0 ranges chunkStart = .ok (ranges ++ l) ∧
        Chunked maxDays m n (l.map rangeDays) ∧ ∀ r ∈ l, ValidRange r := by
  intro d
  induction d using Nat.strong_induction_on with
  | _ d ih =>
    intro chunkStart m ranges hm hmn hd
    have hn := dayOf_range hstop
    have hm' := dayOf_range hm
    have hleft := daysBetween_eq hm hstop
    by_cases hle : n - m ≤ maxDays
    · obtain ⟨hdays, hvalid⟩ := rangeDays_eq hm hstop
      refine ⟨[(chunkStart, stop)], splitLoop_last hleft hle, ?_, by simpa using hvalid⟩
      rw [List.map_singleton, hdays]
      exact .last hmn hle
    · -- not the last chunk: the next one begins inside the range
      obtain ⟨chunkEnd, he, hdayEnd⟩ := addDays_eq (k := maxDays) hm (by omega) (by omega)
      obtain ⟨next, hnext, hdayNext⟩ := addDays_eq (k := 1) hdayEnd (by omega) (by omega)
      obtain ⟨hdays, hvalid⟩ := rangeDays_eq hm hdayEnd
      obtain ⟨l, hl, hc, hlc⟩ := ih (n - (m + maxDays + 1)).toNat (by omega) next
        (m + maxDays + 1) (ranges ++ [(chunkStart, chunkEnd)]) hdayNext (by omega) rfl
      refine ⟨(chunkStart, chunkEnd) :: l, ?_, ?_, List.forall_mem_cons.mpr ⟨hvalid, hlc⟩⟩
      · rw [splitLoop_next hleft (by omega) he hnext, hl, List.append_assoc,
          List.singleton_append]
      · rw [List.map_cons, hdays]
        exact .cons hc

/-- On dates in order, `split_date_range` cuts the range into consecutive chunks. -/
theorem splitDateRange_eq {start stop : Bytes} {maxDays m n : ℤ} (h0 : 0 ≤ maxDays)
    (hm : dayOf start = .ok m) (hn : dayOf stop = .ok n) (hmn : m ≤ n) :
    ∃ l, splitDateRange start stop maxDays = .ok l ∧ Chunked maxDays m n (l.map rangeDays) ∧
      ∀ r ∈ l, ValidRange r := by
  obtain ⟨l, hl, hc, hlc⟩ := splitLoop_eq h0 hn _ start m [] hm hmn rfl
  refine ⟨l, ?_, hc, hlc⟩
  simp only [splitDateRange, daysBetween_eq hm hn, bind, Except.bind]
  rw [dif_neg (by omega), if_neg (by omega), hl, List.nil_append]

/-- A range of at most `max_days + 1` days is one chunk. -/
theorem splitDateRange_single {start stop : Bytes} {maxDays m n : ℤ} (hm : dayOf start = .ok m)
    (hn : dayOf stop = .ok n) (hmn : m ≤ n) (hle : n - m ≤ maxDays) :
    splitDateRange start stop maxDays = .ok [(start, stop)] := by
  have hdays := daysBetween_eq hm hn
  simp only [splitDateRange, hdays, bind, Except.bind]
  rw [dif_neg (by omega), if_neg (by omega), splitLoop_last hdays hle, List.nil_append]

/-- `split_date_range` succeeds only on two dates in order. -/
theorem splitDateRange_ok {start stop : Bytes} {maxDays : ℤ} {l : List DateRange}
    (h : splitDateRange start stop maxDays = .ok l) :
    0 ≤ maxDays ∧ ∃ m n, dayOf start = .ok m ∧ dayOf stop = .ok n ∧ m ≤ n := by
  unfold splitDateRange at h
  split_ifs at h with h0
  cases hd : daysBetween start stop with
  | error e => simp [hd, bind, Except.bind] at h
  | ok k =>
    obtain ⟨m, n, hm, hn, rfl⟩ := daysBetween_ok hd
    simp only [hd, bind, Except.bind] at h
    split_ifs at h with hlt
    exact ⟨by omega, m, n, hm, hn, by omega⟩

/-- What `split_date_range` returns cuts the range of its arguments. -/
theorem splitDateRange_chunked {start stop : Bytes} {maxDays : ℤ} {l : List DateRange}
    (h : splitDateRange start stop maxDays = .ok l) :
    Chunked maxDays (dayNumber start) (dayNumber stop) (l.map rangeDays) ∧
      ∀ r ∈ l, ValidRange r := by
  obtain ⟨h0, m, n, hm, hn, hmn⟩ := splitDateRange_ok h
  obtain ⟨l', hl', hc, hv⟩ := splitDateRange_eq h0 hm hn hmn
  rw [h, Except.ok.injEq] at hl'
  rw [dayNumber_eq hm, dayNumber_eq hn, hl']
  exact ⟨hc, hv⟩

/-- No chunk comes twice. -/
theorem splitDateRange_nodup {start stop : Bytes} {maxDays : ℤ} {l : List DateRange}
    (h : splitDateRange start stop maxDays = .ok l) : l.Nodup := by
  obtain ⟨h0, -⟩ := splitDateRange_ok h
  obtain ⟨hc, -⟩ := splitDateRange_chunked h
  have hnd : (l.map rangeDays).Nodup := by
    apply (hc.pairwise h0).imp_of_mem
    intro a b ha _ hlt heq
    have := hc.mem_bounds h0 a ha
    rw [heq] at this hlt
    omega
  exact hnd.of_map rangeDays

end NceiCpp.Core
