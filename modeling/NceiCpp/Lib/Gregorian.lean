import Mathlib

/-!
# The proleptic Gregorian calendar

Day numbers of civil dates and back. Day 0 is 0001-01-01; years and days are
integers, so the calendar extends to year 0 and before.

* `toDays_ofDays`, `ofDays_toDays`: `toDays` and `ofDays` are inverse bijections
  between the dates that exist (`Valid`) and the integers.
* `lt_cases_of_toDays_lt`: the days are ordered as year, month and day are.
* `daysBeforeYear_le_toDays`, `toDays_lt_daysBeforeYear`: the days of year `y`
  are those from `daysBeforeYear y` up to `daysBeforeYear (y + 1)`, exclusive.
-/

namespace Gregorian

/-- A civil date. -/
structure Date where
  year : ℤ
  month : ℤ
  day : ℤ
  deriving DecidableEq, Repr

def isLeap (y : ℤ) : Bool := y % 4 = 0 ∧ (y % 100 ≠ 0 ∨ y % 400 = 0)

/-- The length of February. -/
def lengthFebruary (leap : Bool) : ℤ := if leap then 29 else 28

/-- Days of the year before month `m`, for `1 ≤ m ≤ 13`; `daysBeforeMonth _ 13` is
    the length of the year. From March on the months fall into groups of five with
    153 days each. -/
def daysBeforeMonth (leap : Bool) (m : ℤ) : ℤ :=
  if m ≤ 2 then 31 * (m - 1) else 31 + lengthFebruary leap + (153 * (m - 3) + 2) / 5

def daysInMonth (leap : Bool) (m : ℤ) : ℤ := daysBeforeMonth leap (m + 1) - daysBeforeMonth leap m

/-- Days before the first of January of year `y`. -/
def daysBeforeYear (y : ℤ) : ℤ :=
  365 * (y - 1) + (y - 1) / 4 - (y - 1) / 100 + (y - 1) / 400

/-- The date exists. -/
def Valid (d : Date) : Prop :=
  1 ≤ d.month ∧ d.month ≤ 12 ∧ 1 ≤ d.day ∧ d.day ≤ daysInMonth (isLeap d.year) d.month

instance (d : Date) : Decidable (Valid d) := inferInstanceAs (Decidable (_ ∧ _ ∧ _ ∧ _))

/-- The day number of a date, 0 for 0001-01-01. -/
def toDays (d : Date) : ℤ :=
  daysBeforeYear d.year + daysBeforeMonth (isLeap d.year) d.month + (d.day - 1)

/-- The month that day `n` of a year (counted from 0) lies in. -/
def monthOf (leap : Bool) (n : ℤ) : ℤ :=
  if n < 31 then 1
  else if n < 31 + lengthFebruary leap then 2
  else (5 * (n - 31 - lengthFebruary leap) + 2) / 153 + 3

/-- The year that day `n` lies in: 400-, 100-, 4- and 1-year cycles in turn. A
    100-year cycle and a 4-year cycle may have one day more than four of the next. -/
def yearOf (n : ℤ) : ℤ :=
  let n1 := n % 146097
  let b := min 3 (n1 / 36524)
  let n2 := n1 - 36524 * b
  let n3 := n2 % 1461
  400 * (n / 146097) + 100 * b + 4 * (n2 / 1461) + min 3 (n3 / 365) + 1

/-- The date of day number `n`. -/
def ofDays (n : ℤ) : Date :=
  let y := yearOf n
  let doy := n - daysBeforeYear y
  let m := monthOf (isLeap y) doy
  ⟨y, m, doy - daysBeforeMonth (isLeap y) m + 1⟩

/-! ## Years -/

/-- A year has 365 days, and one more when it is a leap year. -/
theorem daysBeforeYear_succ (y : ℤ) :
    daysBeforeYear (y + 1) = daysBeforeYear y + 365 + (if isLeap y then 1 else 0) := by
  unfold daysBeforeYear isLeap
  have : (y + 1 - 1) = y := by ring
  rw [this]
  split_ifs with h <;> simp only [decide_eq_true_eq] at h <;> omega

theorem daysBeforeMonth_thirteen (leap : Bool) :
    daysBeforeMonth leap 13 = 365 + (if leap then 1 else 0) := by
  cases leap <;> rfl

theorem daysBeforeYear_mono {y y' : ℤ} (h : y ≤ y') : daysBeforeYear y ≤ daysBeforeYear y' := by
  unfold daysBeforeYear
  omega

/-- The day number of a year, by cycles: `a` of 400 years, `b` of 100, `c` of 4 and
    `d` single years. -/
theorem daysBeforeYear_cycles {a b c d : ℤ} (hb : 0 ≤ b ∧ b ≤ 3) (hc : 0 ≤ c ∧ c ≤ 24)
    (hd : 0 ≤ d ∧ d ≤ 3) :
    daysBeforeYear (400 * a + 100 * b + 4 * c + d + 1) =
      146097 * a + 36524 * b + 1461 * c + 365 * d := by
  unfold daysBeforeYear
  have h4 : (400 * a + 100 * b + 4 * c + d + 1 - 1) / 4 = 100 * a + 25 * b + c := by omega
  have h100 : (400 * a + 100 * b + 4 * c + d + 1 - 1) / 100 = 4 * a + b := by omega
  have h400 : (400 * a + 100 * b + 4 * c + d + 1 - 1) / 400 = a := by omega
  rw [h4, h100, h400]
  ring

/-- The year after a 4-year cycle's third is a leap year, except at the end of the
    first three centuries of a 400-year cycle. -/
theorem isLeap_cycles {a b c d : ℤ} (hb : 0 ≤ b ∧ b ≤ 3) (hc : 0 ≤ c ∧ c ≤ 24)
    (hd : 0 ≤ d ∧ d ≤ 3) :
    isLeap (400 * a + 100 * b + 4 * c + d + 1) = true ↔ d = 3 ∧ (c = 24 → b = 3) := by
  simp only [isLeap, decide_eq_true_eq]
  omega

/-- The year of day `n` is the one whose days include day `n`. -/
theorem yearOf_spec (n : ℤ) :
    daysBeforeYear (yearOf n) ≤ n ∧ n < daysBeforeYear (yearOf n + 1) := by
  obtain ⟨a, n1, ha, h1⟩ : ∃ a n1, n = 146097 * a + n1 ∧ 0 ≤ n1 ∧ n1 < 146097 :=
    ⟨n / 146097, n % 146097, by omega, by omega, by omega⟩
  obtain ⟨b, hb⟩ : ∃ b, b = min 3 (n1 / 36524) := ⟨_, rfl⟩
  obtain ⟨n2, h2⟩ : ∃ n2, n2 = n1 - 36524 * b := ⟨_, rfl⟩
  obtain ⟨c, n3, hc, h3⟩ : ∃ c n3, n2 = 1461 * c + n3 ∧ 0 ≤ n3 ∧ n3 < 1461 :=
    ⟨n2 / 1461, n2 % 1461, by omega, by omega, by omega⟩
  obtain ⟨d, hd⟩ : ∃ d, d = min 3 (n3 / 365) := ⟨_, rfl⟩
  have hy : yearOf n = 400 * a + 100 * b + 4 * c + d + 1 := by
    have e1 : n % 146097 = n1 := by omega
    have e2 : n / 146097 = a := by omega
    have e3 : n2 % 1461 = n3 := by omega
    have e4 : n2 / 1461 = c := by omega
    simp only [yearOf, e1, e2, ← hb, ← h2, e3, e4, ← hd]
  have bb : 0 ≤ b ∧ b ≤ 3 := by omega
  have bc : 0 ≤ c ∧ c ≤ 24 := by omega
  have bd : 0 ≤ d ∧ d ≤ 3 := by omega
  have hlow := daysBeforeYear_cycles (a := a) bb bc bd
  have hleap := isLeap_cycles (a := a) bb bc bd
  rw [hy, daysBeforeYear_succ (400 * a + 100 * b + 4 * c + d + 1), hlow]
  split_ifs with hl
  · omega
  · rw [hleap] at hl
    omega

/-! ## Months -/

theorem lengthFebruary_bounds (leap : Bool) :
    28 ≤ lengthFebruary leap ∧ lengthFebruary leap ≤ 29 := by
  cases leap <;> decide

/-- The month of a day of the year is the one whose days include it. -/
theorem monthOf_spec (leap : Bool) {n : ℤ} (h0 : 0 ≤ n) (h1 : n < daysBeforeMonth leap 13) :
    1 ≤ monthOf leap n ∧ monthOf leap n ≤ 12 ∧ daysBeforeMonth leap (monthOf leap n) ≤ n ∧
      n < daysBeforeMonth leap (monthOf leap n + 1) := by
  have hf := lengthFebruary_bounds leap
  simp only [daysBeforeMonth, show ¬ (13 : ℤ) ≤ 2 by norm_num, if_false] at h1
  obtain ⟨m, hm⟩ : ∃ m, m = monthOf leap n := ⟨_, rfl⟩
  rw [← hm]
  unfold monthOf at hm
  unfold daysBeforeMonth
  split_ifs at hm ⊢ <;> omega

theorem daysBeforeMonth_nonneg (leap : Bool) {m : ℤ} (h : 1 ≤ m) : 0 ≤ daysBeforeMonth leap m := by
  have hf := lengthFebruary_bounds leap
  unfold daysBeforeMonth
  split_ifs <;> omega

theorem daysBeforeMonth_mono (leap : Bool) {m m' : ℤ} (h : m ≤ m') :
    daysBeforeMonth leap m ≤ daysBeforeMonth leap m' := by
  have hf := lengthFebruary_bounds leap
  unfold daysBeforeMonth
  split_ifs <;> omega

theorem daysInMonth_le (leap : Bool) (m : ℤ) : daysInMonth leap m ≤ 31 := by
  have hf := lengthFebruary_bounds leap
  simp only [daysInMonth, daysBeforeMonth]
  split_ifs <;> omega

/-- Consecutive month starts determine the month. -/
theorem month_unique (leap : Bool) {m m' n : ℤ} (h : daysBeforeMonth leap m ≤ n)
    (h1 : n < daysBeforeMonth leap (m + 1)) (h' : daysBeforeMonth leap m' ≤ n)
    (h1' : n < daysBeforeMonth leap (m' + 1)) : m = m' := by
  rcases lt_trichotomy m m' with hlt | heq | hgt
  · have := daysBeforeMonth_mono leap (show m + 1 ≤ m' by omega)
    omega
  · exact heq
  · have := daysBeforeMonth_mono leap (show m' + 1 ≤ m by omega)
    omega

theorem year_unique {y y' n : ℤ} (h : daysBeforeYear y ≤ n) (h1 : n < daysBeforeYear (y + 1))
    (h' : daysBeforeYear y' ≤ n) (h1' : n < daysBeforeYear (y' + 1)) : y = y' := by
  rcases lt_trichotomy y y' with hlt | heq | hgt
  · have := daysBeforeYear_mono (show y + 1 ≤ y' by omega)
    omega
  · exact heq
  · have := daysBeforeYear_mono (show y' + 1 ≤ y by omega)
    omega

/-! ## The bijection -/

theorem daysBeforeYear_le_toDays {d : Date} (h : Valid d) : daysBeforeYear d.year ≤ toDays d := by
  have := daysBeforeMonth_nonneg (isLeap d.year) h.1
  have := h.2.2.1
  unfold toDays
  omega

theorem toDays_lt_daysBeforeYear {d : Date} (h : Valid d) :
    toDays d < daysBeforeYear (d.year + 1) := by
  obtain ⟨h1, h2, h3, h4⟩ := h
  have hm := daysBeforeMonth_mono (isLeap d.year) (show d.month + 1 ≤ 13 by omega)
  rw [daysBeforeMonth_thirteen] at hm
  rw [daysBeforeYear_succ]
  unfold daysInMonth at h4
  unfold toDays
  omega

/-- Every day number has a date, and that date exists. -/
theorem ofDays_valid (n : ℤ) : Valid (ofDays n) := by
  obtain ⟨hy1, hy2⟩ := yearOf_spec n
  rw [daysBeforeYear_succ] at hy2
  have hspan := daysBeforeMonth_thirteen (isLeap (yearOf n))
  obtain ⟨hm1, hm2, hm3, hm4⟩ := monthOf_spec (isLeap (yearOf n))
    (n := n - daysBeforeYear (yearOf n)) (by omega) (by omega)
  refine ⟨hm1, hm2, ?_, ?_⟩ <;> simp only [ofDays, daysInMonth] <;> omega

@[simp] theorem toDays_ofDays (n : ℤ) : toDays (ofDays n) = n := by
  simp only [toDays, ofDays]
  omega

/-- Different dates that exist have different day numbers. -/
theorem toDays_injOn {d d' : Date} (h : Valid d) (h' : Valid d') (he : toDays d = toDays d') :
    d = d' := by
  have hy : d.year = d'.year :=
    year_unique (daysBeforeYear_le_toDays h) (toDays_lt_daysBeforeYear h)
      (he ▸ daysBeforeYear_le_toDays h') (he ▸ toDays_lt_daysBeforeYear h')
  obtain ⟨-, -, h3, h4⟩ := h
  obtain ⟨-, -, h3', h4'⟩ := h'
  simp only [toDays, hy] at he
  rw [hy] at h4
  unfold daysInMonth at h4 h4'
  have hm : d.month = d'.month :=
    month_unique (isLeap d'.year)
      (n := daysBeforeMonth (isLeap d'.year) d.month + (d.day - 1)) (by omega) (by omega)
      (by omega) (by omega)
  rw [hm] at he
  have hd : d.day = d'.day := by omega
  cases d
  cases d'
  simp_all

theorem ofDays_toDays {d : Date} (h : Valid d) : ofDays (toDays d) = d :=
  toDays_injOn (ofDays_valid _) h (toDays_ofDays _)

/-- Years and day numbers are ordered alike. -/
theorem yearOf_mono {n n' : ℤ} (h : n ≤ n') : yearOf n ≤ yearOf n' := by
  by_contra hlt
  have := daysBeforeYear_mono (show yearOf n' + 1 ≤ yearOf n by omega)
  have := (yearOf_spec n).1
  have := (yearOf_spec n').2
  omega

@[simp] theorem ofDays_year (n : ℤ) : (ofDays n).year = yearOf n := rfl

/-- Days are ordered by year, then by month, then by day of the month. -/
theorem lt_cases_of_toDays_lt {d d' : Date} (h : Valid d) (h' : Valid d')
    (hlt : toDays d < toDays d') :
    d.year < d'.year ∨ (d.year = d'.year ∧ d.month < d'.month) ∨
      (d.year = d'.year ∧ d.month = d'.month ∧ d.day < d'.day) := by
  rcases lt_trichotomy d.year d'.year with hyear | hyear | hyear
  · exact .inl hyear
  · obtain ⟨-, -, h3, h4⟩ := h
    obtain ⟨-, -, h3', h4'⟩ := h'
    unfold toDays at hlt
    rw [hyear] at hlt h4
    unfold daysInMonth at h4 h4'
    rcases lt_trichotomy d.month d'.month with hmonth | hmonth | hmonth
    · exact .inr (.inl ⟨hyear, hmonth⟩)
    · rw [hmonth] at hlt
      exact .inr (.inr ⟨hyear, hmonth, by omega⟩)
    · have := daysBeforeMonth_mono (isLeap d'.year) (show d'.month + 1 ≤ d.month by omega)
      omega
  · have := daysBeforeYear_le_toDays h
    have := toDays_lt_daysBeforeYear h'
    have := daysBeforeYear_mono (show d'.year + 1 ≤ d.year by omega)
    omega

end Gregorian
