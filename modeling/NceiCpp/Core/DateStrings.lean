import NceiCpp.Core.DateRange

/-!
# The strings that denote a date

* `parseDate_iff`: `parse_date` accepts the strings of the form `DateText` that denote a
  supported date, and no others; `format_date` inverts it (`parseDate_grammar`).
* `dayOf_inj`: a day has one string. `lt_of_dayOf_lt`: strings are ordered as the days are.
-/

namespace NceiCpp.Core

open DecimalDigits Gregorian

/-- Four digits, a hyphen, two digits, a hyphen and two digits, with the numbers they
    denote. -/
def DateText (s : Bytes) (parts : DateParts) : Prop :=
  ∃ year month day : Bytes, s = year ++ ch '-' :: month ++ ch '-' :: day ∧
    year.length = 4 ∧ month.length = 2 ∧ day.length = 2 ∧
    (∀ c ∈ year ++ month ++ day, isDigit c = true) ∧
    parts = ⟨value (year.map digitVal), value (month.map digitVal), value (day.map digitVal)⟩

/-- The date exists, in one of the years 1 to 9999. -/
def Supported (parts : DateParts) : Prop :=
  1 ≤ parts.year ∧ parts.year ≤ 9999 ∧ Valid parts.ymd

instance (parts : DateParts) : Decidable (Supported parts) :=
  inferInstanceAs (Decidable (_ ∧ _ ∧ _))

theorem toSysDays_ok_iff {parts : DateParts} :
    (∃ n, toSysDays parts = .ok n) ↔ Supported parts := by
  constructor
  · rintro ⟨n, hn⟩
    obtain ⟨h1, h2, h3, -⟩ := toSysDays_eq_ok.mp hn
    exact ⟨h1, h2, h3⟩
  · rintro ⟨h1, h2, h3⟩
    exact ⟨_, toSysDays_eq_ok.mpr ⟨h1, h2, h3, rfl⟩⟩

theorem Supported.bounds {parts : DateParts} (h : Supported parts) :
    (0 ≤ parts.year ∧ parts.year < 10 ^ 4) ∧ (0 < parts.month ∧ parts.month < 10 ^ 2) ∧
      0 < parts.day ∧ parts.day < 10 ^ 2 := by
  obtain ⟨h1, h2, h3, h4, h5, h6⟩ := h
  have := daysInMonth_le (isLeap parts.year) parts.month
  simp only [DateParts.ymd] at h3 h4 h5 h6
  omega

/-- A string with hyphens at the positions 4 and 7 has three fields. -/
theorem split_fields {s : Bytes} (hlen : s.length = 10) (h4 : s[4]? = some (ch '-'))
    (h7 : s[7]? = some (ch '-')) :
    s = s.take 4 ++ ch '-' :: (s.drop 5).take 2 ++ ch '-' :: (s.drop 8).take 2 := by
  have hdrop4 : s.drop 4 = ch '-' :: s.drop 5 := by
    obtain ⟨hlt, hget⟩ := List.getElem?_eq_some_iff.mp h4
    rw [List.drop_eq_getElem_cons hlt, hget]
  have hdrop7 : s.drop 7 = ch '-' :: s.drop 8 := by
    obtain ⟨hlt, hget⟩ := List.getElem?_eq_some_iff.mp h7
    rw [List.drop_eq_getElem_cons hlt, hget]
  have hdrop5 : s.drop 5 = (s.drop 5).take 2 ++ s.drop 7 := by
    rw [show s.drop 7 = (s.drop 5).drop 2 by rw [List.drop_drop], List.take_append_drop]
  have htake8 : (s.drop 8).take 2 = s.drop 8 :=
    List.take_of_length_le (by rw [List.length_drop]; omega)
  calc s = s.take 4 ++ s.drop 4 := (List.take_append_drop 4 s).symm
    _ = s.take 4 ++ ch '-' :: ((s.drop 5).take 2 ++ ch '-' :: s.drop 8) := by
      rw [hdrop4, hdrop5, hdrop7, List.take_append_of_le_length]
      · rw [List.take_take]
        rfl
      · rw [List.length_take, List.length_drop]
        omega
    _ = _ := by rw [htake8, List.append_assoc, List.cons_append]

theorem fields_of_append {year month day : Bytes} (hy : year.length = 4) (hm : month.length = 2)
    (hd : day.length = 2) :
    let s := year ++ ch '-' :: month ++ ch '-' :: day
    (s.length = 10 ∧ s[4]? = some (ch '-') ∧ s[7]? = some (ch '-')) ∧
      (s.drop 0).take 4 = year ∧ (s.drop 5).take 2 = month ∧ (s.drop 8).take 2 = day := by
  intro s
  obtain ⟨y1, y2, y3, y4, rfl⟩ := List.length_eq_four.mp hy
  obtain ⟨m1, m2, rfl⟩ := List.length_eq_two.mp hm
  obtain ⟨d1, d2, rfl⟩ := List.length_eq_two.mp hd
  exact ⟨⟨rfl, rfl, rfl⟩, rfl, rfl, rfl⟩

/-- `parse_date` accepts its grammar and nothing else. -/
theorem parseDate_iff {s : Bytes} {parts : DateParts} :
    parseDate s = .ok parts ↔ DateText s parts ∧ Supported parts := by
  rw [parseDate_eq_ok, toSysDays_ok_iff]
  constructor
  · rintro ⟨⟨hlen, h4, h7⟩, hy, hm, hd, hsupported⟩
    have hb := hsupported.bounds
    rw [readField_eq_ok] at hy hm hd
    obtain ⟨-, hyd, hyv⟩ := fromChars_pos hy (by have := hsupported.1; omega)
    obtain ⟨-, hmd, hmv⟩ := fromChars_pos hm (by omega)
    obtain ⟨-, hdd, hdv⟩ := fromChars_pos hd (by omega)
    refine ⟨⟨_, _, _, split_fields hlen h4 h7, ?_, ?_, ?_, ?_, ?_⟩, hsupported⟩
    · rw [List.length_take]
      omega
    · rw [List.length_take, List.length_drop]
      omega
    · rw [List.length_take, List.length_drop]
      omega
    · rw [List.forall_mem_append, List.forall_mem_append]
      exact ⟨⟨hyd, hmd⟩, hdd⟩
    · obtain ⟨y, m, d⟩ := parts
      rw [DateParts.mk.injEq]
      exact ⟨hyv, hmv, hdv⟩
  · rintro ⟨⟨year, month, day, rfl, hy, hm, hd, hdigits, rfl⟩, hsupported⟩
    have hb := hsupported.bounds
    obtain ⟨hform, ty, tm, td⟩ := fields_of_append hy hm hd
    rw [List.forall_mem_append, List.forall_mem_append] at hdigits
    simp only [readField_eq_ok, ty, tm, td]
    refine ⟨hform, fromChars_text (by rintro rfl; simp at hy) hdigits.1.1 ?_,
      fromChars_text (by rintro rfl; simp at hm) hdigits.1.2 ?_,
      fromChars_text (by rintro rfl; simp at hd) hdigits.2 ?_, hsupported⟩ <;>
    · unfold int32Max
      simp only at hb
      omega

theorem formatDate_eq {parts : DateParts} (h : Supported parts) :
    formatDate parts = .ok (formatPadded 4 parts.year ++ ch '-' :: formatPadded 2 parts.month ++
      ch '-' :: formatPadded 2 parts.day) := by
  obtain ⟨n, hn⟩ := toSysDays_ok_iff.mpr h
  simp only [formatDate, hn]
  rfl

theorem formatDate_ok_iff {parts : DateParts} :
    (∃ s, formatDate parts = .ok s) ↔ Supported parts := by
  constructor
  · rintro ⟨s, hs⟩
    cases hn : toSysDays parts with
    | error e => simp [formatDate, hn, bind, Except.bind] at hs
    | ok n => exact toSysDays_ok_iff.mp ⟨n, hn⟩
  · intro h
    exact ⟨_, formatDate_eq h⟩

/-- Formatting a date that was read gives back the string. -/
theorem formatDate_of_parseDate {s : Bytes} {parts : DateParts} (h : parseDate s = .ok parts) :
    formatDate parts = .ok s := by
  obtain ⟨⟨year, month, day, rfl, hy, hm, hd, hdigits, rfl⟩, hsupported⟩ := parseDate_iff.mp h
  rw [List.forall_mem_append, List.forall_mem_append] at hdigits
  have ty := formatPadded_text (by rintro rfl; simp at hy) hdigits.1.1
  have tm := formatPadded_text (by rintro rfl; simp at hm) hdigits.1.2
  have td := formatPadded_text (by rintro rfl; simp at hd) hdigits.2
  rw [hy] at ty
  rw [hm] at tm
  rw [hd] at td
  rw [formatDate_eq hsupported]
  simp only [ty, tm, td]

/-- For every string and every date: what `parse_date` accepts is what its grammar says, what
    `format_date` accepts are the dates that exist, and the two are inverse to each other. -/
theorem parseDate_grammar :
    (∀ (s : Bytes) (parts : DateParts),
      parseDate s = .ok parts ↔ DateText s parts ∧ Supported parts) ∧
    (∀ (s : Bytes) (parts : DateParts), parseDate s = .ok parts → formatDate parts = .ok s) ∧
    (∀ parts : DateParts, (∃ s, formatDate parts = .ok s) ↔ Supported parts) ∧
    ∀ (parts : DateParts) (s : Bytes), formatDate parts = .ok s → parseDate s = .ok parts := by
  refine ⟨fun s parts => parseDate_iff, fun s parts => formatDate_of_parseDate,
    fun parts => formatDate_ok_iff, fun parts s hs => ?_⟩
  obtain ⟨n, hn⟩ := toSysDays_ok_iff.mpr (formatDate_ok_iff.mp ⟨s, hs⟩)
  obtain ⟨s', hs', hparse⟩ := parseDate_formatDate hn
  rw [hs, Except.ok.injEq] at hs'
  rwa [hs']

/-! ## Days and strings -/

/-- A date string that denotes a day, with the date in between. -/
theorem dayOf_eq_ok {s : Bytes} {n : ℤ} (h : dayOf s = .ok n) :
    ∃ parts, Supported parts ∧ n = toDays parts.ymd - epochDay ∧ formatDate parts = .ok s := by
  obtain ⟨parts, hparse, hn⟩ := parseDate_of_dayOf h
  obtain ⟨h1, h2, h3, rfl⟩ := toSysDays_eq_ok.mp hn
  exact ⟨parts, ⟨h1, h2, h3⟩, rfl, formatDate_of_parseDate hparse⟩

/-- A day has one date string. -/
theorem dayOf_inj {a b : Bytes} {n : ℤ} (ha : dayOf a = .ok n) (hb : dayOf b = .ok n) : a = b := by
  obtain ⟨p, hp, hn, hformat⟩ := dayOf_eq_ok ha
  obtain ⟨q, hq, hn', hformat'⟩ := dayOf_eq_ok hb
  have hdate := ofDays_toDays hp.2.2
  rw [show toDays p.ymd = toDays q.ymd by omega, ofDays_toDays hq.2.2] at hdate
  have hpq : p = q := by
    obtain ⟨y, m, d⟩ := p
    obtain ⟨y', m', d'⟩ := q
    simpa [DateParts.ymd, eq_comm] using hdate
  rw [hpq, hformat', Except.ok.injEq] at hformat
  exact hformat.symm

/-- The order of two strings is decided by their beginnings of one length. -/
theorem append_lt_append {a b c d : Bytes} (hlen : a.length = b.length) (h : a < b) :
    a ++ c < b ++ d := by
  induction a generalizing b with
  | nil =>
    obtain rfl := List.eq_nil_of_length_eq_zero hlen.symm
    exact absurd h (List.lt_irrefl _)
  | cons x a ih =>
    obtain ⟨y, b, rfl⟩ := List.exists_cons_of_length_eq_add_one hlen.symm
    rw [List.cons_append, List.cons_append, List.cons_lt_cons_iff]
    rcases List.cons_lt_cons_iff.mp h with hlt | ⟨rfl, hlt⟩
    · exact .inl hlt
    · exact .inr ⟨rfl, ih (Nat.succ.inj hlen) hlt⟩

/-- Date strings are ordered as the days they denote. -/
theorem lt_of_dayOf_lt {a b : Bytes} {m n : ℤ} (ha : dayOf a = .ok m) (hb : dayOf b = .ok n)
    (hmn : m < n) : a < b := by
  obtain ⟨p, hp, rfl, hformat⟩ := dayOf_eq_ok ha
  obtain ⟨q, hq, rfl, hformat'⟩ := dayOf_eq_ok hb
  obtain ⟨hpy, hpm, hpd⟩ := hp.bounds
  obtain ⟨hqy, hqm, hqd⟩ := hq.bounds
  rw [formatDate_eq hp, Except.ok.injEq] at hformat
  rw [formatDate_eq hq, Except.ok.injEq] at hformat'
  subst hformat hformat'
  simp only [List.append_assoc, List.cons_append]
  have hlength : ∀ k : ℤ, 0 ≤ k ∧ k < 10 ^ 4 → (formatPadded 4 k).length = 4 := fun k hk =>
    length_formatPadded (by norm_num) hk.1 hk.2
  have hlength' : ∀ k : ℤ, 0 < k ∧ k < 10 ^ 2 → (formatPadded 2 k).length = 2 := fun k hk =>
    length_formatPadded (by norm_num) hk.1.le hk.2
  rcases lt_cases_of_toDays_lt hp.2.2 hq.2.2 (by omega) with
    hyear | ⟨hyear, hmonth⟩ | ⟨hyear, hmonth, hday⟩
  · refine append_lt_append ?_ (formatPadded_lt (by norm_num) hpy.1 hyear hqy.2)
    rw [hlength _ hpy, hlength _ hqy]
  · rw [show p.year = q.year from hyear]
    refine List.append_left_lt (List.cons_lt_cons_iff.mpr (.inr ⟨rfl, ?_⟩))
    refine append_lt_append ?_ (formatPadded_lt (by norm_num) hpm.1.le hmonth hqm.2)
    rw [hlength' _ hpm, hlength' _ hqm]
  · rw [show p.year = q.year from hyear, show p.month = q.month from hmonth]
    refine List.append_left_lt (List.cons_lt_cons_iff.mpr (.inr ⟨rfl, ?_⟩))
    refine List.append_left_lt (List.cons_lt_cons_iff.mpr (.inr ⟨rfl, ?_⟩))
    exact formatPadded_lt (by norm_num) hpd.1.le hday hqd.2

end NceiCpp.Core
