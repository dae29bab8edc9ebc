import NceiCpp.Core.DateStrings

/-!
# Laws of the day arithmetic on date strings

* `dayArithmetic_action`: `add_days` and `days_between` are the action of the integers on the
  days of the calendar, and `days_between` has the sign of the comparison of the strings.
* `splitDateRange_partition`: `split_date_range` cuts a range into consecutive ranges of equal
  length, the last one excepted, and throws on nothing but wrong arguments.
-/

namespace NceiCpp.Core

open Gregorian IntervalChunks

/-- `parse_date` accepts the string. -/
def ValidDate (s : Bytes) : Prop := ∃ parts, parseDate s = .ok parts

theorem ValidDate.dayOf {s : Bytes} (h : ValidDate s) : dayOf s = .ok (dayNumber s) := by
  obtain ⟨parts, hparse⟩ := h
  obtain ⟨n, -, hn⟩ := dayOf_of_parseDate hparse
  rw [dayNumber_eq hn, hn]

theorem validDate_of_dayOf {s : Bytes} {n : ℤ} (h : dayOf s = .ok n) : ValidDate s := by
  obtain ⟨parts, hparse, -⟩ := parseDate_of_dayOf h
  exact ⟨parts, hparse⟩

/-- The days of two strings are ordered as the strings are. -/
theorem dayNumber_lt_iff {a b : Bytes} (ha : ValidDate a) (hb : ValidDate b) :
    dayNumber a < dayNumber b ↔ a < b := by
  constructor
  · exact lt_of_dayOf_lt ha.dayOf hb.dayOf
  · intro h
    by_contra hle
    rcases (not_lt.mp hle).lt_or_eq with hlt | heq
    · exact List.lt_asymm h (lt_of_dayOf_lt hb.dayOf ha.dayOf hlt)
    · have hab : a = b := dayOf_inj ha.dayOf (heq ▸ hb.dayOf)
      exact List.lt_irrefl b (hab ▸ h)

theorem dayNumber_eq_iff {a b : Bytes} (ha : ValidDate a) (hb : ValidDate b) :
    dayNumber a = dayNumber b ↔ a = b := by
  constructor
  · intro h
    exact dayOf_inj ha.dayOf (h ▸ hb.dayOf)
  · rintro rfl
    rfl

/-- `add_days` outside the supported range. -/
theorem addDays_outOfRange {a : Bytes} {m k : ℤ} (ha : dayOf a = .ok m)
    (h : m + k < firstSysDay ∨ lastSysDay < m + k) :
    addDays a k = .error (.outOfRange (bytes "Date arithmetic exceeded year 1..9999")) := by
  obtain ⟨parts, hparse, hn⟩ := parseDate_of_dayOf ha
  simp only [addDays, hparse, bind, Except.bind, hn]
  rw [if_pos h]

/-- Two steps from a date are one step by the sum, also when they leave the calendar. -/
theorem addDays_addDays {a s : Bytes} {m n : ℤ} (h : addDays a m = .ok s) :
    addDays s n = addDays a (m + n) := by
  obtain ⟨k, hk, hs⟩ := addDays_ok h
  by_cases hout : k + m + n < firstSysDay ∨ lastSysDay < k + m + n
  · rw [addDays_outOfRange hs hout, addDays_outOfRange hk (by rwa [← add_assoc])]
  · obtain ⟨t, ht, htday⟩ := addDays_eq (k := n) hs (by omega) (by omega)
    obtain ⟨t', ht', htday'⟩ := addDays_eq (k := m + n) hk (by omega) (by omega)
    rw [ht, ht', dayOf_inj htday (add_assoc k m n ▸ htday')]

/-- The day arithmetic on date strings is an action of the integers on the days of the
    calendar: for all valid dates `a`, `b`, `c` and all integers `m`, `n`. -/
theorem dayArithmetic_action {a b c : Bytes} {parts : DateParts} (ha : parseDate a = .ok parts)
    (hb : ValidDate b) (hc : ValidDate c) (m n : ℤ) :
    (toDays parts.ymd + n < toDays ⟨1, 1, 1⟩ ∨ toDays ⟨9999, 12, 31⟩ < toDays parts.ymd + n →
        addDays a n = .error (.outOfRange (bytes "Date arithmetic exceeded year 1..9999"))) ∧
      (toDays ⟨1, 1, 1⟩ ≤ toDays parts.ymd + n → toDays parts.ymd + n ≤ toDays ⟨9999, 12, 31⟩ →
        ∃ s, addDays a n = .ok s ∧ ValidDate s ∧ daysBetween a s = .ok n) ∧
      (∀ s, addDays a m = .ok s → addDays s n = addDays a (m + n)) ∧
      ∃ ab bc ac, daysBetween a b = .ok ab ∧ daysBetween b c = .ok bc ∧
        daysBetween a c = .ok ac ∧ addDays a ab = .ok b ∧ ab + bc = ac ∧
        (ab < 0 ↔ b < a) ∧ (ab = 0 ↔ a = b) := by
  have ha' : ValidDate a := ⟨parts, ha⟩
  have hday : dayNumber a = toDays parts.ymd - epochDay := by
    obtain ⟨k, hk, hday⟩ := dayOf_of_parseDate ha
    rw [dayNumber_eq hday, (toSysDays_eq_ok.mp hk).2.2.2]
  have hfirst : firstSysDay = toDays ⟨1, 1, 1⟩ - epochDay := rfl
  have hlast : lastSysDay = toDays ⟨9999, 12, 31⟩ - epochDay := rfl
  refine ⟨fun hout => addDays_outOfRange ha'.dayOf (by omega), fun h1 h2 => ?_,
    fun s hs => addDays_addDays hs, ?_⟩
  · obtain ⟨s, hs, hsday⟩ := addDays_eq (k := n) ha'.dayOf (by omega) (by omega)
    refine ⟨s, hs, validDate_of_dayOf hsday, ?_⟩
    rw [daysBetween_eq ha'.dayOf hsday, add_sub_cancel_left]
  · refine ⟨_, _, _, daysBetween_eq ha'.dayOf hb.dayOf, daysBetween_eq hb.dayOf hc.dayOf,
      daysBetween_eq ha'.dayOf hc.dayOf, ?_, by ring, ?_, ?_⟩
    · have hrange := dayOf_range hb.dayOf
      obtain ⟨s, hs, hsday⟩ := addDays_eq (k := dayNumber b - dayNumber a) ha'.dayOf
        (by omega) (by omega)
      rw [add_sub_cancel] at hsday
      rw [hs, dayOf_inj hsday hb.dayOf]
    · rw [← dayNumber_lt_iff hb ha', sub_neg]
    · rw [← dayNumber_eq_iff ha' hb, sub_eq_zero, eq_comm]

/-- From the end of February over a leap day. -/
theorem dayArithmetic_action_leapDay :
    ∃ ab, daysBetween (bytes "2024-02-28") (bytes "2024-03-01") = .ok ab ∧
      addDays (bytes "2024-02-28") ab = .ok (bytes "2024-03-01") := by
  have hstart : parseDate (bytes "2024-02-28") = .ok ⟨2024, 2, 28⟩ := by decide
  have hstop : ValidDate (bytes "2024-03-01") := ⟨⟨2024, 3, 1⟩, by decide⟩
  obtain ⟨-, -, -, ab, -, -, h1, -, -, h2, -⟩ := dayArithmetic_action hstart hstop hstop 0 0
  exact ⟨ab, h1, h2⟩

/-! ## Splitting a range -/

theorem toSysDays_error {parts : DateParts} {e : StdException} (h : toSysDays parts = .error e) :
    ∃ what, e = .invalidArgument what := by
  unfold toSysDays at h
  split_ifs at h
  · exact ⟨_, (Except.error.inj h).symm⟩
  · exact ⟨_, (Except.error.inj h).symm⟩

theorem readField_error {s : Bytes} {offset count : ℕ} {e : StdException}
    (h : readField s offset count = .error e) : ∃ what, e = .invalidArgument what := by
  unfold readField at h
  split at h
  · cases h
  · exact ⟨_, (Except.error.inj h).symm⟩

theorem bind_eq_error {α β : Type} {m : Except StdException α}
    {f : α → Except StdException β} {e : StdException} (h : (m >>= f) = .error e) :
    m = .error e ∨ ∃ a, m = .ok a ∧ f a = .error e := by
  cases m with
  | error e' => exact .inl (by simpa [bind, Except.bind] using h)
  | ok a => exact .inr ⟨a, rfl, h⟩

/-- `parse_date` throws `invalid_argument`. -/
theorem parseDate_error {s : Bytes} {e : StdException} (h : parseDate s = .error e) :
    ∃ what, e = .invalidArgument what := by
  unfold parseDate at h
  split_ifs at h
  · exact ⟨_, (Except.error.inj h).symm⟩
  · rcases bind_eq_error h with h | ⟨y, -, h⟩
    · exact readField_error h
    rcases bind_eq_error h with h | ⟨m, -, h⟩
    · exact readField_error h
    rcases bind_eq_error h with h | ⟨d, -, h⟩
    · exact readField_error h
    rcases bind_eq_error h with h | ⟨n, -, h⟩
    · exact toSysDays_error h
    · cases h

theorem daysBetween_error {a b : Bytes} (h : ¬ ValidDate a ∨ ¬ ValidDate b) :
    ∃ what, daysBetween a b = .error (.invalidArgument what) := by
  cases ha : parseDate a with
  | error e =>
    obtain ⟨what, rfl⟩ := parseDate_error ha
    exact ⟨what, by simp [daysBetween, ha, bind, Except.bind]⟩
  | ok pa =>
    cases hb : parseDate b with
    | error e =>
      obtain ⟨what, rfl⟩ := parseDate_error hb
      exact ⟨what, by simp [daysBetween, ha, hb, bind, Except.bind]⟩
    | ok pb => exact absurd h (by simp [ValidDate, ha, hb])

/-- `split_date_range` throws `invalid_argument` on wrong arguments. -/
theorem splitDateRange_error {start stop : Bytes} {maxDays : ℤ}
    (h : ¬ ValidDate start ∨ ¬ ValidDate stop ∨ stop < start ∨ maxDays < 0) :
    ∃ what, splitDateRange start stop maxDays = .error (.invalidArgument what) := by
  unfold splitDateRange
  by_cases h0 : maxDays < 0
  · exact ⟨_, dif_pos h0⟩
  · rw [dif_neg h0]
    by_cases hvalid : ValidDate start ∧ ValidDate stop
    · have hlt : stop < start := by tauto
      rw [← dayNumber_lt_iff hvalid.2 hvalid.1] at hlt
      simp only [daysBetween_eq hvalid.1.dayOf hvalid.2.dayOf, bind, Except.bind]
      exact ⟨_, if_pos (by omega)⟩
    · obtain ⟨what, hwhat⟩ := daysBetween_error (not_and_or.mp hvalid)
      exact ⟨what, by simp [hwhat, bind, Except.bind]⟩

/-- `split_date_range` cuts a range. For every two strings and every `max_days`: it throws on
    wrong arguments only; otherwise it returns consecutive ranges of `max_days` days, the last
    one shorter or not, from the first date to the last. -/
theorem splitDateRange_partition (start stop : Bytes) (maxDays : ℤ) :
    ((∃ what, splitDateRange start stop maxDays = .error (.invalidArgument what)) ↔
        ¬ ValidDate start ∨ ¬ ValidDate stop ∨ stop < start ∨ maxDays < 0) ∧
      (ValidDate start → ValidDate stop → ¬ stop < start → 0 ≤ maxDays →
        ∃ (l : List DateRange) (hne : l ≠ []), splitDateRange start stop maxDays = .ok l ∧
          (l.head hne).1 = start ∧ (l.getLast hne).2 = stop ∧
          (l.IsChain fun r r' => addDays r.2 1 = .ok r'.1) ∧
          (∀ r ∈ l, ValidDate r.1 ∧ ValidDate r.2 ∧
            (∃ days, daysBetween r.1 r.2 = .ok days ∧ 0 ≤ days ∧ days ≤ maxDays) ∧
            dateRangeExceeds r.1 r.2 maxDays = .ok false) ∧
          (∀ r ∈ l.dropLast, daysBetween r.1 r.2 = .ok maxDays) ∧
          ∃ days, daysBetween start stop = .ok days ∧
            (l.length : ℤ) = days / (maxDays + 1) + 1) := by
  have hsplit : ValidDate start → ValidDate stop → ¬ stop < start → 0 ≤ maxDays →
      ∃ l, splitDateRange start stop maxDays = .ok l ∧
        Chunked maxDays (dayNumber start) (dayNumber stop) (l.map rangeDays) ∧
        ∀ r ∈ l, ValidRange r := by
    intro hstart hstop hle h0
    rw [← dayNumber_lt_iff hstop hstart, not_lt] at hle
    exact splitDateRange_eq h0 hstart.dayOf hstop.dayOf hle
  refine ⟨⟨?_, splitDateRange_error⟩, ?_⟩
  · rintro ⟨what, hwhat⟩
    by_contra hok
    obtain ⟨l, hl, -⟩ := hsplit (by tauto) (by tauto) (by tauto) (by omega)
    rw [hwhat] at hl
    cases hl
  · intro hstart hstop hle h0
    obtain ⟨l, hl, hc, hv⟩ := hsplit hstart hstop hle h0
    have hne : l ≠ [] := by
      rintro rfl
      exact hc.ne_nil rfl
    have hbetween : ∀ r ∈ l, daysBetween r.1 r.2 = .ok ((rangeDays r).2 - (rangeDays r).1) :=
      fun r hr => daysBetween_eq (hv r hr).1 (hv r hr).2
    obtain ⟨hfull, hwidth⟩ := hc.width h0
    refine ⟨l, hne, hl, ?_, ?_, ?_, fun r hr => ?_, fun r hr => ?_, ?_⟩
    · have hday : dayNumber (l.head hne).1 = dayNumber start := by
        rw [← hc.head, List.head_map]
        rfl
      exact (dayNumber_eq_iff (validDate_of_dayOf (hv _ (List.head_mem hne)).1) hstart).mp hday
    · have hday : dayNumber (l.getLast hne).2 = dayNumber stop := by
        rw [← hc.getLast, List.getLast_map]
        rfl
      exact (dayNumber_eq_iff (validDate_of_dayOf (hv _ (List.getLast_mem hne)).2) hstop).mp hday
    · refine (List.isChain_map rangeDays).mp hc.chain |>.imp_of_mem_imp ?_
      intro r r' hr hr' hnext
      have hrange := dayOf_range (hv r' hr').1
      rw [hnext] at hrange
      obtain ⟨s, hs, hday⟩ := addDays_eq (k := 1) (hv r hr).2 hrange.1 hrange.2
      rw [hs, dayOf_inj hday (hnext ▸ (hv r' hr').1)]
    · obtain ⟨hw0, hw1⟩ := hwidth _ (List.mem_map_of_mem hr)
      refine ⟨validDate_of_dayOf (hv r hr).1, validDate_of_dayOf (hv r hr).2,
        ⟨_, hbetween r hr, hw0, hw1⟩, ?_⟩
      simp only [dateRangeExceeds, hbetween r hr, bind, Except.bind]
      rw [decide_eq_false (by omega)]
    · have hmem := List.mem_map_of_mem (f := rangeDays) hr
      rw [List.map_dropLast] at hmem
      rw [hbetween r (List.dropLast_subset l hr), hfull _ hmem]
    · refine ⟨_, daysBetween_eq hstart.dayOf hstop.dayOf, ?_⟩
      rw [← hc.length_eq h0, List.length_map]

/-- The last range may end on the last day of the calendar. -/
theorem splitDateRange_partition_lastDay :
    ∃ (l : List DateRange) (hne : l ≠ []),
      splitDateRange (bytes "9999-12-30") (bytes "9999-12-31") 0 = .ok l ∧
        (l.getLast hne).2 = bytes "9999-12-31" := by
  obtain ⟨l, hne, hl, -, hlast, -⟩ :=
    (splitDateRange_partition (bytes "9999-12-30") (bytes "9999-12-31") 0).2
      ⟨⟨9999, 12, 30⟩, by decide⟩ ⟨⟨9999, 12, 31⟩, by decide⟩ (by decide) (by decide)
  exact ⟨l, hne, hl, hlast⟩

end NceiCpp.Core
