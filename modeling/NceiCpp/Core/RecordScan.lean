import NceiCpp.Core.CsvParser
import NceiCpp.Lib.Faults
import NceiCpp.Lib.RecordPieces

/-!
# Scanning a text record by record

The scanners of `src/core/csv_parser.cpp` once more, with every read of a character checked
against the bounds of its text and every loop limited in its turns. `a && b` reads nothing
for `b` if `a` is false.

* `nextRecord_ok`, `parseLine_ok`, `parse_ok`: with more turns than the text has characters,
  the scanners end, every read is in bounds, and they compute what the unchecked ones do.
* `next_record_consumes`: repeated calls of `next_record` cut the text into records.
-/

namespace NceiCpp.Core

open DelimitedText Faults

namespace Checked

/-- `i < s.size() && s[i] == c`. -/
def readsAt (s : Bytes) (i : ℕ) (c : Byte) : Except Fault Bool :=
  if i < s.length then do
    let value ← read s i
    return value = c
  else return false

/-- `text.substr(start, count)`, which throws if `start` is not in the text. -/
def substr (text : Bytes) (start count : ℕ) : Except Fault Bytes :=
  if start ≤ text.length then return Core.substr text start count else .error .outOfBounds

/-- `record.remove_suffix(1)` if the record ends with `c`. -/
def removeEnd (record : Bytes) (c : Byte) : Except Fault Bytes :=
  if record.getLast? = some c then
    if 1 ≤ record.length then return record.take (record.length - 1) else .error .outOfBounds
  else return record

/-- `quoted && start < text.size() && text[start] == '"'`. -/
def quoteDoubled (text : Bytes) (start : ℕ) (quoted : Bool) : Except Fault Bool :=
  if quoted then readsAt text start quoteByte else return false

/-- A turn of the loop of `next_record` (lines 10–21), on `start` and `quoted`. -/
def recordTurn (text : Bytes) (s : ℕ × Bool) : Except Fault (Turn (ℕ × Bool) ℕ) :=
  if s.1 < text.length then do
    let value ← read text s.1
    let start := s.1 + 1
    if value = quoteByte then
      let doubled ← quoteDoubled text start s.2
      if doubled then return .again (start + 1, s.2) else return .again (start, !s.2)
    else if value = lfByte ∧ ¬ s.2 then return .done start
    else return .again (start, s.2)
  else return .done s.1

/-- `next_record` (lines 7–30). -/
def nextRecord (turns : ℕ) (text : Bytes) (start : ℕ) : Except Fault (Bytes × ℕ) := do
  let stop ← loop (recordTurn text) turns (start, false)
  let record ← substr text start (stop - start)
  let record ← removeEnd record lfByte
  let record ← removeEnd record crByte
  return (record, stop)

/-- A turn of the loop of `parse_line` in a quoted field (lines 46–62), on `i` and `field`. -/
def quotedTurn (record : Bytes) (s : ℕ × Bytes) : Except Fault (Turn (ℕ × Bytes) (Bytes × ℕ)) :=
  if s.1 < record.length then do
    let value ← read record s.1
    if value = quoteByte then
      let doubled ← readsAt record (s.1 + 1) quoteByte
      if doubled then return .again (s.1 + 2, s.2 ++ [quoteByte]) else return .done (s.2, s.1 + 1)
    else
      let value ← read record s.1
      return .again (s.1 + 1, s.2 ++ [value])
  else return .done (s.2, s.1)

/-- A turn of the loop of `parse_line` in a field without quotes (lines 73–75). -/
def unquotedTurn (delim : Byte) (record : Bytes) (i : ℕ) : Except Fault (Turn ℕ ℕ) :=
  if i < record.length then do
    let value ← read record i
    if value ≠ delim then return .again (i + 1) else return .done i
  else return .done i

/-- A turn of the loop of `parse_line` (lines 41–82), on `i` and `fields`; `turns` limits the
    loops in it. -/
def lineTurn (turns : ℕ) (delim : Delimiter) (record : Bytes) (s : ℕ × List Bytes) :
    Except Fault (Turn (ℕ × List Bytes) (List Bytes)) :=
  if s.1 ≤ record.length then do
    let quote ← readsAt record s.1 quoteByte
    if quote then
      let result ← loop (quotedTurn record) turns (s.1 + 1, [])
      let fields := s.2 ++ [result.1]
      let delimiter ← readsAt record result.2 delim.char
      if delimiter then return .again (result.2 + 1, fields)
      else if result.2 = record.length then return .done fields
      else return .again (result.2, fields)
    else
      let stop ← loop (unquotedTurn delim.char record) turns s.1
      let field ← substr record s.1 (stop - s.1)
      let fields := s.2 ++ [field]
      if stop < record.length then return .again (stop + 1, fields) else return .done fields
  else return .done s.2

/-- `DelimitedParser::parse_line` (lines 35–85). -/
def parseLine (turns : ℕ) (delim : Delimiter) (record : Bytes) : Except Fault (List Bytes) :=
  loop (lineTurn turns delim record) turns (0, [])

/-- A turn of the loop of `parse` (lines 95–100), on `start` and `rows`. -/
def parseTurn (turns : ℕ) (delim : Delimiter) (text : Bytes) (s : ℕ × List (List Bytes)) :
    Except Fault (Turn (ℕ × List (List Bytes)) (List (List Bytes))) :=
  if s.1 < text.length then do
    let result ← nextRecord turns text s.1
    if result.1.isEmpty then return .again (result.2, s.2)
    else
      let fields ← parseLine turns delim result.1
      return .again (result.2, s.2 ++ [fields])
  else return .done s.2

/-- `DelimitedParser::parse` (lines 92–102). -/
def parse (turns : ℕ) (delim : Delimiter) (text : Bytes) : Except Fault (List (List Bytes)) :=
  loop (parseTurn turns delim text) turns (0, [])

end Checked

/-! ## Reads in bounds -/

theorem readsAt_ok (s : Bytes) (i : ℕ) (c : Byte) :
    Checked.readsAt s i c = .ok (s[i]? = some c) := by
  unfold Checked.readsAt
  split_ifs with h
  · rw [read_ok h, ok_bind, List.getElem?_eq_getElem h]
    simp only [Option.some.injEq]
    rfl
  · rw [List.getElem?_eq_none (not_lt.mp h)]
    rfl

theorem quoteDoubled_ok (text : Bytes) (start : ℕ) (quoted : Bool) :
    Checked.quoteDoubled text start quoted = .ok (quoted ∧ text[start]? = some quoteByte) := by
  cases quoted with
  | false => rfl
  | true => simpa [Checked.quoteDoubled] using readsAt_ok text start quoteByte

theorem substr_ok {text : Bytes} {start : ℕ} (h : start ≤ text.length) (count : ℕ) :
    Checked.substr text start count = .ok (substr text start count) := if_pos h

theorem removeEnd_ok (record : Bytes) (c : Byte) :
    Checked.removeEnd record c = .ok (dropEnd c record) := by
  unfold Checked.removeEnd dropEnd
  split_ifs with hlast hlen
  · rw [List.dropLast_eq_take]
    rfl
  · have hpos := List.length_pos_of_mem (List.mem_of_getLast? hlast)
    omega
  · rfl

/-! ## The loops end -/

theorem recordTurn_ok (text : Bytes) (s : ℕ × Bool) :
    TurnOk (fun s => recordEnd text s.1 s.2) (fun _ => True) (fun s => text.length - s.1) s
      (Checked.recordTurn text s) := by
  obtain ⟨start, quoted⟩ := s
  have hvalue := recordEnd.eq_def text start quoted
  unfold Checked.recordTurn
  dsimp only
  by_cases h : start < text.length
  · rw [dif_pos h] at hvalue
    rw [if_pos h, read_ok h, ok_bind]
    by_cases hquote : text[start] = quoteByte
    · rw [if_pos hquote] at hvalue ⊢
      rw [quoteDoubled_ok, ok_bind]
      simp only [decide_eq_true_eq]
      split_ifs at hvalue ⊢ with hd
      · exact .again trivial (by simp only; omega) hvalue.symm
      · exact .again trivial (by simp only; omega) hvalue.symm
    · rw [if_neg hquote] at hvalue ⊢
      split_ifs at hvalue ⊢ with hlf
      · exact .done hvalue.symm
      · exact .again trivial (by simp only; omega) hvalue.symm
  · rw [dif_neg h] at hvalue
    rw [if_neg h]
    exact .done hvalue.symm

theorem quotedTurn_ok (record : Bytes) (s : ℕ × Bytes) :
    TurnOk (fun s => quotedField record s.1 s.2) (fun _ => True) (fun s => record.length - s.1) s
      (Checked.quotedTurn record s) := by
  obtain ⟨i, field⟩ := s
  have hvalue := quotedField.eq_def record i field
  unfold Checked.quotedTurn
  dsimp only
  by_cases h : i < record.length
  · rw [dif_pos h] at hvalue
    rw [if_pos h, read_ok h, ok_bind, readsAt_ok, ok_bind, ok_bind]
    simp only [decide_eq_true_eq]
    split_ifs at hvalue ⊢ with hquote hdoubled
    · exact .again trivial (by simp only; omega) hvalue.symm
    · exact .done hvalue.symm
    · exact .again trivial (by simp only; omega) hvalue.symm
  · rw [dif_neg h] at hvalue
    rw [if_neg h]
    exact .done hvalue.symm

theorem unquotedTurn_ok (delim : Byte) (record : Bytes) (i : ℕ) :
    TurnOk (unquotedEnd delim record) (fun _ => True) (fun i => record.length - i) i
      (Checked.unquotedTurn delim record i) := by
  have hvalue := unquotedEnd.eq_def delim record i
  unfold Checked.unquotedTurn
  by_cases h : i < record.length
  · rw [dif_pos h] at hvalue
    rw [if_pos h, read_ok h, ok_bind]
    split_ifs at hvalue ⊢ with hdelim
    · exact .again trivial (by omega) hvalue.symm
    · exact .done hvalue.symm
  · rw [dif_neg h] at hvalue
    rw [if_neg h]
    exact .done hvalue.symm

theorem lineTurn_ok {turns : ℕ} (delim : Delimiter) {record : Bytes}
    (hturns : record.length < turns) (s : ℕ × List Bytes) :
    TurnOk (fun s => parseLineFrom delim record s.1 s.2) (fun _ => True)
      (fun s => record.length + 1 - s.1) s (Checked.lineTurn turns delim record s) := by
  obtain ⟨i, fields⟩ := s
  have hvalue := parseLineFrom.eq_def delim record i fields
  unfold Checked.lineTurn
  dsimp only
  by_cases h : i ≤ record.length
  · rw [dif_pos h] at hvalue
    rw [if_pos h, readsAt_ok, ok_bind]
    simp only [decide_eq_true_eq]
    by_cases hquote : record[i]? = some quoteByte
    · have hi : i + 1 ≤ record.length := (List.getElem?_eq_some_iff.mp hquote).1
      have hle := le_quotedField record hi []
      have hfield : loop (Checked.quotedTurn record) turns (i + 1, []) =
          .ok (quotedField record (i + 1) []) :=
        loop_ok (fun s _ => quotedTurn_ok record s) trivial (by simp only; omega)
      rw [dif_pos hquote] at hvalue
      rw [if_pos hquote, hfield, ok_bind, readsAt_ok, ok_bind]
      simp only [decide_eq_true_eq] at hvalue ⊢
      split_ifs at hvalue ⊢ with hdelim hend
      · exact .again trivial (by simp only; omega) hvalue.symm
      · exact .done hvalue.symm
      · exact .again trivial (by simp only; omega) hvalue.symm
    · have hstop : loop (Checked.unquotedTurn delim.char record) turns i =
          .ok (unquotedEnd delim.char record i) :=
        loop_ok (fun s _ => unquotedTurn_ok delim.char record s) trivial (by omega)
      have hle := unquotedEnd_eq delim.char record i
      rw [dif_neg hquote] at hvalue
      rw [if_neg hquote, hstop, ok_bind, substr_ok h, ok_bind]
      dsimp only at hvalue
      split_ifs at hvalue ⊢ with hlt
      · exact .again trivial (by simp only; omega) hvalue.symm
      · exact .done hvalue.symm
  · rw [dif_neg h] at hvalue
    rw [if_neg h]
    exact .done hvalue.symm

theorem parseLine_ok {turns : ℕ} (delim : Delimiter) {record : Bytes}
    (hturns : record.length + 1 < turns) :
    Checked.parseLine turns delim record = .ok (parseLine delim record) :=
  loop_ok (fun s _ => lineTurn_ok delim (by omega) s) trivial hturns

theorem nextRecord_ok {turns : ℕ} {text : Bytes} {start : ℕ} (hstart : start ≤ text.length)
    (hturns : text.length < turns) :
    Checked.nextRecord turns text start = .ok (nextRecord text start) := by
  have hend : loop (Checked.recordTurn text) turns (start, false) =
      .ok (recordEnd text start false) :=
    loop_ok (fun s _ => recordTurn_ok text s) trivial (by simp only; omega)
  rw [Checked.nextRecord, hend, ok_bind, substr_ok hstart, ok_bind, removeEnd_ok, ok_bind,
    removeEnd_ok, ok_bind]
  rfl

/-! ## Positions -/

/-- `next_record` moves `start` forward, and not over the end of the text. -/
theorem nextRecord_advances {text : Bytes} {start : ℕ} (h : start < text.length) :
    start < (nextRecord text start).2 ∧ (nextRecord text start).2 ≤ text.length := by
  refine ⟨lt_recordEnd h false, ?_⟩
  have hlen := congrArg List.length
    (splitRecord_append Delimiter.comma.dialect false (text.drop start))
  rw [List.length_append, List.length_drop] at hlen
  rw [nextRecord_eq .comma]
  simp only
  omega

theorem length_nextRecord_le (text : Bytes) (start : ℕ) :
    (nextRecord text start).1.length ≤ text.length := by
  have htrim := congrArg List.length (lineEnd_cases (d := Delimiter.comma.dialect)
    (splitRecord Delimiter.comma.dialect false (text.drop start)).1).1
  have hsplit := congrArg List.length
    (splitRecord_append Delimiter.comma.dialect false (text.drop start))
  rw [List.length_append] at htrim
  rw [List.length_append, List.length_drop] at hsplit
  rw [nextRecord_eq .comma]
  simp only
  omega

theorem parseTurn_ok {turns : ℕ} (delim : Delimiter) {text : Bytes}
    (hturns : text.length + 1 < turns) (s : ℕ × List (List Bytes)) :
    TurnOk (fun s => parseFrom delim text s.1 s.2) (fun _ => True)
      (fun s => text.length - s.1) s (Checked.parseTurn turns delim text s) := by
  obtain ⟨start, rows⟩ := s
  have hvalue := parseFrom.eq_def delim text start rows
  unfold Checked.parseTurn
  dsimp only
  by_cases h : start < text.length
  · have hnext := (nextRecord_advances h).1
    have hlen := length_nextRecord_le text start
    rw [dif_pos h] at hvalue
    rw [if_pos h, nextRecord_ok h.le (by omega), ok_bind]
    dsimp only at hvalue
    split_ifs at hvalue ⊢ with hempty
    · exact .again trivial (by simp only; omega) hvalue.symm
    · rw [parseLine_ok delim (by omega), ok_bind]
      exact .again trivial (by simp only; omega) hvalue.symm
  · rw [dif_neg h] at hvalue
    rw [if_neg h]
    exact .done hvalue.symm

theorem parse_ok {turns : ℕ} (delim : Delimiter) {text : Bytes}
    (hturns : text.length + 1 < turns) :
    Checked.parse turns delim text = .ok (parse delim text) :=
  loop_ok (fun s _ => parseTurn_ok delim hturns s) trivial (by simp only; omega)

/-! ## The records of a text -/

/-- Where the `n`-th call of `next_record` starts. -/
def recordStart (text : Bytes) (n : ℕ) : ℕ := (fun start => (nextRecord text start).2)^[n] 0

/-- What the `n`-th call of `next_record` returns. -/
def recordAt (text : Bytes) (n : ℕ) : Bytes := (nextRecord text (recordStart text n)).1

theorem recordStart_succ (text : Bytes) (n : ℕ) :
    recordStart text (n + 1) = (nextRecord text (recordStart text n)).2 :=
  Function.iterate_succ_apply' _ _ _

/-- What the `n`-th call of `next_record` steps over. -/
def pieceAt (text : Bytes) (n : ℕ) : Bytes :=
  (splitRecord Delimiter.comma.dialect false (text.drop (recordStart text n))).1

theorem recordAt_eq (text : Bytes) (n : ℕ) :
    recordAt text n = trimRecord Delimiter.comma.dialect (pieceAt text n) := by
  rw [recordAt, nextRecord_eq .comma]
  rfl

theorem pieceAt_eq (text : Bytes) (n : ℕ) :
    (text.drop (recordStart text n)).take (recordStart text (n + 1) - recordStart text n) =
      pieceAt text n := by
  rw [recordStart_succ, nextRecord_eq .comma, Nat.add_sub_cancel_left, take_splitRecord]
  rfl

/-- What the `n`-th call of `next_record` cuts off. -/
def terminatorAt (text : Bytes) (n : ℕ) : Bytes :=
  lineEnd Delimiter.comma.dialect (pieceAt text n)

theorem pieceAt_eq_append (text : Bytes) (n : ℕ) :
    pieceAt text n = recordAt text n ++ terminatorAt text n := by
  rw [recordAt_eq]
  exact (lineEnd_cases (pieceAt text n)).1

/-- A piece that another one follows ends with a line feed. -/
theorem getLast?_pieceAt {text : Bytes} {n : ℕ} (h : recordStart text (n + 1) < text.length) :
    (pieceAt text n).getLast? = some lfByte := by
  apply getLast?_splitRecord (d := Delimiter.comma.dialect)
  rw [← drop_splitRecord, List.drop_drop]
  intro hnil
  have hlen := List.drop_eq_nil_iff.mp hnil
  rw [recordStart_succ, nextRecord_eq .comma] at h
  simp only at h
  omega

theorem terminatorAt_of_lt {text : Bytes} {n : ℕ} (h : recordStart text (n + 1) < text.length) :
    terminatorAt text n = [lfByte] ∨ terminatorAt text n = [crByte, lfByte] := by
  rcases (lineEnd_cases (d := Delimiter.comma.dialect) (pieceAt text n)).2 with
    ⟨-, hend⟩ | ⟨hlast, -⟩
  · exact hend
  · exact absurd (getLast?_pieceAt h) hlast

theorem terminatorAt_cases (text : Bytes) (n : ℕ) :
    terminatorAt text n = [] ∨ terminatorAt text n = [crByte] ∨ terminatorAt text n = [lfByte] ∨
      terminatorAt text n = [crByte, lfByte] := by
  rcases (lineEnd_cases (d := Delimiter.comma.dialect) (pieceAt text n)).2 with
    ⟨-, hend⟩ | ⟨-, hend⟩
  · exact .inr (.inr hend)
  · exact hend.imp_right .inl

/-- A line feed in a record is inside quotes. -/
theorem recordAt_lf {text : Bytes} {n : ℕ} {a b : Bytes}
    (h : recordAt text n = a ++ lfByte :: b) : ¬ Even (a.count quoteByte) := by
  rw [recordAt_eq] at h
  have hodd : OddQuotes Delimiter.comma.dialect a := trimRecord_lf h
  rw [Nat.not_even_iff]
  exact hodd

/-- The rows of a text are the fields of its records, without the empty ones. -/
theorem parseFrom_records (delim : Delimiter) {text : Bytes} {k : ℕ}
    (hk : recordStart text k = text.length) (hlt : ∀ n < k, recordStart text n < text.length)
    {n m : ℕ} (hn : n + m = k) (rows : List (List Bytes)) :
    parseFrom delim text (recordStart text n) rows =
      rows ++ (((List.range' n m).map (recordAt text)).filter fun record => !record.isEmpty).map
        (parseLine delim) := by
  induction m generalizing n rows with
  | zero =>
    rw [← hn, Nat.add_zero] at hk
    rw [parseFrom, dif_neg (by omega)]
    simp
  | succ m ih =>
    rw [parseFrom, dif_pos (hlt n (by omega))]
    dsimp only
    rw [← recordStart_succ, ih (by omega), List.range'_succ, List.map_cons]
    split_ifs with hempty
    · rw [List.filter_cons_of_neg (by simpa [recordAt] using hempty)]
    · rw [List.filter_cons_of_pos (by simpa [recordAt] using hempty), List.map_cons,
        List.append_assoc]
      rfl

/-- Repeated calls of `next_record` move forward to the end of the text and cut it into
    records and their terminators; every line feed in a record is behind an odd number of
    its quotes, and `parse` parses these records. With more turns than the text has
    characters, `next_record`, `parse` and `parse_line` end, and every read is in bounds. -/
theorem next_record_consumes (text : Bytes) :
    (∃ k, recordStart text k = text.length ∧
      (∀ n < k, recordStart text n < recordStart text (n + 1)) ∧
      (∃ terminator : ℕ → Bytes,
        text = (List.range k).flatMap (fun n => recordAt text n ++ terminator n) ∧
        (∀ n, n + 1 < k → terminator n = [lfByte] ∨ terminator n = [crByte, lfByte]) ∧
        ∀ n, n + 1 = k → terminator n = [] ∨ terminator n = [crByte] ∨ terminator n = [lfByte] ∨
          terminator n = [crByte, lfByte]) ∧
      (∀ n < k, ∀ a b, recordAt text n = a ++ lfByte :: b → ¬ Even (a.count quoteByte)) ∧
      ∀ delim, parse delim text =
        (((List.range k).map (recordAt text)).filter fun record => !record.isEmpty).map
          (parseLine delim)) ∧
    ∀ extra : ℕ,
      (∀ start ≤ text.length, Checked.nextRecord (text.length + 2 + extra) text start =
        .ok (nextRecord text start)) ∧
      ∀ delim, Checked.parse (text.length + 2 + extra) delim text = .ok (parse delim text) ∧
        Checked.parseLine (text.length + 2 + extra) delim text = .ok (parseLine delim text) := by
  obtain ⟨k, hk, hbefore⟩ := @exists_iterate_eq (fun start => (nextRecord text start).2)
    text.length (fun p hp => nextRecord_advances hp) 0 (Nat.zero_le _)
  have hlt : ∀ n < k, recordStart text n < text.length := hbefore
  have hadvance : ∀ n < k, recordStart text n < recordStart text (n + 1) := by
    intro n hn
    rw [recordStart_succ]
    exact (nextRecord_advances (hlt n hn)).1
  have hpieces : text = (List.range k).flatMap fun n => recordAt text n ++ terminatorAt text n := by
    have hcut := flatMap_pieces text (show recordStart text 0 = 0 from rfl)
      fun n hn => (hadvance n hn).le
    rw [show recordStart text k = text.length from hk, List.take_length] at hcut
    simp only [pieceAt_eq, pieceAt_eq_append] at hcut
    exact hcut.symm
  constructor
  · refine ⟨k, hk, hadvance, ⟨terminatorAt text, hpieces, fun n hn => ?_, fun n _ => ?_⟩, ?_, ?_⟩
    · exact terminatorAt_of_lt (hlt (n + 1) hn)
    · exact terminatorAt_cases text n
    · intro n _ a b hrecord
      exact recordAt_lf hrecord
    · intro delim
      have hrows := parseFrom_records delim hk hlt (Nat.zero_add k) []
      rwa [← List.range_eq_range', List.nil_append] at hrows
  · intro extra
    refine ⟨fun start hstart => nextRecord_ok hstart (by omega), fun delim => ⟨?_, ?_⟩⟩
    · exact parse_ok delim (by omega)
    · exact parseLine_ok delim (by omega)

end NceiCpp.Core
