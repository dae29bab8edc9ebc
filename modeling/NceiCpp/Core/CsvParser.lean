import NceiCpp.Common.Bytes
import NceiCpp.Lib.QuotedSpans

/-!
# The delimited-text parser

Model of `DelimitedParser` (`src/core/csv_parser.cpp`). Positions are indices into the
text; `text[i]? = some c` is `i < text.size() && text[i] == c`.

* `parse_eq_decode`: the two scanners do what `DelimitedText.decode` says, on every text.
* `parse_render`: parsing a written table gives back its rows.
* `parseLine_columns_iff`: when a record has the columns its delimiters make.
* `parse_lines_iff`: when the records of a text are its lines.
-/

namespace NceiCpp.Core

open DelimitedText

/-- The byte `'"'`. -/
def quoteByte : Byte := ch '"'

/-- The byte `'\n'`. -/
def lfByte : Byte := 10

/-- The byte `'\r'`. -/
def crByte : Byte := 13

/-- `text.substr(start, count)`. -/
def substr (text : Bytes) (start count : ℕ) : Bytes := (text.drop start).take count

/-- The loop of `next_record` (lines 10–21): where the record with its line feed ends. -/
def recordEnd (text : Bytes) (start : ℕ) (quoted : Bool) : ℕ :=
  if _h : start < text.length then
    if text[start] = quoteByte then
      if quoted ∧ text[start + 1]? = some quoteByte then recordEnd text (start + 2) quoted
      else recordEnd text (start + 1) (!quoted)
    else if text[start] = lfByte ∧ ¬ quoted then start + 1
    else recordEnd text (start + 1) quoted
  else start
termination_by text.length - start

/-- `next_record` (lines 7–30): the record, and the new `start`. -/
def nextRecord (text : Bytes) (start : ℕ) : Bytes × ℕ :=
  let stop := recordEnd text start false
  let record := substr text start (stop - start)
  let record := if record.getLast? = some lfByte then record.dropLast else record
  let record := if record.getLast? = some crByte then record.dropLast else record
  (record, stop)

/-- The loop of `parse_line` in a quoted field (lines 46–62): the field, and the new `i`. -/
def quotedField (record : Bytes) (i : ℕ) (field : Bytes) : Bytes × ℕ :=
  if _h : i < record.length then
    if record[i] = quoteByte then
      if record[i + 1]? = some quoteByte then quotedField record (i + 2) (field ++ [quoteByte])
      else (field, i + 1)
    else quotedField record (i + 1) (field ++ [record[i]])
  else (field, i)
termination_by record.length - i

/-- The loop of `parse_line` in a field without quotes (lines 73–75). -/
def unquotedEnd (delim : Byte) (record : Bytes) (i : ℕ) : ℕ :=
  if _h : i < record.length then
    if record[i] ≠ delim then unquotedEnd delim record (i + 1) else i
  else i
termination_by record.length - i

/-- `DelimitedParser::Delimiter`. -/
inductive Delimiter
  | comma
  | space
  deriving DecidableEq, Repr

def Delimiter.char : Delimiter → Byte
  | comma => ch ','
  | space => ch ' '

/-- The dialect of the parser with a given delimiter. -/
def Delimiter.dialect (delim : Delimiter) : Dialect Byte where
  delim := delim.char
  quote := quoteByte
  cr := crByte
  lf := lfByte
  nodup := by cases delim <;> decide

/-! ## The scanners -/

/-- The scanner of `next_record` steps over doubled quotes; counting them leads to the same
    end. -/
theorem recordEnd_eq (delim : Delimiter) (text : Bytes) (start : ℕ) (quoted : Bool) :
    recordEnd text start quoted =
      start + (splitRecord delim.dialect quoted (text.drop start)).1.length := by
  have hquote : delim.dialect.quote = quoteByte := rfl
  have hlf : delim.dialect.lf = lfByte := rfl
  induction start, quoted using recordEnd.induct text with
  | case1 start quoted h hc hc' ih =>
    obtain ⟨rfl, hc'⟩ := hc'
    obtain ⟨h', hget⟩ := List.getElem?_eq_some_iff.mp hc'
    rw [recordEnd, dif_pos h, if_pos hc, if_pos ⟨rfl, hc'⟩, ih, List.drop_eq_getElem_cons h,
      List.drop_eq_getElem_cons h', hc, hget]
    simp only [splitRecord, hquote, if_true, Bool.not_true, Bool.not_false, List.length_cons,
      Nat.add_assoc, Nat.reduceAdd]
    omega
  | case2 start quoted h hc hc' ih =>
    rw [recordEnd, dif_pos h, if_pos hc, if_neg hc', ih, List.drop_eq_getElem_cons h, hc]
    simp only [splitRecord, hquote, if_true, List.length_cons]
    omega
  | case3 start quoted h hc hend =>
    rw [recordEnd, dif_pos h, if_neg hc, if_pos hend, List.drop_eq_getElem_cons h, splitRecord,
      hquote, hlf, if_neg hc, if_pos ⟨hend.1, by simpa using hend.2⟩]
    rfl
  | case4 start quoted h hc hend ih =>
    rw [recordEnd, dif_pos h, if_neg hc, if_neg hend, ih, List.drop_eq_getElem_cons h, splitRecord,
      hquote, hlf, if_neg hc, if_neg fun h => hend ⟨h.1, by simp [h.2]⟩]
    simp only [List.length_cons]
    omega
  | case5 start quoted h =>
    rw [recordEnd, dif_neg h, List.drop_eq_nil_of_le (by omega), splitRecord]
    rfl

theorem quotedField_eq (delim : Delimiter) (record : Bytes) (i : ℕ) (field : Bytes)
    (hi : i ≤ record.length) :
    (quotedField record i field).1 = field ++ (readQuoted delim.dialect (record.drop i)).1 ∧
      (quotedField record i field).2 ≤ record.length ∧
      record.drop (quotedField record i field).2 =
        (readQuoted delim.dialect (record.drop i)).2 := by
  have hquote : delim.dialect.quote = quoteByte := rfl
  induction i, field using quotedField.induct record with
  | case1 i field h hc hc' ih =>
    obtain ⟨h', hget⟩ := List.getElem?_eq_some_iff.mp hc'
    obtain ⟨ih1, ih2, ih3⟩ := ih (by omega)
    rw [quotedField, dif_pos h, if_pos hc, if_pos hc', List.drop_eq_getElem_cons h,
      List.drop_eq_getElem_cons h', hc, hget, readQuoted, if_pos hquote.symm, if_pos hquote.symm]
    exact ⟨by rw [ih1, List.append_assoc]; rfl, ih2, ih3⟩
  | case2 i field h hc hc' =>
    rw [quotedField, dif_pos h, if_pos hc, if_neg hc', List.drop_eq_getElem_cons h, hc]
    rcases Nat.lt_or_ge (i + 1) record.length with h' | h'
    · rw [List.drop_eq_getElem_cons h', readQuoted, if_pos hquote.symm, if_neg]
      · exact ⟨by simp, h'.le, rfl⟩
      · intro heq
        exact hc' (List.getElem?_eq_some_iff.mpr ⟨h', heq⟩)
    · rw [List.drop_eq_nil_of_le h', readQuoted, if_pos hquote.symm]
      exact ⟨by simp, by omega, rfl⟩
  | case3 i field h hc ih =>
    obtain ⟨ih1, ih2, ih3⟩ := ih (by omega)
    rw [quotedField, dif_pos h, if_neg hc, List.drop_eq_getElem_cons h]
    rcases Nat.lt_or_ge (i + 1) record.length with h' | h'
    · rw [List.drop_eq_getElem_cons h'] at ih1 ih3 ⊢
      rw [readQuoted, hquote, if_neg hc]
      exact ⟨by rw [ih1, List.append_assoc]; rfl, ih2, ih3⟩
    · rw [List.drop_eq_nil_of_le h', readQuoted] at ih1 ih3
      rw [List.drop_eq_nil_of_le h', readQuoted, hquote, if_neg hc]
      exact ⟨by rw [ih1, List.append_nil], ih2, ih3⟩
  | case4 i field h =>
    rw [quotedField, dif_neg h, List.drop_eq_nil_of_le (by omega), readQuoted]
    exact ⟨by simp, hi, rfl⟩

theorem unquotedEnd_eq (delim : Byte) (record : Bytes) (i : ℕ) :
    unquotedEnd delim record i = i + ((record.drop i).takeWhile (· ≠ delim)).length := by
  induction i using unquotedEnd.induct delim record with
  | case1 i h hne ih =>
    rw [unquotedEnd, dif_pos h, if_pos hne, ih, List.drop_eq_getElem_cons h,
      List.takeWhile_cons_of_pos (by simpa using hne), List.length_cons]
    omega
  | case2 i h heq =>
    rw [unquotedEnd, dif_pos h, if_neg heq, List.drop_eq_getElem_cons h,
      List.takeWhile_cons_of_neg (by simpa using heq)]
    rfl
  | case3 i h =>
    rw [unquotedEnd, dif_neg h, List.drop_eq_nil_of_le (by omega)]
    rfl

theorem substr_unquotedEnd (delim : Byte) (record : Bytes) (i : ℕ) :
    substr record i (unquotedEnd delim record i - i) =
      (record.drop i).takeWhile (· ≠ delim) := by
  have happend := List.takeWhile_append_dropWhile (p := fun c => decide (c ≠ delim))
    (l := record.drop i)
  rw [unquotedEnd_eq, Nat.add_sub_cancel_left, substr]
  generalize (record.drop i).takeWhile (· ≠ delim) = field at *
  rw [← happend, List.take_left]

theorem drop_unquotedEnd (delim : Byte) (record : Bytes) (i : ℕ) :
    record.drop (unquotedEnd delim record i) = (record.drop i).dropWhile (· ≠ delim) := by
  have happend := List.takeWhile_append_dropWhile (p := fun c => decide (c ≠ delim))
    (l := record.drop i)
  rw [unquotedEnd_eq, ← List.drop_drop]
  generalize (record.drop i).takeWhile (· ≠ delim) = field at *
  rw [← happend, List.drop_left, happend]

/-- The position behind a field in quotes is behind its opening quote. -/
theorem le_quotedField (record : Bytes) {i : ℕ} (hi : i ≤ record.length) (field : Bytes) :
    i ≤ (quotedField record i field).2 := by
  obtain ⟨-, hle, hdrop⟩ := quotedField_eq .comma record i field hi
  have hlen := length_readQuoted_le Delimiter.comma.dialect (record.drop i)
  rw [← hdrop, List.length_drop, List.length_drop] at hlen
  omega

theorem lt_recordEnd {text : Bytes} {start : ℕ} (h : start < text.length) (quoted : Bool) :
    start < recordEnd text start quoted := by
  have hne : text.drop start ≠ [] := by
    rw [Ne, List.drop_eq_nil_iff]
    omega
  have hpos := List.length_pos_iff.mpr
    (splitRecord_ne_nil Delimiter.comma.dialect quoted hne)
  rw [recordEnd_eq .comma]
  omega

/-! ## The parser -/

/-- The loop of `parse_line` (lines 41–82). -/
def parseLineFrom (delim : Delimiter) (record : Bytes) (i : ℕ) (fields : List Bytes) : List Bytes :=
  if _h : i ≤ record.length then
    if _hquote : record[i]? = some quoteByte then
      let result := quotedField record (i + 1) []
      let fields := fields ++ [result.1]
      if record[result.2]? = some delim.char then parseLineFrom delim record (result.2 + 1) fields
      else if result.2 = record.length then fields
      else parseLineFrom delim record result.2 fields
    else
      let stop := unquotedEnd delim.char record i
      let fields := fields ++ [substr record i (stop - i)]
      if stop < record.length then parseLineFrom delim record (stop + 1) fields else fields
  else fields
termination_by record.length + 1 - i
decreasing_by
  · have hi : i + 1 ≤ record.length := (List.getElem?_eq_some_iff.mp _hquote).1
    have hle := le_quotedField record hi []
    omega
  · have hi : i + 1 ≤ record.length := (List.getElem?_eq_some_iff.mp _hquote).1
    have hle := le_quotedField record hi []
    omega
  · have hstop := unquotedEnd_eq delim.char record i
    omega

/-- `DelimitedParser::parse_line` (lines 35–85). -/
def parseLine (delim : Delimiter) (record : Bytes) : List Bytes := parseLineFrom delim record 0 []

/-- The loop of `parse` (lines 95–100). -/
def parseFrom (delim : Delimiter) (text : Bytes) (start : ℕ) (rows : List (List Bytes)) :
    List (List Bytes) :=
  if _h : start < text.length then
    let result := nextRecord text start
    parseFrom delim text result.2
      (if result.1.isEmpty then rows else rows ++ [parseLine delim result.1])
  else rows
termination_by text.length - start
decreasing_by
  have hlt : start < (nextRecord text start).2 := lt_recordEnd _h false
  omega

/-- `DelimitedParser::parse` (lines 92–102). -/
def parse (delim : Delimiter) (text : Bytes) : List (List Bytes) := parseFrom delim text 0 []

/-! ## The parser and the decoder -/

theorem parseLineFrom_eq (delim : Delimiter) (record : Bytes) (i : ℕ) (fields : List Bytes)
    (hi : i ≤ record.length) :
    parseLineFrom delim record i fields =
      fields ++ readFields delim.dialect (record.drop i) := by
  have hdelim : delim.dialect.delim = delim.char := rfl
  induction hn : record.length + 1 - i using Nat.strong_induction_on generalizing i fields with
  | _ n ih =>
    rw [parseLineFrom, dif_pos hi]
    split_ifs with hquote
    · obtain ⟨hlt, hget⟩ := List.getElem?_eq_some_iff.mp hquote
      obtain ⟨hfield, hstop, hdrop⟩ := quotedField_eq delim record (i + 1) [] hlt
      have hle := le_quotedField record hlt []
      dsimp only
      generalize quotedField record (i + 1) [] = result at *
      rw [List.nil_append] at hfield
      have hcons : record.drop i = delim.dialect.quote :: record.drop (i + 1) := by
        rw [List.drop_eq_getElem_cons hlt, hget]
        rfl
      rcases hstop.lt_or_eq with hstop | hstop
      · rw [List.drop_eq_getElem_cons hstop] at hdrop
        rw [hcons, readFields_quote_cons hdrop.symm, ← hfield, hdelim,
          List.getElem?_eq_getElem hstop]
        by_cases hc : record[result.2] = delim.char
        · rw [if_pos (congrArg some hc), if_pos hc, ih _ (by omega) (result.2 + 1) _ (by omega) rfl]
          simp
        · rw [if_neg (hc ∘ Option.some.inj), if_neg hstop.ne, if_neg hc,
            ih _ (by omega) result.2 _ hstop.le rfl, List.drop_eq_getElem_cons hstop]
          simp
      · rw [List.drop_eq_nil_of_le hstop.ge] at hdrop
        rw [hcons, readFields_quote_end hdrop.symm, ← hfield,
          List.getElem?_eq_none hstop.ge, if_neg (by simp), if_pos hstop]
    · have hhead : (record.drop i).head? ≠ some delim.dialect.quote := by
        rwa [List.head?_drop]
      have hle := unquotedEnd_eq delim.char record i
      have hdrop := drop_unquotedEnd delim.char record i
      rw [readFields_of_head_ne hhead, hdelim, ← hdrop]
      dsimp only
      rw [substr_unquotedEnd]
      generalize (record.drop i).takeWhile (· ≠ delim.char) = field at *
      generalize unquotedEnd delim.char record i = stop at *
      by_cases hlt : stop < record.length
      · have hrest : record.drop stop ≠ [] := by
          rw [Ne, List.drop_eq_nil_iff, not_le]
          exact hlt
        rw [if_pos hlt, if_neg hrest, ih _ (by omega) (stop + 1) _ (by omega) rfl, List.tail_drop]
        simp
      · rw [if_neg hlt, if_pos (List.drop_eq_nil_of_le (not_lt.mp hlt))]

theorem parseLine_eq (delim : Delimiter) (record : Bytes) :
    parseLine delim record = readFields delim.dialect record :=
  parseLineFrom_eq delim record 0 [] (Nat.zero_le _)

theorem nextRecord_eq (delim : Delimiter) (text : Bytes) (start : ℕ) :
    nextRecord text start =
      (trimRecord delim.dialect (splitRecord delim.dialect false (text.drop start)).1,
        start + (splitRecord delim.dialect false (text.drop start)).1.length) := by
  have hrecord : substr text start (recordEnd text start false - start) =
      (splitRecord delim.dialect false (text.drop start)).1 := by
    rw [substr, recordEnd_eq delim, Nat.add_sub_cancel_left, take_splitRecord]
  unfold nextRecord
  dsimp only
  rw [hrecord, recordEnd_eq delim]
  rfl

theorem parseFrom_eq (delim : Delimiter) (text : Bytes) (start : ℕ) (rows : List (List Bytes)) :
    parseFrom delim text start rows = rows ++ decode delim.dialect (text.drop start) := by
  induction hn : text.length - start using Nat.strong_induction_on generalizing start rows with
  | _ n ih =>
    rw [parseFrom]
    split_ifs with hlt
    · have hne : text.drop start ≠ [] := by
        rw [Ne, List.drop_eq_nil_iff]
        omega
      have hpos := List.length_pos_iff.mpr (splitRecord_ne_nil delim.dialect false hne)
      have hrest :
          text.drop (start + (splitRecord delim.dialect false (text.drop start)).1.length) =
            (splitRecord delim.dialect false (text.drop start)).2 := by
        rw [← List.drop_drop, drop_splitRecord]
      rw [nextRecord_eq delim, decode, dif_neg hne]
      dsimp only
      rw [ih _ (by omega) _ _ rfl, hrest, parseLine_eq]
      simp only [List.isEmpty_iff]
      split_ifs
      · simp
      · simp
    · rw [List.drop_eq_nil_of_le (by omega), decode_nil, List.append_nil]

/-- The parser decodes every text as the library does. -/
theorem parse_eq_decode (delim : Delimiter) (text : Bytes) :
    parse delim text = decode delim.dialect text := parseFrom_eq delim text 0 []

/-! ## The result -/

/-- Parsing a written table gives back its rows, in order and byte for byte, but for the
    blank lines. -/
theorem parse_render (delim : Delimiter) (terminated : Bool) (rows : List (Row delim.dialect)) :
    parse delim (render terminated rows) = (rows.filter fun r => !r.isBlank).map Row.fields := by
  rw [parse_eq_decode, decode_render]

/-- Without blank lines, exactly its rows. -/
theorem parse_rows (delim : Delimiter) (terminated : Bool) {rows : List (Row delim.dialect)}
    (h : ∀ r ∈ rows, r.isBlank = false) :
    parse delim (render terminated rows) = rows.map Row.fields := by
  have hall : ∀ r ∈ rows, (!r.isBlank) = true := by
    intro r hr
    rw [h r hr]
    rfl
  rw [parse_render, List.filter_eq_self.mpr hall]

/-! ## Columns -/

/-- A record has one column more than delimiters outside quoted spans exactly when no closing
    quote has other text than a delimiter behind it. -/
theorem parseLine_columns_iff (delim : Delimiter) (line : Bytes) :
    (parseLine delim line).length = 1 + delimsOutside delim.dialect .start line ↔
      textsBehindQuotes delim.dialect .start line = 0 := by
  rw [parseLine_eq, length_readFields]
  omega

/-- The loop takes the text behind a closing quote for the next field. -/
theorem parseLine_textBehindQuote :
    (parseLine .comma (bytes "\"a\"b,c")).length = 3 ∧
      1 + delimsOutside Delimiter.comma.dialect .start (bytes "\"a\"b,c") = 2 := by
  rw [parseLine_eq, length_readFields]
  decide

/-! ## Lines -/

theorem filter_isEmpty_map (delim : Delimiter) (lines : List Bytes) :
    (lines.filter fun line => !line.isEmpty).map (parseLine delim) =
      lines.flatMap (row delim.dialect) := by
  induction lines with
  | nil => rfl
  | cons line lines ih =>
    rw [List.flatMap_cons, row]
    cases line with
    | nil => simpa using ih
    | cons c line =>
      rw [List.filter_cons_of_pos (by simp), List.map_cons, ih, parseLine_eq,
        if_neg (List.cons_ne_nil _ _)]
      rfl

/-- Lines without a line feed and without a carriage return at the end, whether their quoted
    fields are closed or not: the records of the lines joined with line feeds are the lines
    exactly when, without one empty line at the end, every line but the last has an even
    number of quotes. -/
theorem parse_lines_iff (delim : Delimiter) (lines : List Bytes)
    (hlines : ∀ line ∈ lines, lfByte ∉ line ∧ line.getLast? ≠ some crByte) :
    parse delim ([lfByte].intercalate lines) =
        (lines.filter fun line => !line.isEmpty).map (parseLine delim) ↔
      EvenQuotes delim.dialect lines := by
  have hline : ∀ line ∈ lines, Line delim.dialect line :=
    fun line hmem => ⟨(hlines line hmem).1, (hlines line hmem).2⟩
  rw [parse_eq_decode, filter_isEmpty_map]
  exact decode_lines_iff hline

/-- A quoted field in each line. -/
theorem parse_lines_iff_quoted :
    parse .comma ([lfByte].intercalate [bytes "a,\"b,c\"", [], bytes "\"d\",e"]) =
      [parseLine .comma (bytes "a,\"b,c\""), parseLine .comma (bytes "\"d\",e")] :=
  (parse_lines_iff .comma [bytes "a,\"b,c\"", [], bytes "\"d\",e"] (by decide)).mpr (by decide)

/-- `next_record` counts the quote in the middle of a field, which `parse_line` does not, and
    merges the two records. -/
theorem parse_strayQuote :
    (∀ line ∈ [bytes "a,5\"", bytes "b,6"], lfByte ∉ line ∧ line.getLast? ≠ some crByte ∧
        SpansClosed Delimiter.comma.dialect line) ∧
      parse .comma ([lfByte].intercalate [bytes "a,5\"", bytes "b,6"]) ≠
        ([bytes "a,5\"", bytes "b,6"].filter fun line => !line.isEmpty).map
          (parseLine .comma) := by
  refine ⟨by decide, fun h => ?_⟩
  have hline : ∀ line ∈ [bytes "a,5\"", bytes "b,6"], Line Delimiter.comma.dialect line := by
    have h : ∀ line ∈ [bytes "a,5\"", bytes "b,6"],
        lfByte ∉ line ∧ line.getLast? ≠ some crByte := by decide
    exact fun line hmem => ⟨(h line hmem).1, (h line hmem).2⟩
  rw [parse_eq_decode, filter_isEmpty_map] at h
  exact absurd ((decode_lines_iff hline).mp h) (by decide)

end NceiCpp.Core
