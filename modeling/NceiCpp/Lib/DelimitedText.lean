import Mathlib

/-!
# Delimited text

Tables written as text over any alphabet: fields between delimiters, rows between line
ends, and a field in quotes, with its quotes doubled, where it has a special character.

* `Dialect`: the four special characters. `Cell`, `Row`: a field and a row with the
  freedom there is in writing them; a field that needs quotes has them.
* `render`: the text of a table. `decode`: the table of a text. Records are found by the
  parity of the quotes before a line feed; fields by reading each one on its own.
* `decode_render`: decoding gives back the rows, but no blank lines.
-/

namespace DelimitedText

/-- The special characters. -/
structure Dialect (α : Type) where
  delim : α
  quote : α
  cr : α
  lf : α
  nodup : [delim, quote, cr, lf].Nodup

variable {α : Type}

/-- A field as it is written. -/
structure Cell (d : Dialect α) where
  text : List α
  quoted : Bool
  plain : quoted = false → ∀ c ∈ text, c ≠ d.delim ∧ c ≠ d.quote ∧ c ≠ d.cr ∧ c ≠ d.lf

/-- A row as it is written; `crlf` says that its line end is a carriage return and a line
    feed, and not a line feed only. -/
structure Row (d : Dialect α) where
  cells : List (Cell d)
  nonempty : cells ≠ []
  crlf : Bool

/-- A row without its quotes. -/
def Row.fields {d : Dialect α} (r : Row d) : List (List α) := r.cells.map Cell.text

/-- A blank line: one empty field that is not quoted. -/
def Row.isBlank {d : Dialect α} (r : Row d) : Bool :=
  match r.cells with
  | [c] => c.text.isEmpty && !c.quoted
  | _ => false

theorem Row.isBlank_eq_false {d : Dialect α} {r : Row d} (h : 2 ≤ r.fields.length) :
    r.isBlank = false := by
  rw [Row.fields, List.length_map] at h
  unfold Row.isBlank
  split
  · next c hc => simp [hc] at h
  · rfl

theorem Dialect.distinct (d : Dialect α) :
    d.delim ≠ d.quote ∧ d.delim ≠ d.cr ∧ d.delim ≠ d.lf ∧ d.quote ≠ d.cr ∧ d.quote ≠ d.lf ∧
      d.cr ≠ d.lf := by
  have h := d.nodup
  simp only [List.nodup_cons, List.mem_cons, List.not_mem_nil, or_false, not_or] at h
  exact ⟨h.1.1, h.1.2.1, h.1.2.2, h.2.1.1, h.2.1.2, h.2.2.1⟩

variable [DecidableEq α] (d : Dialect α)

/-! ## Writing -/

/-- Double the quotes. -/
def escape : List α → List α
  | [] => []
  | c :: s => if c = d.quote then c :: c :: escape s else c :: escape s

variable {d}

def Cell.render (c : Cell d) : List α :=
  if c.quoted then d.quote :: (escape d c.text ++ [d.quote]) else c.text

def renderCells : List (Cell d) → List α
  | [] => []
  | [c] => c.render
  | c :: cells => c.render ++ d.delim :: renderCells cells

def Row.ending (r : Row d) : List α := if r.crlf then [d.cr, d.lf] else [d.lf]

/-- The text of a table. `terminated` says that there is a line end behind the last row. -/
def render (terminated : Bool) : List (Row d) → List α
  | [] => []
  | [r] => renderCells r.cells ++ if terminated then r.ending else []
  | r :: rows => renderCells r.cells ++ r.ending ++ render terminated rows

variable (d)

/-! ## Reading -/

/-- The first record with its line feed, and what follows. `quoted` says that the number
    of quotes so far is odd. -/
def splitRecord : Bool → List α → List α × List α
  | _, [] => ([], [])
  | quoted, c :: s =>
    if c = d.quote then (c :: (splitRecord (!quoted) s).1, (splitRecord (!quoted) s).2)
    else if c = d.lf ∧ quoted = false then ([c], s)
    else (c :: (splitRecord quoted s).1, (splitRecord quoted s).2)

/-- `s` without the character `c` at its end. -/
def dropEnd (c : α) (s : List α) : List α := if s.getLast? = some c then s.dropLast else s

/-- A record without its line end. -/
def trimRecord (s : List α) : List α := dropEnd d.cr (dropEnd d.lf s)

/-- Behind an opening quote: the field, and what follows its closing quote. -/
def readQuoted : List α → List α × List α
  | [] => ([], [])
  | [c] => if c = d.quote then ([], []) else ([c], [])
  | c :: c' :: s =>
    if c = d.quote then
      if c' = d.quote then (c :: (readQuoted s).1, (readQuoted s).2) else ([], c' :: s)
    else (c :: (readQuoted (c' :: s)).1, (readQuoted (c' :: s)).2)

theorem length_readQuoted_le (s : List α) : (readQuoted d s).2.length ≤ s.length := by
  induction s using readQuoted.induct d with
  | case1 => simp [readQuoted]
  | case2 => simp [readQuoted]
  | case3 c h => simp [readQuoted, h]
  | case4 s ih =>
    simp only [readQuoted, if_true, List.length_cons]
    omega
  | case5 c' s h => simp [readQuoted, h]
  | case6 c c' s h ih =>
    simp only [readQuoted, h, if_false, List.length_cons] at ih ⊢
    omega

/-- The fields of a record. -/
def readFields : List α → List (List α)
  | [] => [[]]
  | c :: s =>
    if c = d.quote then
      match _h : (readQuoted d s).2 with
      | [] => [(readQuoted d s).1]
      | c' :: s' =>
        (readQuoted d s).1 :: if c' = d.delim then readFields s' else readFields (c' :: s')
    else
      match _h : (c :: s).dropWhile (· ≠ d.delim) with
      | [] => [(c :: s).takeWhile (· ≠ d.delim)]
      | _ :: s' => (c :: s).takeWhile (· ≠ d.delim) :: readFields s'
termination_by s => s.length
decreasing_by
  · have := length_readQuoted_le d s
    rw [_h] at this
    simp only [List.length_cons] at this ⊢
    omega
  · have := length_readQuoted_le d s
    rw [_h] at this
    simp only [List.length_cons] at this ⊢
    omega
  · have := (List.dropWhile_suffix (l := c :: s) (· ≠ d.delim)).length_le
    rw [_h] at this
    simp only [List.length_cons] at this ⊢
    omega

theorem splitRecord_append (quoted : Bool) (s : List α) :
    (splitRecord d quoted s).1 ++ (splitRecord d quoted s).2 = s := by
  induction s generalizing quoted with
  | nil => rfl
  | cons c s ih =>
    rw [splitRecord]
    split_ifs
    · simp [ih]
    · simp
    · simp [ih]

theorem take_splitRecord (quoted : Bool) (s : List α) :
    s.take (splitRecord d quoted s).1.length = (splitRecord d quoted s).1 := by
  have h : ((splitRecord d quoted s).1 ++ (splitRecord d quoted s).2).take
      (splitRecord d quoted s).1.length = (splitRecord d quoted s).1 := List.take_left
  rwa [splitRecord_append] at h

theorem drop_splitRecord (quoted : Bool) (s : List α) :
    s.drop (splitRecord d quoted s).1.length = (splitRecord d quoted s).2 := by
  have h : ((splitRecord d quoted s).1 ++ (splitRecord d quoted s).2).drop
      (splitRecord d quoted s).1.length = (splitRecord d quoted s).2 := List.drop_left
  rwa [splitRecord_append] at h

theorem splitRecord_ne_nil (quoted : Bool) {s : List α} (h : s ≠ []) :
    (splitRecord d quoted s).1 ≠ [] := by
  cases s with
  | nil => exact absurd rfl h
  | cons c s =>
    rw [splitRecord]
    split_ifs <;> simp

/-- The rows of a text. Empty records are dropped. -/
def decode (s : List α) : List (List (List α)) :=
  if _h : s = [] then []
  else
    let record := trimRecord d (splitRecord d false s).1
    (if record = [] then [] else [readFields d record]) ++ decode (splitRecord d false s).2
termination_by s.length
decreasing_by
  have hlen := congrArg List.length (splitRecord_append d false s)
  have hpos := List.length_pos_iff.mpr (splitRecord_ne_nil d false _h)
  rw [List.length_append] at hlen
  omega

@[simp] theorem decode_nil : decode d [] = [] := by
  rw [decode, dif_pos rfl]

/-! ## Records -/

variable {d}

/-- Scanning `s` takes the parity `q` to `q'` and finds no end of the record. -/
def Passes (d : Dialect α) (q : Bool) (s : List α) (q' : Bool) : Prop :=
  ∀ rest, splitRecord d q (s ++ rest) =
    (s ++ (splitRecord d q' rest).1, (splitRecord d q' rest).2)

theorem Passes.nil (q : Bool) : Passes d q [] q := fun _ => rfl

theorem Passes.append {q q' q'' : Bool} {s s' : List α} (h : Passes d q s q')
    (h' : Passes d q' s' q'') : Passes d q (s ++ s') q'' := by
  intro rest
  rw [List.append_assoc, h, h', List.append_assoc]

theorem Passes.quote (q : Bool) : Passes d q [d.quote] (!q) := by
  intro rest
  rw [List.singleton_append, splitRecord, if_pos rfl]
  rfl

theorem Passes.char {c : α} {q : Bool} (hquote : c ≠ d.quote) (hlf : c ≠ d.lf ∨ q = true) :
    Passes d q [c] q := by
  intro rest
  rw [List.singleton_append, splitRecord, if_neg hquote, if_neg]
  · rfl
  · rintro ⟨rfl, rfl⟩
    simp at hlf

theorem Passes.plain {s : List α} (h : ∀ c ∈ s, c ≠ d.quote ∧ c ≠ d.lf) :
    Passes d false s false := by
  induction s with
  | nil => exact .nil false
  | cons c s ih =>
    have hc := h c List.mem_cons_self
    exact (Passes.char hc.1 (.inl hc.2)).append (ih fun c' hc' => h c' (List.mem_cons_of_mem _ hc'))

theorem Passes.escape (s : List α) : Passes d true (escape d s) true := by
  induction s with
  | nil => exact .nil true
  | cons c s ih =>
    rw [DelimitedText.escape]
    split_ifs with hc
    · rw [hc]
      exact (Passes.quote true).append ((Passes.quote false).append ih)
    · exact (Passes.char hc (.inr rfl)).append ih

theorem Cell.passes (c : Cell d) : Passes d false c.render false := by
  unfold Cell.render
  split_ifs with hquoted
  · exact (Passes.quote false).append ((Passes.escape c.text).append (Passes.quote true))
  · refine Passes.plain fun a ha => ?_
    have h := c.plain (by simpa using hquoted) a ha
    exact ⟨h.2.1, h.2.2.2⟩

theorem passes_renderCells (cells : List (Cell d)) :
    Passes d false (renderCells cells) false := by
  obtain ⟨hq, -, hlf, -⟩ := d.distinct
  induction cells using renderCells.induct with
  | case1 => exact .nil false
  | case2 c => exact c.passes
  | case3 c cells hne ih =>
    rw [renderCells]
    · exact c.passes.append ((Passes.char hq (.inl hlf)).append ih)
    · exact hne

/-- A line end ends the record. -/
theorem splitRecord_ending (r : Row d) (rest : List α) :
    splitRecord d false (r.ending ++ rest) = (r.ending, rest) := by
  obtain ⟨-, -, -, hcr, hlf, hne⟩ := d.distinct
  unfold Row.ending
  split_ifs <;> simp [splitRecord, hcr.symm, hlf.symm, hne]

/-- The text of a row does not end with a character of a line end. -/
theorem getLast?_renderCells (cells : List (Cell d)) {e : α} (he : e = d.cr ∨ e = d.lf) :
    (renderCells cells).getLast? ≠ some e := by
  obtain ⟨-, hdcr, hdlf, hqcr, hqlf, -⟩ := d.distinct
  have hcell : ∀ c : Cell d, c.render.getLast? ≠ some e := by
    intro c h
    unfold Cell.render at h
    split_ifs at h with hquoted
    · rw [← List.cons_append, List.getLast?_concat] at h
      rcases he with rfl | rfl
      · exact hqcr (Option.some.inj h)
      · exact hqlf (Option.some.inj h)
    · have hplain := c.plain (by simpa using hquoted) e (List.mem_of_getLast? h)
      rcases he with rfl | rfl
      · exact hplain.2.2.1 rfl
      · exact hplain.2.2.2 rfl
  induction cells using renderCells.induct with
  | case1 => simp [renderCells]
  | case2 c => exact hcell c
  | case3 c cells hne ih =>
    rw [renderCells, List.getLast?_append_of_ne_nil _ (List.cons_ne_nil _ _), List.getLast?_cons]
    · intro h
      cases hlast : (renderCells cells).getLast? with
      | some a =>
        rw [hlast] at h
        exact ih (hlast.trans h)
      | none =>
        rw [hlast] at h
        rcases he with rfl | rfl
        · exact hdcr (Option.some.inj h)
        · exact hdlf (Option.some.inj h)
    · exact hne

theorem dropEnd_concat (c : α) (s : List α) : dropEnd c (s ++ [c]) = s := by
  simp [dropEnd]

theorem dropEnd_of_ne {c : α} {s : List α} (h : s.getLast? ≠ some c) : dropEnd c s = s :=
  if_neg h

theorem trimRecord_renderCells (cells : List (Cell d)) :
    trimRecord d (renderCells cells) = renderCells cells := by
  rw [trimRecord, dropEnd_of_ne (getLast?_renderCells cells (.inr rfl)),
    dropEnd_of_ne (getLast?_renderCells cells (.inl rfl))]

theorem trimRecord_ending (r : Row d) :
    trimRecord d (renderCells r.cells ++ r.ending) = renderCells r.cells := by
  unfold Row.ending trimRecord
  split_ifs
  · rw [List.append_cons, dropEnd_concat, dropEnd_concat]
  · rw [dropEnd_concat, dropEnd_of_ne (getLast?_renderCells r.cells (.inl rfl))]

/-! ## Fields -/

theorem readQuoted_escape (s : List α) {rest : List α} (h : rest.head? ≠ some d.quote) :
    readQuoted d (escape d s ++ d.quote :: rest) = (s, rest) := by
  induction s with
  | nil =>
    cases rest with
    | nil => simp [escape, readQuoted]
    | cons c rest =>
      have hc : c ≠ d.quote := by simpa using h
      simp [escape, readQuoted, hc]
  | cons c s ih =>
    rw [escape]
    split_ifs with hc
    · simp [hc, readQuoted, ih]
    · -- the text read on is not empty: at least the closing quote is left
      obtain ⟨c', s', hs'⟩ : ∃ c' s', escape d s ++ d.quote :: rest = c' :: s' :=
        List.exists_cons_of_ne_nil (by simp)
      rw [List.cons_append, hs', readQuoted, if_neg hc, ← hs', ih]

theorem readFields_quote_end {s : List α} (h : (readQuoted d s).2 = []) :
    readFields d (d.quote :: s) = [(readQuoted d s).1] := by
  rw [readFields, if_pos rfl]
  split
  · rfl
  · next h' => simp [h] at h'

theorem readFields_quote_cons {s s' : List α} {c : α} (h : (readQuoted d s).2 = c :: s') :
    readFields d (d.quote :: s) =
      (readQuoted d s).1 :: if c = d.delim then readFields d s' else readFields d (c :: s') := by
  rw [readFields, if_pos rfl]
  split
  · next h' => cases h.symm.trans h'
  · next h' =>
    obtain ⟨rfl, rfl⟩ := List.cons.inj (h.symm.trans h')
    rfl

/-- A field that does not start with a quote ends at the first delimiter. -/
theorem readFields_of_head_ne {s : List α} (h : s.head? ≠ some d.quote) :
    readFields d s = s.takeWhile (· ≠ d.delim) ::
      if s.dropWhile (· ≠ d.delim) = [] then []
      else readFields d (s.dropWhile (· ≠ d.delim)).tail := by
  cases s with
  | nil => simp [readFields]
  | cons c s =>
    rw [readFields, if_neg (by simpa using h)]
    split
    · next h' => rw [if_pos h']
    · next h' => rw [h', if_neg (List.cons_ne_nil _ _), List.tail_cons]

theorem readFields_plain_end {s : List α} (h : ∀ c ∈ s, c ≠ d.delim ∧ c ≠ d.quote) :
    readFields d s = [s] := by
  have hdrop : s.dropWhile (· ≠ d.delim) = [] := by
    rw [List.dropWhile_eq_nil_iff]
    intro c hc
    simpa using (h c hc).1
  have htake : s.takeWhile (· ≠ d.delim) = s := by
    rw [List.takeWhile_eq_self_iff]
    intro c hc
    simpa using (h c hc).1
  rw [readFields_of_head_ne fun hhead => (h _ (List.mem_of_head? hhead)).2 rfl, htake, if_pos hdrop]

theorem readFields_plain_delim {s : List α} (h : ∀ c ∈ s, c ≠ d.delim ∧ c ≠ d.quote)
    (rest : List α) : readFields d (s ++ d.delim :: rest) = s :: readFields d rest := by
  have hall : ∀ c ∈ s, decide (c ≠ d.delim) = true := fun c hc => by simpa using (h c hc).1
  have hdrop : (s ++ d.delim :: rest).dropWhile (· ≠ d.delim) = d.delim :: rest := by
    rw [List.dropWhile_append_of_pos hall, List.dropWhile_cons_of_neg (by simp)]
  have htake : (s ++ d.delim :: rest).takeWhile (· ≠ d.delim) = s := by
    rw [List.takeWhile_append_of_pos hall, List.takeWhile_cons_of_neg (by simp), List.append_nil]
  have hhead : (s ++ d.delim :: rest).head? ≠ some d.quote := by
    cases s with
    | nil => simpa using d.distinct.1
    | cons a s => simpa using (h a List.mem_cons_self).2
  rw [readFields_of_head_ne hhead, htake, hdrop, if_neg (List.cons_ne_nil _ _), List.tail_cons]

theorem readFields_cell (c : Cell d) : readFields d c.render = [c.text] := by
  unfold Cell.render
  split_ifs with hquoted
  · have h : readQuoted d (escape d c.text ++ [d.quote]) = (c.text, []) :=
      readQuoted_escape c.text (by simp)
    rw [readFields_quote_end (by rw [h]), h]
  · exact readFields_plain_end fun a ha =>
      ⟨(c.plain (by simpa using hquoted) a ha).1, (c.plain (by simpa using hquoted) a ha).2.1⟩

theorem readFields_cell_delim (c : Cell d) (rest : List α) :
    readFields d (c.render ++ d.delim :: rest) = c.text :: readFields d rest := by
  unfold Cell.render
  split_ifs with hquoted
  · have h : readQuoted d (escape d c.text ++ d.quote :: d.delim :: rest) =
        (c.text, d.delim :: rest) :=
      readQuoted_escape c.text (by simpa using d.distinct.1)
    rw [List.cons_append, List.append_assoc, List.singleton_append,
      readFields_quote_cons (by rw [h]), h, if_pos rfl]
  · exact readFields_plain_delim (fun a ha =>
      ⟨(c.plain (by simpa using hquoted) a ha).1, (c.plain (by simpa using hquoted) a ha).2.1⟩) rest

theorem readFields_renderCells {cells : List (Cell d)} (h : cells ≠ []) :
    readFields d (renderCells cells) = cells.map Cell.text := by
  induction cells using renderCells.induct with
  | case1 => exact absurd rfl h
  | case2 c => exact readFields_cell c
  | case3 c cells hne ih =>
    rw [renderCells, readFields_cell_delim, ih hne, List.map_cons]
    exact hne

/-! ## Tables -/

theorem renderCells_eq_nil_iff (r : Row d) : renderCells r.cells = [] ↔ r.isBlank = true := by
  unfold Row.isBlank
  rcases hr : r.cells with _ | ⟨c, _ | ⟨c', cells⟩⟩
  · exact absurd hr r.nonempty
  · simp only [renderCells, Cell.render]
    split_ifs with hquoted <;> simp [hquoted]
  · simp [renderCells]

/-- What one row adds to the table. -/
def Row.decoded (r : Row d) : List (List (List α)) := if r.isBlank then [] else [r.fields]

theorem decoded_eq (r : Row d) :
    (if renderCells r.cells = [] then [] else [readFields d (renderCells r.cells)]) =
      r.decoded := by
  rw [Row.decoded, readFields_renderCells r.nonempty]
  by_cases hblank : r.isBlank = true
  · rw [if_pos hblank, if_pos ((renderCells_eq_nil_iff r).mpr hblank)]
  · rw [if_neg hblank, if_neg (hblank ∘ (renderCells_eq_nil_iff r).mp)]
    rfl

theorem decode_row (r : Row d) (rest : List α) :
    decode d (renderCells r.cells ++ r.ending ++ rest) = r.decoded ++ decode d rest := by
  have hsplit : splitRecord d false (renderCells r.cells ++ r.ending ++ rest) =
      (renderCells r.cells ++ r.ending, rest) := by
    rw [List.append_assoc, passes_renderCells, splitRecord_ending]
  have hne : renderCells r.cells ++ r.ending ++ rest ≠ [] := by
    unfold Row.ending
    split_ifs <;> simp
  rw [decode, dif_neg hne]
  dsimp only
  rw [hsplit]
  dsimp only
  rw [trimRecord_ending, decoded_eq]

theorem decode_last (r : Row d) : decode d (renderCells r.cells) = r.decoded := by
  have hsplit : splitRecord d false (renderCells r.cells) = (renderCells r.cells, []) := by
    have h := passes_renderCells r.cells []
    rwa [List.append_nil, splitRecord, List.append_nil] at h
  rw [decode]
  split_ifs with hne
  · rw [← decoded_eq, if_pos hne]
  · dsimp only
    rw [hsplit]
    dsimp only
    rw [trimRecord_renderCells, decoded_eq, decode_nil, List.append_nil]

/-- Decoding a table gives back its rows, in order, without the blank lines. -/
theorem decode_render (terminated : Bool) (rows : List (Row d)) :
    decode d (render terminated rows) =
      (rows.filter fun r => !r.isBlank).map Row.fields := by
  have hdecoded : ∀ (r : Row d) (rows : List (Row d)),
      ((r :: rows).filter fun r => !r.isBlank).map Row.fields =
        r.decoded ++ (rows.filter fun r => !r.isBlank).map Row.fields := by
    intro r rows
    rw [Row.decoded]
    cases hblank : r.isBlank <;> simp [hblank]
  induction rows using render.induct with
  | case1 => rw [render, decode_nil, List.filter_nil, List.map_nil]
  | case2 r =>
    rw [render, hdecoded, List.filter_nil, List.map_nil]
    split_ifs
    · have h := decode_row r []
      rwa [List.append_nil, decode_nil] at h
    · rw [List.append_nil, List.append_nil, decode_last]
  | case3 r rows hne ih =>
    rw [render, decode_row, ih, hdecoded]
    exact hne

end DelimitedText
