import NceiCpp.Lib.DelimitedText

/-!
# Quoted spans of a record

A quoted span opens at a quote that is the first character of a field and closes at the next
quote that is not doubled; only a delimiter outside quoted spans ends a field. `Place.next`
follows this character by character. `readFields` reads the text behind a closing quote, if
there is any, as a field of its own, so it returns one field more for each such text
(`length_readFields`).

* `mem_readFields`, `mem_of_mem_readFields`: reading drops quotes and delimiters only.
* `decode_lines_iff`: when the records of a text are its lines.
-/

namespace DelimitedText

variable {α : Type} [DecidableEq α] (d : Dialect α)

/-- Where the scan of a record is: before the first character of a field, behind one of its
    characters and outside quoted spans, in a quoted span, or behind a quote in one, which
    closes it unless it is doubled. -/
inductive Place
  | start
  | plain
  | quoted
  | closing
  deriving DecidableEq, Repr

def Place.next : Place → α → Place
  | start, c => if c = d.delim then start else if c = d.quote then quoted else plain
  | plain, c => if c = d.delim then start else plain
  | quoted, c => if c = d.quote then closing else quoted
  | closing, c => if c = d.quote then quoted else if c = d.delim then start else plain

/-- The delimiters outside quoted spans: behind each one a field starts. -/
def delimsOutside : Place → List α → ℕ
  | _, [] => 0
  | p, c :: s => (if p.next d c = .start then 1 else 0) + delimsOutside (p.next d c) s

/-- The closing quotes with other text than a delimiter behind them. -/
def textsBehindQuotes : Place → List α → ℕ
  | _, [] => 0
  | p, c :: s =>
    (if p = .closing ∧ p.next d c = .plain then 1 else 0) + textsBehindQuotes (p.next d c) s

/-- No quoted span is open at the end of the record. -/
def SpansClosed (s : List α) : Prop := s.foldl (Place.next d) .start ≠ .quoted

instance (s : List α) : Decidable (SpansClosed d s) := inferInstanceAs (Decidable (_ ≠ _))

variable {d}

/-! ## Counting fields -/

theorem counts_quoted (s : List α) :
    delimsOutside d .quoted s = delimsOutside d .closing (readQuoted d s).2 ∧
      textsBehindQuotes d .quoted s = textsBehindQuotes d .closing (readQuoted d s).2 := by
  induction s using readQuoted.induct d with
  | case1 => exact ⟨rfl, rfl⟩
  | case2 =>
    simp [readQuoted, delimsOutside, textsBehindQuotes, Place.next]
  | case3 c h =>
    simp [readQuoted, delimsOutside, textsBehindQuotes, Place.next, h]
  | case4 s ih =>
    -- a doubled quote
    simpa [readQuoted, delimsOutside, textsBehindQuotes, Place.next] using ih
  | case5 c' s h =>
    simp [readQuoted, delimsOutside, textsBehindQuotes, Place.next, h]
  | case6 c c' s h ih =>
    rw [readQuoted, if_neg h, delimsOutside, textsBehindQuotes]
    simpa [Place.next, h] using ih

/-- What follows a closing quote does not start with a quote. -/
theorem head?_readQuoted (s : List α) : (readQuoted d s).2.head? ≠ some d.quote := by
  induction s using readQuoted.induct d with
  | case1 => simp [readQuoted]
  | case2 => simp [readQuoted]
  | case3 c h => simp [readQuoted, h]
  | case4 s ih => simpa [readQuoted] using ih
  | case5 c' s h => simp [readQuoted, h]
  | case6 c c' s h ih =>
    rw [readQuoted, if_neg h]
    exact ih

/-- A field that does not start with a quote has no quoted span and ends at the first
    delimiter. -/
theorem counts_plain {s : List α} :
    delimsOutside d .plain s =
        (if s.dropWhile (· ≠ d.delim) = [] then 0
        else delimsOutside d .start (s.dropWhile (· ≠ d.delim)).tail + 1) ∧
      textsBehindQuotes d .plain s =
        if s.dropWhile (· ≠ d.delim) = [] then 0
        else textsBehindQuotes d .start (s.dropWhile (· ≠ d.delim)).tail := by
  induction s with
  | nil => exact ⟨rfl, rfl⟩
  | cons c s ih =>
    by_cases hc : c = d.delim
    · rw [List.dropWhile_cons_of_neg (by simpa using hc)]
      simp [delimsOutside, textsBehindQuotes, Place.next, hc, Nat.add_comm]
    · rw [List.dropWhile_cons_of_pos (by simpa using hc)]
      simpa [delimsOutside, textsBehindQuotes, Place.next, hc] using ih

theorem counts_start {c : α} (hc : c ≠ d.quote) (s : List α) :
    delimsOutside d .start (c :: s) = delimsOutside d .plain (c :: s) ∧
      textsBehindQuotes d .start (c :: s) = textsBehindQuotes d .plain (c :: s) := by
  simp [delimsOutside, textsBehindQuotes, Place.next, hc]

theorem counts_open (s : List α) :
    delimsOutside d .start (d.quote :: s) = delimsOutside d .closing (readQuoted d s).2 ∧
      textsBehindQuotes d .start (d.quote :: s) =
        textsBehindQuotes d .closing (readQuoted d s).2 := by
  have hopen : Place.next d .start d.quote = .quoted := by
    simp [Place.next, d.distinct.1.symm]
  rw [delimsOutside, textsBehindQuotes, hopen, (counts_quoted s).1, (counts_quoted s).2]
  simp

/-- Reading gives one field more than there are delimiters outside quoted spans, and one more
    for each text behind a closing quote. -/
theorem length_readFields (s : List α) :
    (readFields d s).length = 1 + delimsOutside d .start s + textsBehindQuotes d .start s := by
  induction s using readFields.induct d with
  | case1 => rw [readFields, delimsOutside, textsBehindQuotes, List.length_singleton]
  | case2 s hrest =>
    rw [readFields_quote_end hrest, (counts_open s).1, (counts_open s).2, hrest]
    rfl
  | case3 s c' s' hrest ih ih' =>
    have hquote : c' ≠ d.quote := by
      have := head?_readQuoted (d := d) s
      rw [hrest] at this
      simpa using this
    rw [readFields_quote_cons hrest, (counts_open s).1, (counts_open s).2, hrest,
      List.length_cons, delimsOutside, textsBehindQuotes]
    by_cases hdelim : c' = d.delim
    · rw [if_pos hdelim, ih]
      simp [Place.next, hdelim, d.distinct.1]
      omega
    · -- the text behind the closing quote is a field of its own
      rw [if_neg hdelim, ih', delimsOutside, textsBehindQuotes]
      simp [Place.next, hdelim, hquote]
      omega
  | case4 c s hc hrest =>
    have hhead : (c :: s).head? ≠ some d.quote := by simpa using hc
    rw [readFields_of_head_ne hhead, (counts_start hc s).1, (counts_start hc s).2, counts_plain.1,
      counts_plain.2, if_pos hrest, if_pos hrest, if_pos hrest]
    rfl
  | case5 c s hc c' s' hrest ih =>
    have hhead : (c :: s).head? ≠ some d.quote := by simpa using hc
    have hne : (c :: s).dropWhile (· ≠ d.delim) ≠ [] := by
      rw [hrest]
      exact List.cons_ne_nil _ _
    rw [readFields_of_head_ne hhead, (counts_start hc s).1, (counts_start hc s).2, counts_plain.1,
      counts_plain.2, if_neg hne, if_neg hne, if_neg hne, hrest, List.tail_cons, List.length_cons,
      ih]
    omega

/-! ## What reading keeps -/

theorem mem_of_mem_readQuoted {c : α} {s : List α}
    (h : c ∈ (readQuoted d s).1 ∨ c ∈ (readQuoted d s).2) : c ∈ s := by
  induction s using readQuoted.induct d with
  | case1 => simp [readQuoted] at h
  | case2 => simp [readQuoted] at h
  | case3 c h' => simpa [readQuoted, h'] using h
  | case4 s ih =>
    simp only [readQuoted, if_true, List.mem_cons] at h ⊢
    tauto
  | case5 c' s h' =>
    simp only [readQuoted, h', if_true, if_false, List.mem_cons, List.not_mem_nil, false_or] at h ⊢
    tauto
  | case6 c c' s h' ih =>
    simp only [readQuoted, h', if_false, List.mem_cons] at h ih ⊢
    tauto

theorem mem_readQuoted {c : α} {s : List α} (h : c ∈ s) (hquote : c ≠ d.quote) :
    c ∈ (readQuoted d s).1 ∨ c ∈ (readQuoted d s).2 := by
  induction s using readQuoted.induct d with
  | case1 => cases h
  | case2 => exact absurd (List.mem_singleton.mp h) hquote
  | case3 c h' => simpa [readQuoted, h'] using h
  | case4 s ih =>
    simp only [readQuoted, if_true, List.mem_cons] at h ⊢
    tauto
  | case5 c' s h' =>
    simp only [readQuoted, h', if_true, if_false, List.mem_cons, List.not_mem_nil, false_or] at h ⊢
    tauto
  | case6 c c' s h' ih =>
    simp only [readQuoted, h', if_false, List.mem_cons] at h ih ⊢
    tauto

/-- Fields have the characters of the record only. -/
theorem mem_of_mem_readFields {c : α} {f s : List α} (hf : f ∈ readFields d s) (hc : c ∈ f) :
    c ∈ s := by
  induction s using readFields.induct d with
  | case1 =>
    rw [readFields, List.mem_singleton] at hf
    rwa [hf] at hc
  | case2 s hrest =>
    rw [readFields_quote_end hrest, List.mem_singleton] at hf
    rw [hf] at hc
    exact List.mem_cons_of_mem _ (mem_of_mem_readQuoted (.inl hc))
  | case3 s c' s' hrest ih ih' =>
    rw [readFields_quote_cons hrest] at hf
    have hsub : ∀ a ∈ c' :: s', a ∈ s := fun a ha => mem_of_mem_readQuoted (.inr (hrest ▸ ha))
    rcases List.mem_cons.mp hf with rfl | hf
    · exact List.mem_cons_of_mem _ (mem_of_mem_readQuoted (.inl hc))
    · split_ifs at hf
      · exact List.mem_cons_of_mem _ (hsub _ (List.mem_cons_of_mem _ (ih hf)))
      · exact List.mem_cons_of_mem _ (hsub _ (ih' hf))
  | case4 c0 s hc0 hrest =>
    rw [readFields_of_head_ne (by simpa using hc0), if_pos hrest, List.mem_singleton] at hf
    rw [hf] at hc
    exact (List.takeWhile_prefix _).subset hc
  | case5 c0 s hc0 c' s' hrest ih =>
    rw [readFields_of_head_ne (by simpa using hc0), hrest, if_neg (List.cons_ne_nil _ _),
      List.tail_cons] at hf
    rcases List.mem_cons.mp hf with rfl | hf
    · exact (List.takeWhile_prefix _).subset hc
    · have hsub := (List.dropWhile_suffix (l := c0 :: s) (· ≠ d.delim)).subset
      exact hsub (hrest ▸ List.mem_cons_of_mem _ (ih hf))

/-- Reading drops quotes and delimiters only. -/
theorem mem_readFields {c : α} {s : List α} (h : c ∈ s) (hquote : c ≠ d.quote)
    (hdelim : c ≠ d.delim) : ∃ f ∈ readFields d s, c ∈ f := by
  induction s using readFields.induct d with
  | case1 => cases h
  | case2 s hrest =>
    rw [readFields_quote_end hrest]
    refine ⟨_, List.mem_singleton_self _, ?_⟩
    have hmem := mem_readQuoted ((List.mem_cons.mp h).resolve_left hquote) hquote
    rwa [hrest, or_iff_left (List.not_mem_nil)] at hmem
  | case3 s c' s' hrest ih ih' =>
    rw [readFields_quote_cons hrest]
    rcases mem_readQuoted ((List.mem_cons.mp h).resolve_left hquote) hquote with hmem | hmem
    · exact ⟨_, List.mem_cons_self, hmem⟩
    · rw [hrest] at hmem
      split_ifs with hc'
      · obtain ⟨f, hf, hcf⟩ := ih ((List.mem_cons.mp hmem).resolve_left (hc' ▸ hdelim))
        exact ⟨f, List.mem_cons_of_mem _ hf, hcf⟩
      · obtain ⟨f, hf, hcf⟩ := ih' hmem
        exact ⟨f, List.mem_cons_of_mem _ hf, hcf⟩
  | case4 c0 s hc0 hrest =>
    rw [readFields_of_head_ne (by simpa using hc0), if_pos hrest]
    refine ⟨_, List.mem_singleton_self _, ?_⟩
    have happend := List.takeWhile_append_dropWhile (p := fun x => decide (x ≠ d.delim))
      (l := c0 :: s)
    rw [hrest, List.append_nil] at happend
    rwa [happend]
  | case5 c0 s hc0 c' s' hrest ih =>
    rw [readFields_of_head_ne (by simpa using hc0), hrest, if_neg (List.cons_ne_nil _ _),
      List.tail_cons]
    have happend := List.takeWhile_append_dropWhile (p := fun x => decide (x ≠ d.delim))
      (l := c0 :: s)
    have hc' : c' = d.delim := by
      have := List.head?_dropWhile_not (fun x => decide (x ≠ d.delim)) (c0 :: s)
      rw [hrest] at this
      simpa using this
    rw [← happend, List.mem_append, hrest, List.mem_cons, hc'] at h
    rcases h with h | h | h
    · exact ⟨_, List.mem_cons_self, h⟩
    · exact absurd h hdelim
    · obtain ⟨f, hf, hcf⟩ := ih h
      exact ⟨f, List.mem_cons_of_mem _ hf, hcf⟩

/-! ## Lines and records -/

/-- The number of quotes of the line is odd. -/
def OddQuotes (d : Dialect α) (s : List α) : Prop := s.count d.quote % 2 = 1

instance (s : List α) : Decidable (OddQuotes d s) := inferInstanceAs (Decidable (_ = _))

/-- A line can be put between line feeds: it has none, and no carriage return at its end. -/
structure Line (d : Dialect α) (s : List α) : Prop where
  lf : d.lf ∉ s
  cr : s.getLast? ≠ some d.cr

/-- A record that is a line. -/
def row (d : Dialect α) (s : List α) : List (List (List α)) :=
  if s = [] then [] else [readFields d s]

/-- Without one empty line at the end, every line but the last has an even number of quotes. -/
def EvenQuotes (d : Dialect α) (lines : List (List α)) : Prop :=
  ∀ s ∈ (dropEnd [] lines).dropLast, ¬ OddQuotes d s

instance (lines : List (List α)) : Decidable (EvenQuotes d lines) :=
  inferInstanceAs (Decidable (∀ s ∈ (dropEnd [] lines).dropLast, ¬ OddQuotes d s))

theorem oddQuotes_quote_cons (s : List α) : OddQuotes d (d.quote :: s) ↔ ¬ OddQuotes d s := by
  unfold OddQuotes
  rw [List.count_cons_self]
  omega

theorem oddQuotes_cons_of_ne {c : α} (hc : c ≠ d.quote) (s : List α) :
    OddQuotes d (c :: s) ↔ OddQuotes d s := by
  unfold OddQuotes
  rw [List.count_cons_of_ne hc]

theorem passes_line {s : List α} (h : d.lf ∉ s) (q : Bool) :
    Passes d q s (q != decide (OddQuotes d s)) := by
  induction s generalizing q with
  | nil => simpa [OddQuotes] using Passes.nil q
  | cons c s ih =>
    rw [List.mem_cons, not_or] at h
    by_cases hc : c = d.quote
    · have hpasses := (Passes.quote q).append (ih h.2 (!q))
      rw [List.singleton_append] at hpasses
      rw [hc]
      by_cases hs : OddQuotes d s <;> simpa [oddQuotes_quote_cons, hs] using hpasses
    · have hpasses := (Passes.char (q := q) hc (.inl (Ne.symm h.1))).append (ih h.2 q)
      simpa [oddQuotes_cons_of_ne hc] using hpasses

theorem trimRecord_line {s : List α} (h : Line d s) : trimRecord d s = s := by
  have hlf : s.getLast? ≠ some d.lf := fun hlast => h.lf (List.mem_of_getLast? hlast)
  rw [trimRecord, dropEnd_of_ne hlf, dropEnd_of_ne h.cr]

theorem trimRecord_concat {s : List α} (h : Line d s) : trimRecord d (s ++ [d.lf]) = s := by
  rw [trimRecord, dropEnd_concat, dropEnd_of_ne h.cr]

/-- The last line is a record. -/
theorem decode_line {s : List α} (h : Line d s) : decode d s = row d s := by
  have hsplit : splitRecord d false s = (s, []) := by
    have hpasses := passes_line h.lf false []
    rwa [List.append_nil, splitRecord, List.append_nil] at hpasses
  by_cases hnil : s = []
  · rw [hnil, decode_nil, row, if_pos rfl]
  · rw [decode, dif_neg hnil, row]
    dsimp only
    rw [hsplit, trimRecord_line h, decode_nil, List.append_nil]

/-- A line with an even number of quotes is a record. -/
theorem decode_even {s : List α} (h : Line d s) (heven : ¬ OddQuotes d s) (rest : List α) :
    decode d (s ++ d.lf :: rest) = row d s ++ decode d rest := by
  have hlf : d.lf ≠ d.quote := d.distinct.2.2.2.2.1.symm
  have hsplit : splitRecord d false (s ++ d.lf :: rest) = (s ++ [d.lf], rest) := by
    rw [passes_line h.lf false]
    simp [heven, splitRecord, hlf]
  rw [decode, dif_neg (by simp), row]
  dsimp only
  rw [hsplit, trimRecord_concat h]

/-- A line with an odd number of quotes in front of the end of the text is one, too. -/
theorem decode_odd_end {s : List α} (h : Line d s) (hodd : OddQuotes d s) :
    decode d (s ++ [d.lf]) = row d s := by
  have hlf : d.lf ≠ d.quote := d.distinct.2.2.2.2.1.symm
  have hsplit : splitRecord d false (s ++ [d.lf]) = (s ++ [d.lf], []) := by
    rw [passes_line h.lf false]
    simp [hodd, splitRecord, hlf]
  rw [decode, dif_neg (by simp), row]
  dsimp only
  rw [hsplit, trimRecord_concat h, decode_nil, List.append_nil]

theorem dropEnd_append {β : Type} [DecidableEq β] (c : β) (s : List β) {s' : List β}
    (h : s' ≠ []) : dropEnd c (s ++ s') = s ++ dropEnd c s' := by
  unfold dropEnd
  rw [List.getLast?_append_of_ne_nil _ h, List.dropLast_append_of_ne_nil h]
  split_ifs <;> rfl

/-- A line feed that is not at the end of a record stays in it. -/
theorem mem_trimRecord (s : List α) {s' : List α} (hs' : s' ≠ []) :
    d.lf ∈ trimRecord d (s ++ d.lf :: s') := by
  rw [List.append_cons, trimRecord, dropEnd_append _ _ hs']
  by_cases hnil : dropEnd d.lf s' = []
  · have hcr : (s ++ [d.lf]).getLast? ≠ some d.cr := by
      rw [List.getLast?_concat]
      exact fun h => d.distinct.2.2.2.2.2 (Option.some.inj h).symm
    rw [hnil, List.append_nil, dropEnd_of_ne hcr]
    simp
  · rw [dropEnd_append _ _ hnil]
    simp

/-- A line with an odd number of quotes is merged with what follows. -/
theorem decode_odd {s rest : List α} (h : Line d s) (hodd : OddQuotes d s) (hrest : rest ≠ []) :
    ∃ fields ∈ decode d (s ++ d.lf :: rest), ∃ f ∈ fields, d.lf ∈ f := by
  have hlf : d.lf ≠ d.quote := d.distinct.2.2.2.2.1.symm
  have hsplit : splitRecord d false (s ++ d.lf :: rest) =
      (s ++ d.lf :: (splitRecord d true rest).1, (splitRecord d true rest).2) := by
    rw [passes_line h.lf false]
    simp [hodd, splitRecord, hlf]
  have hmem := mem_trimRecord (d := d) s (splitRecord_ne_nil d true hrest)
  obtain ⟨f, hf, hmem'⟩ := mem_readFields hmem hlf d.distinct.2.2.1.symm
  refine ⟨_, ?_, f, hf, hmem'⟩
  rw [decode, dif_neg (by simp)]
  dsimp only
  rw [hsplit, if_neg (List.ne_nil_of_mem hmem)]
  exact List.mem_append_left _ (List.mem_singleton_self _)

theorem evenQuotes_cons (s s' : List α) (lines : List (List α)) :
    EvenQuotes d (s :: s' :: lines) ↔
      (¬ OddQuotes d s ∨ s' :: lines = [[]]) ∧ EvenQuotes d (s' :: lines) := by
  have hdrop : dropEnd [] (s :: s' :: lines) = s :: dropEnd [] (s' :: lines) :=
    dropEnd_append [] [s] (List.cons_ne_nil _ _)
  unfold EvenQuotes
  rw [hdrop]
  by_cases hnil : dropEnd [] (s' :: lines) = []
  · have heq : s' :: lines = [[]] := by
      unfold dropEnd at hnil
      split_ifs at hnil with hlast
      · have happend := List.dropLast_append_getLast? _ hlast
        rw [hnil] at happend
        exact happend.symm
    rw [hnil]
    simp [heq]
  · have hne : s' :: lines ≠ [[]] := by
      intro heq
      rw [heq] at hnil
      exact hnil (by simp [dropEnd])
    rw [List.dropLast_cons_of_ne_nil hnil, List.forall_mem_cons]
    simp [hne]

/-- The records of a text are its lines exactly when no line that another one follows has an
    odd number of quotes. -/
theorem decode_lines_iff {lines : List (List α)} (h : ∀ s ∈ lines, Line d s) :
    decode d ([d.lf].intercalate lines) = lines.flatMap (row d) ↔ EvenQuotes d lines := by
  induction lines with
  | nil => simp [EvenQuotes, dropEnd]
  | cons s lines ih =>
    obtain ⟨hs, hlines⟩ := List.forall_mem_cons.mp h
    cases lines with
    | nil =>
      have heven : EvenQuotes d [s] := by
        unfold EvenQuotes dropEnd
        split_ifs <;> simp
      simpa [heven] using decode_line hs
    | cons s' lines =>
      have htext : [d.lf].intercalate (s :: s' :: lines) =
          s ++ d.lf :: [d.lf].intercalate (s' :: lines) := by
        simp [List.intercalate]
      rw [htext, evenQuotes_cons, List.flatMap_cons, ← ih hlines]
      by_cases hodd : OddQuotes d s
      · by_cases hend : s' :: lines = [[]]
        · have hnil : row d ([] : List α) = [] := if_pos rfl
          rw [hend, List.intercalate_singleton, decode_odd_end hs hodd]
          simp [hnil]
        · -- the row that is merged has a field with a line feed
          have hrest : [d.lf].intercalate (s' :: lines) ≠ [] := by
            cases lines with
            | nil => simpa using hend
            | cons s'' lines => simp [List.intercalate_cons_cons]
          obtain ⟨fields, hfields, f, hf, hmem⟩ := decode_odd hs hodd hrest
          refine iff_of_false (fun heq => ?_) (by simp [hodd, hend])
          rw [heq, ← List.flatMap_cons] at hfields
          obtain ⟨l, hl, hfields⟩ := List.mem_flatMap.mp hfields
          unfold row at hfields
          split_ifs at hfields
          · cases hfields
          · rw [List.mem_singleton.mp hfields] at hf
            exact (h l hl).lf (mem_of_mem_readFields hf hmem)
      · rw [decode_even hs hodd, List.append_cancel_left_eq]
        simp [hodd]

end DelimitedText
