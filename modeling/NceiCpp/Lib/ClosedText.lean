import NceiCpp.Lib.RecordPieces

/-!
# Texts that end with a record

A text can grow at its end. Where its last record has its line feed, what is added is read as
further records; anywhere else it is read as a part of the last record.

* `Closed`: the last record has its line feed.
* `decode_append_iff`: decoding is a homomorphism on such texts, and on no others.
* `closed_render`: a written table is such a text.
-/

namespace DelimitedText

variable {α : Type} [DecidableEq α] {d : Dialect α}

/-- The text is empty, or ends with a line feed behind an even number of quotes. -/
def Closed (d : Dialect α) (s : List α) : Prop :=
  s = [] ∨ (s.getLast? = some d.lf ∧ ¬ OddQuotes d s)

instance (s : List α) : Decidable (Closed d s) := inferInstanceAs (Decidable (_ ∨ _))

/-- Scanning from the parity `q` goes through `s`, to the parity behind it, or ends a record
    inside, with a line feed at which the number of quotes is even. -/
theorem splitRecord_cases (q : Bool) (s : List α) :
    (∃ r rest, s = r ++ rest ∧ r.getLast? = some d.lf ∧ (q != decide (OddQuotes d r)) = false ∧
      ∀ t, splitRecord d q (r ++ t) = (r, t)) ∨
    (Passes d q s (q != decide (OddQuotes d s)) ∧
      (s.getLast? = some d.lf → (q != decide (OddQuotes d s)) = true)) := by
  obtain ⟨-, -, -, -, hqlf, -⟩ := d.distinct
  induction s generalizing q with
  | nil => exact .inr ⟨by simpa [OddQuotes] using Passes.nil q, by simp⟩
  | cons c s ih =>
    by_cases hc : c = d.quote
    · -- a quote changes the parity
      have hodd : ∀ l, (q != decide (OddQuotes d (c :: l))) =
          ((!q) != decide (OddQuotes d l)) := by
        intro l
        rw [hc]
        by_cases hl : OddQuotes d l <;> cases q <;> simp [oddQuotes_quote_cons, hl]
      rcases ih (!q) with ⟨r, rest, rfl, hlast, heven, hsplit⟩ | ⟨hpasses, hlast⟩
      · refine .inl ⟨c :: r, rest, rfl, ?_, (hodd r).trans heven, fun t => ?_⟩
        · rw [List.getLast?_cons, hlast]
          rfl
        · rw [List.cons_append, splitRecord, if_pos hc, hsplit]
      · refine .inr ⟨?_, fun hlast' => ?_⟩
        · rw [hodd, hc]
          exact (Passes.quote q).append hpasses
        · rw [hodd]
          refine hlast ?_
          cases s with
          | nil =>
            rw [List.getLast?_singleton, hc] at hlast'
            exact absurd (Option.some.inj hlast') hqlf
          | cons c' s => rwa [List.getLast?_cons_cons] at hlast'
    · have hodd : ∀ l, OddQuotes d (c :: l) ↔ OddQuotes d l := oddQuotes_cons_of_ne hc
      by_cases hend : c = d.lf ∧ q = false
      · refine .inl ⟨[c], s, rfl, ?_, ?_, fun t => ?_⟩
        · rw [hend.1]
          rfl
        · have heven : ¬ OddQuotes d [c] := by
            rw [hodd]
            simp [OddQuotes]
          simp [heven, hend.2]
        · rw [List.singleton_append, splitRecord, if_neg hc, if_pos hend]
      · have hpass : Passes d q [c] q :=
          Passes.char hc (by by_cases hlf : c = d.lf <;> simp_all)
        rcases ih q with ⟨r, rest, rfl, hlast, heven, hsplit⟩ | ⟨hpasses, hlast⟩
        · refine .inl ⟨c :: r, rest, rfl, ?_, by simpa [hodd] using heven, fun t => ?_⟩
          · rw [List.getLast?_cons, hlast]
            rfl
          · rw [List.cons_append, splitRecord, if_neg hc, if_neg hend, hsplit]
        · refine .inr ⟨?_, fun hlast' => ?_⟩
          · simpa [hodd] using hpass.append hpasses
          · simp only [hodd]
            cases s with
            | nil =>
              rw [List.getLast?_singleton] at hlast'
              have hq : q ≠ false := fun hq => hend ⟨Option.some.inj hlast', hq⟩
              simpa [OddQuotes] using hq
            | cons c' s =>
              rw [List.getLast?_cons_cons] at hlast'
              exact hlast hlast'

/-- The row of the first record. -/
def firstRow (d : Dialect α) (r : List α) : List (List (List α)) := row d (trimRecord d r)

theorem decode_split {s r t : List α} (hs : s ≠ []) (h : splitRecord d false s = (r, t)) :
    decode d s = firstRow d r ++ decode d t := by
  rw [decode, dif_neg hs, firstRow, row]
  dsimp only
  rw [h]

theorem Closed.of_append {r rest : List α} (hr : ¬ OddQuotes d r) (hlast : r.getLast? = some d.lf) :
    Closed d (r ++ rest) ↔ Closed d rest := by
  have hne : r ≠ [] := by
    rintro rfl
    cases hlast
  have hodd : OddQuotes d (r ++ rest) ↔ OddQuotes d rest := by
    unfold OddQuotes at hr ⊢
    rw [List.count_append]
    omega
  unfold Closed
  rw [hodd, List.append_eq_nil_iff]
  cases rest with
  | nil => simp [hlast, OddQuotes]
  | cons c rest =>
    rw [List.getLast?_append_of_ne_nil _ (List.cons_ne_nil c rest)]
    simp

/-- A text has a first record, with its line feed, or is empty or one open record. -/
theorem split_or_open (s : List α) :
    (∃ r rest, rest.length < s.length ∧ (Closed d s ↔ Closed d rest) ∧
      ∀ t, decode d (s ++ t) = firstRow d r ++ decode d (rest ++ t)) ∨
    ((s ≠ [] → ¬ Closed d s) ∧ ∃ q, Passes d false s q) := by
  rcases splitRecord_cases (d := d) false s with ⟨r, rest, rfl, hlast, heven, hsplit⟩ |
    ⟨hpasses, hlast⟩
  · have hr : r ≠ [] := by
      rintro rfl
      cases hlast
    have hodd : ¬ OddQuotes d r := by simpa using heven
    refine .inl ⟨r, rest, ?_, Closed.of_append hodd hlast, fun t => ?_⟩
    · have := List.length_pos_iff.mpr hr
      rw [List.length_append]
      omega
    · rw [List.append_assoc]
      exact decode_split (by simp [hr]) (hsplit (rest ++ t))
  · refine .inr ⟨fun hne hclosed => ?_, _, hpasses⟩
    obtain ⟨hlf, heven⟩ := hclosed.resolve_left hne
    exact heven (by simpa using hlast hlf)

/-- What is added to a closed text is read on its own. -/
theorem decode_append {s : List α} (h : Closed d s) (t : List α) :
    decode d (s ++ t) = decode d s ++ decode d t := by
  induction hn : s.length using Nat.strong_induction_on generalizing s with
  | _ n ih =>
    rcases split_or_open (d := d) s with ⟨r, rest, hlength, hclosed, hdecode⟩ | ⟨hopen, -⟩
    · have hs := hdecode []
      rw [List.append_nil, List.append_nil] at hs
      rw [hdecode, hs, ih _ (hn ▸ hlength) (hclosed.mp h) rfl, List.append_assoc]
    · have hs : s = [] := by
        by_contra hne
        exact hopen hne h
      rw [hs, decode_nil, List.nil_append, List.nil_append]

/-- A delimiter behind an open record is a part of it. -/
theorem decode_open {s : List α} (hs : s ≠ []) (hopen : ¬ Closed d s) {q : Bool}
    (hpasses : Passes d false s q) :
    decode d (s ++ [d.delim]) ≠ decode d s ++ decode d [d.delim] := by
  obtain ⟨hdq, hdcr, hdlf, hqcr, hqlf, -⟩ := d.distinct
  have hdelim : Passes d q [d.delim] q := Passes.char hdq (.inl hdlf)
  have hsplit : splitRecord d false s = (s, []) := by
    have h := hpasses []
    rwa [List.append_nil, splitRecord, List.append_nil] at h
  have hsplit' : splitRecord d false (s ++ [d.delim]) = (s ++ [d.delim], []) := by
    have h := (hpasses.append hdelim) []
    rwa [List.append_nil, splitRecord, List.append_nil] at h
  have htrim : trimRecord d (s ++ [d.delim]) = s ++ [d.delim] := by
    have hlast : ∀ c, d.delim ≠ c → dropEnd c (s ++ [d.delim]) = s ++ [d.delim] := by
      intro c hc
      exact dropEnd_of_ne (by simpa using hc)
    rw [trimRecord, hlast d.lf hdlf, hlast d.cr hdcr]
  have hone : decode d (s ++ [d.delim]) = [readFields d (s ++ [d.delim])] := by
    rw [decode_split (by simp) hsplit', decode_nil, List.append_nil, firstRow, htrim, row,
      if_neg (by simp)]
  have hplain : ∀ l : List α, (∀ c ∈ l, c ≠ d.delim ∧ c ≠ d.quote) →
      readFields d (l ++ [d.delim]) = [l, []] := by
    intro l hl
    rw [readFields_plain_delim hl, readFields]
  have hdecode : decode d [d.delim] = [[[], []]] := by
    have hline : Line d [d.delim] := ⟨by simpa using hdlf.symm, by simpa using hdcr⟩
    rw [decode_line hline, row, if_neg (by simp)]
    exact congrArg (fun l => [l]) (hplain [] (List.forall_mem_nil _))
  rw [hone, hdecode, decode_split hs hsplit, decode_nil, List.append_nil, firstRow, row]
  split_ifs with hempty
  · -- all of the text is the end of a line, so it is a single carriage return
    obtain ⟨heq, hcases⟩ := lineEnd_cases (d := d) s
    rw [hempty, List.nil_append] at heq
    have hcr : s = [d.cr] := by
      rcases hcases with ⟨hlf, hend | hend⟩ | ⟨-, hend | hend⟩
      · refine absurd (.inr ⟨hlf, ?_⟩) hopen
        rw [heq, hend]
        simp [OddQuotes, hqlf.symm]
      · refine absurd (.inr ⟨hlf, ?_⟩) hopen
        rw [heq, hend]
        simp [OddQuotes, hqlf.symm, hqcr.symm]
      · exact absurd (heq.trans hend) hs
      · exact heq.trans hend
    rw [hcr, hplain [d.cr] (by simp [hdcr.symm, hqcr.symm])]
    simp
  · intro h
    have hlength := congrArg List.length h
    simp at hlength

/-- Decoding is a homomorphism in front of every text exactly on closed texts. -/
theorem decode_append_iff (s : List α) :
    (∀ t, decode d (s ++ t) = decode d s ++ decode d t) ↔ Closed d s := by
  refine ⟨fun h => ?_, decode_append⟩
  by_contra hopen
  induction hn : s.length using Nat.strong_induction_on generalizing s with
  | _ n ih =>
    rcases split_or_open (d := d) s with ⟨r, rest, hlength, hclosed, hdecode⟩ | ⟨-, q, hpasses⟩
    · refine ih _ (hn ▸ hlength) rest (fun t => ?_) (mt hclosed.mpr hopen) rfl
      have hs := hdecode []
      rw [List.append_nil, List.append_nil] at hs
      have ht := h t
      rw [hdecode, hs, List.append_assoc] at ht
      exact List.append_cancel_left ht
    · exact decode_open (fun hs => hopen (.inl hs)) hopen hpasses (h [d.delim])

/-! ## Written tables -/

theorem render_cons (r : Row d) (rows : List (Row d)) :
    render true (r :: rows) = renderCells r.cells ++ r.ending ++ render true rows := by
  cases rows with
  | nil => rw [render, render, if_pos rfl, List.append_nil]
  | cons r' rows =>
    rw [render]
    exact List.cons_ne_nil _ _

theorem render_append (rows more : List (Row d)) :
    render true (rows ++ more) = render true rows ++ render true more := by
  induction rows with
  | nil => rfl
  | cons r rows ih => simp only [List.cons_append, render_cons, ih, List.append_assoc]

/-- A table with a line end behind each row is closed. -/
theorem closed_render (rows : List (Row d)) : Closed d (render true rows) := by
  rw [← decode_append_iff]
  intro t
  induction rows with
  | nil => rw [render, decode_nil, List.nil_append, List.nil_append]
  | cons r rows ih =>
    rw [render_cons, List.append_assoc, decode_row, decode_row, ih, List.append_assoc]

end DelimitedText
