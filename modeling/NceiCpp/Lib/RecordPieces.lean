import NceiCpp.Lib.QuotedSpans

/-!
# The pieces of a text

A cursor that moves forward in each step and not over the end of a text reaches the end, and
the pieces between its positions are the text. The pieces that `splitRecord` makes are
records with their line ends.

* `exists_iterate_eq`, `flatMap_pieces`: cursors.
* `lineEnd_cases`: what is behind a record.
* `splitRecord_lf`, `trimRecord_lf`: where line feeds are.
-/

namespace DelimitedText

/-! ## Cursors -/

/-- A cursor that moves forward reaches the end. -/
theorem exists_iterate_eq {next : ℕ → ℕ} {stop : ℕ} (hnext : ∀ p < stop, p < next p ∧ next p ≤ stop)
    {p : ℕ} (hp : p ≤ stop) : ∃ k, next^[k] p = stop ∧ ∀ i < k, next^[i] p < stop := by
  induction hn : stop - p using Nat.strong_induction_on generalizing p with
  | _ n ih =>
    rcases hp.lt_or_eq with hlt | heq
    · obtain ⟨h1, h2⟩ := hnext p hlt
      obtain ⟨k, hk, hbefore⟩ := ih (stop - next p) (by omega) h2 rfl
      refine ⟨k + 1, by rw [Function.iterate_succ_apply, hk], fun i hi => ?_⟩
      cases i with
      | zero => exact hlt
      | succ i =>
        rw [Function.iterate_succ_apply]
        exact hbefore i (by omega)
    · exact ⟨0, heq, fun i hi => absurd hi (Nat.not_lt_zero i)⟩

variable {α : Type}

/-- The pieces between the positions, one after the other. -/
theorem flatMap_pieces (s : List α) {position : ℕ → ℕ} (hzero : position 0 = 0) {k : ℕ}
    (hmono : ∀ i < k, position i ≤ position (i + 1)) :
    (List.range k).flatMap
        (fun i => (s.drop (position i)).take (position (i + 1) - position i)) =
      s.take (position k) := by
  induction k with
  | zero => simp [hzero]
  | succ k ih =>
    have hk := hmono k (by omega)
    rw [List.range_succ, List.flatMap_append, ih fun i hi => hmono i (by omega),
      List.flatMap_singleton, ← List.take_add, Nat.add_sub_cancel' hk]

/-! ## Line ends -/

variable [DecidableEq α] (d : Dialect α)

/-- What `trimRecord` cuts off. -/
def lineEnd (s : List α) : List α := s.drop (trimRecord d s).length

variable {d}

theorem dropEnd_eq_or (c : α) (s : List α) :
    (s.getLast? = some c ∧ s = dropEnd c s ++ [c]) ∨ (s.getLast? ≠ some c ∧ s = dropEnd c s) := by
  unfold dropEnd
  split_ifs with h
  · exact .inl ⟨h, (List.dropLast_append_getLast? _ h).symm⟩
  · exact .inr ⟨h, rfl⟩

theorem lineEnd_eq {s t : List α} (h : s = trimRecord d s ++ t) : lineEnd d s = t := by
  have hdrop := congrArg (List.drop (trimRecord d s).length) h
  rwa [List.drop_left] at hdrop

/-- A line end is a line feed with or without a carriage return in front of it, if the text
    ends with one, and otherwise a carriage return or nothing. -/
theorem lineEnd_cases (s : List α) :
    s = trimRecord d s ++ lineEnd d s ∧
      ((s.getLast? = some d.lf ∧ (lineEnd d s = [d.lf] ∨ lineEnd d s = [d.cr, d.lf])) ∨
        (s.getLast? ≠ some d.lf ∧ (lineEnd d s = [] ∨ lineEnd d s = [d.cr]))) := by
  have happend : ∀ t, s = trimRecord d s ++ t → lineEnd d s = t := fun t h => lineEnd_eq h
  have htrim : trimRecord d s = dropEnd d.cr (dropEnd d.lf s) := rfl
  rcases dropEnd_eq_or d.lf s with ⟨hlast, hlf⟩ | ⟨hlast, hlf⟩ <;>
    rcases dropEnd_eq_or d.cr (dropEnd d.lf s) with ⟨-, hcr⟩ | ⟨-, hcr⟩ <;>
    rw [← htrim] at hcr
  · have h : s = trimRecord d s ++ [d.cr, d.lf] := by
      rw [hcr] at hlf
      simpa using hlf
    rw [happend _ h]
    exact ⟨h, .inl ⟨hlast, .inr rfl⟩⟩
  · have h : s = trimRecord d s ++ [d.lf] := by rwa [hcr] at hlf
    rw [happend _ h]
    exact ⟨h, .inl ⟨hlast, .inl rfl⟩⟩
  · have h : s = trimRecord d s ++ [d.cr] := hlf.trans hcr
    rw [happend _ h]
    exact ⟨h, .inr ⟨hlast, .inr rfl⟩⟩
  · have h : s = trimRecord d s ++ [] := by
      rw [List.append_nil]
      exact hlf.trans hcr
    rw [happend _ h]
    exact ⟨h, .inr ⟨hlast, .inl rfl⟩⟩

/-! ## Line feeds -/

/-- A record that another one follows ends with a line feed. -/
theorem getLast?_splitRecord {quoted : Bool} {s : List α} (h : (splitRecord d quoted s).2 ≠ []) :
    (splitRecord d quoted s).1.getLast? = some d.lf := by
  induction s generalizing quoted with
  | nil => exact absurd rfl h
  | cons c s ih =>
    rw [splitRecord] at h ⊢
    split_ifs at h ⊢ with hquote hlf
    · rw [List.getLast?_cons, ih h]
      rfl
    · rw [hlf.1]
      rfl
    · rw [List.getLast?_cons, ih h]
      rfl

/-- A line feed inside a record is inside quotes. -/
theorem splitRecord_lf {quoted : Bool} {s a b : List α}
    (h : (splitRecord d quoted s).1 = a ++ d.lf :: b) (hb : b ≠ []) :
    (quoted != decide (OddQuotes d a)) = true := by
  have hne : d.quote ≠ d.lf := d.distinct.2.2.2.2.1
  induction s generalizing quoted a with
  | nil => simp [splitRecord] at h
  | cons c s ih =>
    rw [splitRecord] at h
    cases a with
    | nil =>
      split_ifs at h with hquote hlf
      · simp only [List.nil_append, List.cons.injEq] at h
        exact absurd (hquote.symm.trans h.1) hne
      · simp only [List.nil_append, List.cons.injEq] at h
        exact absurd h.2.symm hb
      · simp only [List.nil_append, List.cons.injEq] at h
        simpa [OddQuotes, h.1] using hlf
    | cons c' a =>
      split_ifs at h with hquote hlf
      · simp only [List.cons_append, List.cons.injEq] at h
        have hodd := ih h.2
        rw [← h.1, hquote]
        simp only [oddQuotes_quote_cons]
        by_cases ha : OddQuotes d a <;> simpa [ha] using hodd
      · simp at h
      · simp only [List.cons_append, List.cons.injEq] at h
        rw [← h.1]
        simpa only [oddQuotes_cons_of_ne hquote] using ih h.2

/-- So is one in a record without its line end. -/
theorem trimRecord_lf {s a b : List α}
    (h : trimRecord d (splitRecord d false s).1 = a ++ d.lf :: b) : OddQuotes d a := by
  obtain ⟨hsplit, hend⟩ := lineEnd_cases (d := d) (splitRecord d false s).1
  rw [h, List.append_assoc, List.cons_append] at hsplit
  have hb : b ++ lineEnd d (splitRecord d false s).1 ≠ [] := by
    intro hnil
    obtain ⟨hb, hline⟩ := List.append_eq_nil_iff.mp hnil
    -- then the line feed is the last character, and has been cut off
    rcases hend with ⟨-, hlf | hcrlf⟩ | ⟨hlast, -⟩
    · simp [hlf] at hline
    · simp [hcrlf] at hline
    · rw [hnil] at hsplit
      exact hlast (by rw [hsplit, List.getLast?_concat])
  simpa using splitRecord_lf hsplit hb

end DelimitedText
