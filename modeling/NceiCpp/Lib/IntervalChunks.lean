import Mathlib

/-!
# Cutting an integer interval into consecutive chunks

`Chunked k lo hi l` says that `l` cuts the interval `[lo, hi]` into consecutive
intervals of `k + 1` integers each, the last one possibly shorter. `Chunked.chain`,
`Chunked.width` and `Chunked.length_eq` say where they begin, how wide they are and how many
there are.

For records with an integer key:
* `Chunked.flatMap_perm`: the records of the chunks are those of the interval.
* `Chunked.flatMap_eq`: they come in the same order when the records are ordered by
  key.
-/

namespace IntervalChunks

/-- `l` cuts `[lo, hi]` into consecutive intervals of `k + 1` integers, the last one of
    at most `k + 1`. -/
inductive Chunked (k : ℤ) : ℤ → ℤ → List (ℤ × ℤ) → Prop
  | last {lo hi : ℤ} : lo ≤ hi → hi - lo ≤ k → Chunked k lo hi [(lo, hi)]
  | cons {lo hi : ℤ} {l : List (ℤ × ℤ)} : Chunked k (lo + k + 1) hi l →
      Chunked k lo hi ((lo, lo + k) :: l)

variable {α : Type*} (key : α → ℤ)

/-- The records with key in `[lo, hi]`, in the order of `R`. -/
def within (R : List α) (lo hi : ℤ) : List α := R.filter fun r => lo ≤ key r ∧ key r ≤ hi

theorem mem_within {R : List α} {lo hi : ℤ} {r : α} :
    r ∈ within key R lo hi ↔ r ∈ R ∧ lo ≤ key r ∧ key r ≤ hi := by
  simp [within]

theorem Chunked.lo_le_hi {k lo hi : ℤ} {l : List (ℤ × ℤ)} (hk : 0 ≤ k) (h : Chunked k lo hi l) :
    lo ≤ hi := by
  induction h with
  | last h1 h2 => exact h1
  | cons _ ih => omega

theorem Chunked.mem_bounds {k lo hi : ℤ} {l : List (ℤ × ℤ)} (hk : 0 ≤ k)
    (h : Chunked k lo hi l) : ∀ c ∈ l, lo ≤ c.1 ∧ c.1 ≤ c.2 ∧ c.2 ≤ hi := by
  induction h with
  | last h1 h2 => exact List.forall_mem_singleton.mpr ⟨le_rfl, h1, le_rfl⟩
  | cons h ih =>
    have := h.lo_le_hi hk
    refine List.forall_mem_cons.mpr ⟨⟨le_rfl, by omega, by omega⟩, fun c hc => ?_⟩
    have := ih c hc
    omega

/-- The chunks follow each other. -/
theorem Chunked.pairwise {k lo hi : ℤ} {l : List (ℤ × ℤ)} (hk : 0 ≤ k)
    (h : Chunked k lo hi l) : l.Pairwise fun a b => a.2 < b.1 := by
  induction h with
  | last _ _ => exact List.pairwise_singleton _ _
  | cons h ih =>
    refine List.pairwise_cons.mpr ⟨fun c hc => ?_, ih⟩
    have := h.mem_bounds hk c hc
    omega

theorem Chunked.ne_nil {k lo hi : ℤ} {l : List (ℤ × ℤ)} (h : Chunked k lo hi l) : l ≠ [] := by
  cases h <;> exact List.cons_ne_nil _ _

theorem Chunked.head {k lo hi : ℤ} {l : List (ℤ × ℤ)} (h : Chunked k lo hi l) :
    (l.head h.ne_nil).1 = lo := by
  cases h <;> rfl

theorem Chunked.getLast {k lo hi : ℤ} {l : List (ℤ × ℤ)} (h : Chunked k lo hi l) :
    (l.getLast h.ne_nil).2 = hi := by
  induction h with
  | last _ _ => rfl
  | cons h ih =>
    rw [List.getLast_cons h.ne_nil]
    exact ih

/-- Each chunk begins behind the one before. -/
theorem Chunked.chain {k lo hi : ℤ} {l : List (ℤ × ℤ)} (h : Chunked k lo hi l) :
    l.IsChain fun a b => b.1 = a.2 + 1 := by
  induction h with
  | last _ _ => exact List.isChain_singleton _
  | @cons lo hi l h ih =>
    obtain ⟨c, l, rfl⟩ := List.exists_cons_of_ne_nil h.ne_nil
    exact List.isChain_cons_cons.mpr ⟨h.head, ih⟩

/-- All chunks but the last one have the full width, and none is wider. -/
theorem Chunked.width {k lo hi : ℤ} {l : List (ℤ × ℤ)} (hk : 0 ≤ k) (h : Chunked k lo hi l) :
    (∀ c ∈ l.dropLast, c.2 - c.1 = k) ∧ ∀ c ∈ l, 0 ≤ c.2 - c.1 ∧ c.2 - c.1 ≤ k := by
  induction h with
  | @last lo hi h1 h2 =>
    refine ⟨by simp, List.forall_mem_singleton.mpr ⟨?_, h2⟩⟩
    simp only
    omega
  | @cons lo hi l h ih =>
    rw [List.dropLast_cons_of_ne_nil h.ne_nil, List.forall_mem_cons, List.forall_mem_cons]
    simp only [add_sub_cancel_left]
    exact ⟨⟨trivial, ih.1⟩, ⟨hk, le_rfl⟩, ih.2⟩

theorem Chunked.length_eq {k lo hi : ℤ} {l : List (ℤ × ℤ)} (hk : 0 ≤ k)
    (h : Chunked k lo hi l) : (l.length : ℤ) = (hi - lo) / (k + 1) + 1 := by
  induction h with
  | @last lo hi h1 h2 =>
    rw [Int.ediv_eq_zero_of_lt (by omega) (by omega)]
    rfl
  | @cons lo hi l h ih =>
    have hsub : hi - lo = hi - (lo + k + 1) + 1 * (k + 1) := by ring
    rw [hsub, Int.add_mul_ediv_right _ _ (by omega), List.length_cons, Nat.cast_add_one, ih]

/-- The part of an interval up to `c` and the part from `c + 1` on. -/
theorem within_split (R : List α) {lo c hi : ℤ} (h0 : lo ≤ c + 1) (h1 : c ≤ hi) :
    within key R lo c = (within key R lo hi).filter (fun r => key r ≤ c) ∧
      within key R (c + 1) hi = (within key R lo hi).filter (fun r => ¬ key r ≤ c) := by
  constructor <;>
  · simp only [within, List.filter_filter]
    apply List.filter_congr
    intro r _
    rw [Bool.eq_iff_iff]
    simp only [Bool.and_eq_true, decide_eq_true_eq]
    omega

/-- The records of the chunks, in chunk order, are the records of the interval. -/
theorem Chunked.flatMap_perm {k lo hi : ℤ} {l : List (ℤ × ℤ)} (hk : 0 ≤ k)
    (h : Chunked k lo hi l) (R : List α) :
    (l.flatMap fun c => within key R c.1 c.2).Perm (within key R lo hi) := by
  induction h with
  | last _ _ => simp
  | @cons lo hi l h ih =>
    have hle := h.lo_le_hi hk
    obtain ⟨e1, e2⟩ := within_split key R (show lo ≤ lo + k + 1 by omega)
      (show lo + k ≤ hi by omega)
    rw [List.flatMap_cons]
    refine (List.Perm.append_left _ ih).trans ?_
    rw [e1, e2]
    simpa only [decide_not] using
      List.filter_append_perm (fun r => decide (key r ≤ lo + k)) (within key R lo hi)

/-- A list ordered by key splits at any key value. -/
theorem filter_append_filter_of_sorted {R : List α} (hs : R.Pairwise fun a b => key a ≤ key b)
    (c : ℤ) : R.filter (fun r => key r ≤ c) ++ R.filter (fun r => ¬ key r ≤ c) = R := by
  induction R with
  | nil => rfl
  | cons r R ih =>
    obtain ⟨hr, hs⟩ := List.pairwise_cons.mp hs
    by_cases h : key r ≤ c
    · simp only [List.filter_cons, h, decide_true, if_true, not_true, decide_false,
        Bool.false_eq_true, if_false, List.cons_append]
      rw [ih hs]
    · have hnone : R.filter (fun r => key r ≤ c) = [] := by
        rw [List.filter_eq_nil_iff]
        intro x hx
        have := hr x hx
        simp only [decide_eq_true_eq]
        omega
      have hall : R.filter (fun r => ¬ key r ≤ c) = R := by
        have := ih hs
        rwa [hnone, List.nil_append] at this
      simp only [List.filter_cons, h, decide_false, Bool.false_eq_true, if_false, not_false_iff,
        decide_true, if_true, hnone, List.nil_append, hall]

/-- On records ordered by key the chunks restore the order. -/
theorem Chunked.flatMap_eq {k lo hi : ℤ} {l : List (ℤ × ℤ)} (hk : 0 ≤ k)
    (h : Chunked k lo hi l) {R : List α} (hs : R.Pairwise fun a b => key a ≤ key b) :
    (l.flatMap fun c => within key R c.1 c.2) = within key R lo hi := by
  induction h with
  | last _ _ => simp
  | @cons lo hi l h ih =>
    have hle := h.lo_le_hi hk
    obtain ⟨e1, e2⟩ := within_split key R (show lo ≤ lo + k + 1 by omega)
      (show lo + k ≤ hi by omega)
    rw [List.flatMap_cons, ih]
    simp only
    rw [e1, e2]
    exact filter_append_filter_of_sorted key (List.Pairwise.filter _ hs) _

end IntervalChunks
