import Mathlib

/-!
# Decimal digit lists

A natural number as the list of its decimal digits, most significant first, and
the value of such a list.

* `value_digitsOf`: reading back the digits of `n` gives `n`.
* `value_padTo`, `length_padTo`: zero padding on the left keeps the value, and
  reaches the width asked for when the number fits in it.
* `padTo_digitsOf_value`: a digit list is the padded digits of its value.
* `lt_of_value_lt`: digit lists of one width are ordered as the numbers they denote.
-/

namespace DecimalDigits

/-- The decimal digits of `n`, most significant first; `0` has one digit. -/
def digitsOf (n : ℕ) : List ℕ := if n = 0 then [0] else (Nat.digits 10 n).reverse

/-- The number a digit list denotes, most significant digit first. -/
def value (l : List ℕ) : ℕ := l.foldl (fun acc d => 10 * acc + d) 0

/-- `l` with zeros in front, up to width `w`. -/
def padTo (w : ℕ) (l : List ℕ) : List ℕ := List.replicate (w - l.length) 0 ++ l

theorem value_append_singleton (l : List ℕ) (d : ℕ) : value (l ++ [d]) = 10 * value l + d := by
  simp [value, List.foldl_append]

theorem value_eq_ofDigits (l : List ℕ) : value l = Nat.ofDigits 10 l.reverse := by
  induction l using List.reverseRecOn with
  | nil => rfl
  | append_singleton l d ih =>
    rw [value_append_singleton, ih, List.reverse_append, List.reverse_singleton,
      List.singleton_append, Nat.ofDigits_cons]
    ring

theorem value_digitsOf (n : ℕ) : value (digitsOf n) = n := by
  unfold digitsOf
  split_ifs with h
  · simp [h, value]
  · rw [value_eq_ofDigits, List.reverse_reverse, Nat.ofDigits_digits]

theorem digitsOf_lt {n d : ℕ} (h : d ∈ digitsOf n) : d < 10 := by
  unfold digitsOf at h
  split_ifs at h with h0
  · simp_all
  · exact Nat.digits_lt_base (by norm_num) (List.mem_reverse.mp h)

theorem digitsOf_ne_nil (n : ℕ) : digitsOf n ≠ [] := by
  unfold digitsOf
  split_ifs with h
  · simp
  · simpa using Nat.digits_ne_nil_iff_ne_zero.mpr h

theorem length_digitsOf_le {n w : ℕ} (hw : 0 < w) (h : n < 10 ^ w) : (digitsOf n).length ≤ w := by
  unfold digitsOf
  split_ifs with h0
  · exact hw
  · rw [List.length_reverse]
    exact (Nat.digits_length_le_iff (by norm_num) n).mpr h

theorem value_replicate_append (k : ℕ) (l : List ℕ) :
    value (List.replicate k 0 ++ l) = value l := by
  induction k with
  | zero => rfl
  | succ k ih =>
    rw [List.replicate_succ, List.cons_append, ← ih]
    simp [value]

theorem value_padTo (w : ℕ) (l : List ℕ) : value (padTo w l) = value l :=
  value_replicate_append _ l

theorem length_padTo {w : ℕ} {l : List ℕ} (h : l.length ≤ w) : (padTo w l).length = w := by
  simp only [padTo, List.length_append, List.length_replicate]
  omega

theorem padTo_lt {w d : ℕ} {l : List ℕ} (hl : ∀ x ∈ l, x < 10) (h : d ∈ padTo w l) : d < 10 := by
  rcases List.mem_append.mp h with h | h
  · have := List.eq_of_mem_replicate h
    omega
  · exact hl d h

theorem value_append (l l' : List ℕ) : value (l ++ l') = value l * 10 ^ l'.length + value l' := by
  rw [value_eq_ofDigits, value_eq_ofDigits, value_eq_ofDigits, List.reverse_append,
    Nat.ofDigits_append, List.length_reverse]
  ring

theorem value_cons (d : ℕ) (l : List ℕ) : value (d :: l) = d * 10 ^ l.length + value l := by
  rw [← List.singleton_append, value_append]
  simp [value]

theorem value_lt {l : List ℕ} (hl : ∀ d ∈ l, d < 10) : value l < 10 ^ l.length := by
  have h := Nat.ofDigits_lt_base_pow_length (b := 10) (l := l.reverse) (by norm_num)
    fun d hd => hl d (List.mem_reverse.mp hd)
  rwa [List.length_reverse, ← value_eq_ofDigits] at h

/-- Digit lists of one width with the same value are the same. -/
theorem value_inj {l l' : List ℕ} (hlen : l.length = l'.length) (hl : ∀ d ∈ l, d < 10)
    (hl' : ∀ d ∈ l', d < 10) (h : value l = value l') : l = l' := by
  rw [value_eq_ofDigits, value_eq_ofDigits] at h
  apply List.reverse_injective
  exact Nat.ofDigits_inj_of_len_eq (by norm_num) (by simpa using hlen)
    (fun d hd => hl d (List.mem_reverse.mp hd)) (fun d hd => hl' d (List.mem_reverse.mp hd)) h

theorem padTo_digitsOf_value {l : List ℕ} (hne : l ≠ []) (hl : ∀ d ∈ l, d < 10) :
    padTo l.length (digitsOf (value l)) = l := by
  have hlen := length_digitsOf_le (List.length_pos_iff.mpr hne) (value_lt hl)
  refine value_inj (length_padTo hlen) (fun d hd => padTo_lt (fun _ => digitsOf_lt) hd) hl ?_
  rw [value_padTo, value_digitsOf]

/-- Digit lists of one width are ordered as the numbers they denote. -/
theorem lt_of_value_lt {l l' : List ℕ} (hlen : l.length = l'.length) (hl : ∀ d ∈ l, d < 10)
    (hl' : ∀ d ∈ l', d < 10) (h : value l < value l') : l < l' := by
  induction l generalizing l' with
  | nil =>
    obtain rfl := List.eq_nil_of_length_eq_zero hlen.symm
    exact absurd h (lt_irrefl _)
  | cons d l ih =>
    obtain ⟨d', l', rfl⟩ := List.exists_cons_of_length_eq_add_one hlen.symm
    obtain ⟨-, hrest⟩ := List.forall_mem_cons.mp hl
    obtain ⟨-, hrest'⟩ := List.forall_mem_cons.mp hl'
    have hlen' : l.length = l'.length := Nat.succ.inj hlen
    have hbound := value_lt hrest'
    rw [value_cons, value_cons, hlen'] at h
    rw [List.cons_lt_cons_iff]
    rcases lt_trichotomy d d' with hlt | rfl | hgt
    · exact .inl hlt
    · exact .inr ⟨rfl, ih hlen' hrest hrest' (by omega)⟩
    · -- a greater first digit outweighs the rest
      have := Nat.mul_le_mul_right (10 ^ l'.length) (Nat.succ_le_of_lt hgt)
      rw [Nat.succ_mul] at this
      omega

end DecimalDigits
