import NceiCpp.Lib.DecimalDigits

/-!
# Byte strings and number texts

* A C++ `std::string` or `std::string_view` is `Bytes := List Byte`; a `char` is a
  `Byte`, an 8-bit value.
* `formatInt` is `std::format("{}", n)` on an integer, `formatPadded` the same with
  a zero-padded width, and `fromChars` is `std::from_chars` on `std::int32_t`.

* `fromChars_formatInt`, `fromChars_formatPadded`: reading back a formatted number.
* `fromChars_pos`, `fromChars_text`: what `fromChars` reads a positive number from.
* `formatPadded_text`: formatting gives back the digits that were read.
-/

namespace NceiCpp

open DecimalDigits

abbrev Byte := UInt8

abbrev Bytes := List Byte

instance : LawfulBEq Bytes := inferInstance

/-- The byte of an ASCII character literal. -/
def ch (c : Char) : Byte := UInt8.ofNat c.toNat

/-- The bytes of an ASCII string literal. -/
def bytes (s : String) : Bytes := s.toList.map ch

/-- `std::numeric_limits<std::int32_t>::max()`. -/
def int32Max : ℤ := 2 ^ 31 - 1

/-- `std::numeric_limits<std::int32_t>::min()`. -/
def int32Min : ℤ := -2 ^ 31

/-- `static_cast<std::int32_t>` of a wider integer: reduction modulo `2 ^ 32`. -/
def toInt32 (n : ℤ) : ℤ := Int.bmod n (2 ^ 32)

theorem toInt32_of_range {n : ℤ} (h0 : int32Min ≤ n) (h1 : n ≤ int32Max) : toInt32 n = n := by
  unfold toInt32 int32Min int32Max at *
  rw [Int.bmod_eq_of_le] <;> omega

/-! ## Decimal text -/

/-- The character of a decimal digit. -/
def digitByte (d : ℕ) : Byte := UInt8.ofNat (48 + d)

def isDigit (c : Byte) : Bool := 48 ≤ c.toNat ∧ c.toNat ≤ 57

/-- The value of a decimal digit character. -/
def digitVal (c : Byte) : ℕ := c.toNat - 48

theorem toNat_digitByte {d : ℕ} (h : d < 10) : (digitByte d).toNat = 48 + d := by
  simp only [digitByte, UInt8.toNat_ofNat']
  omega

theorem isDigit_digitByte {d : ℕ} (h : d < 10) : isDigit (digitByte d) = true := by
  simp only [isDigit, toNat_digitByte h, decide_eq_true_eq]
  omega

theorem digitVal_digitByte {d : ℕ} (h : d < 10) : digitVal (digitByte d) = d := by
  simp only [digitVal, toNat_digitByte h]
  omega

theorem digitVal_lt {c : Byte} (h : isDigit c = true) : digitVal c < 10 := by
  simp only [isDigit, decide_eq_true_eq] at h
  unfold digitVal
  omega

theorem digitByte_digitVal {c : Byte} (h : isDigit c = true) : digitByte (digitVal c) = c := by
  have hlt := digitVal_lt h
  simp only [isDigit, decide_eq_true_eq] at h
  apply UInt8.toNat_inj.mp
  rw [toNat_digitByte hlt, digitVal]
  omega

theorem digitByte_lt {d d' : ℕ} (h : d < d') (h' : d' < 10) : digitByte d < digitByte d' := by
  rw [UInt8.lt_iff_toNat_lt, toNat_digitByte (h.trans h'), toNat_digitByte h']
  omega

theorem map_digitByte_lt {l l' : List ℕ} (hl' : ∀ d ∈ l', d < 10) (h : l < l') :
    l.map digitByte < l'.map digitByte := by
  induction l generalizing l' with
  | nil =>
    cases l' with
    | nil => exact absurd h (lt_irrefl _)
    | cons d' l' => exact List.nil_lt_cons _ _
  | cons d l ih =>
    cases l' with
    | nil => exact absurd h (List.not_lt_nil _)
    | cons d' l' =>
      obtain ⟨hd', hrest⟩ := List.forall_mem_cons.mp hl'
      rw [List.map_cons, List.map_cons, List.cons_lt_cons_iff]
      rcases List.cons_lt_cons_iff.mp h with hlt | ⟨rfl, hlt⟩
      · exact .inl (digitByte_lt hlt hd')
      · exact .inr ⟨rfl, ih hrest hlt⟩

theorem digitVal_lt_of_mem {t : Bytes} (ht : ∀ c ∈ t, isDigit c = true) :
    ∀ d ∈ t.map digitVal, d < 10 := by
  intro d hd
  obtain ⟨c, hc, rfl⟩ := List.mem_map.mp hd
  exact digitVal_lt (ht c hc)

theorem map_digitByte_digitVal {t : Bytes} (ht : ∀ c ∈ t, isDigit c = true) :
    (t.map digitVal).map digitByte = t := by
  rw [List.map_map]
  conv_rhs => rw [← List.map_id t]
  exact List.map_congr_left fun c hc => digitByte_digitVal (ht c hc)

theorem map_digitVal_digitByte {l : List ℕ} (h : ∀ d ∈ l, d < 10) :
    (l.map digitByte).map digitVal = l := by
  rw [List.map_map]
  conv_rhs => rw [← List.map_id l]
  exact List.map_congr_left fun d hd => digitVal_digitByte (h d hd)

theorem isDigit_of_mem_map {l : List ℕ} (h : ∀ d ∈ l, d < 10) :
    ∀ c ∈ l.map digitByte, isDigit c = true := by
  intro c hc
  obtain ⟨d, hd, rfl⟩ := List.mem_map.mp hc
  exact isDigit_digitByte (h d hd)

/-- `std::format("{}", n)` for an unsigned `n`. -/
def formatNat (n : ℕ) : Bytes := (digitsOf n).map digitByte

/-- `std::format("{}", n)` for a signed `n`. -/
def formatInt (n : ℤ) : Bytes := if n < 0 then ch '-' :: formatNat n.natAbs else formatNat n.natAbs

/-- `std::format("{:0w}", n)`: the sign counts towards the width. -/
def formatPadded (w : ℕ) (n : ℤ) : Bytes :=
  if n < 0 then ch '-' :: (padTo (w - 1) (digitsOf n.natAbs)).map digitByte
  else (padTo w (digitsOf n.natAbs)).map digitByte

theorem length_formatPadded {w : ℕ} {n : ℤ} (hw : 0 < w) (h0 : 0 ≤ n) (h1 : n < 10 ^ w) :
    (formatPadded w n).length = w := by
  have hlt : n.natAbs < 10 ^ w := by
    zify
    rwa [abs_of_nonneg h0]
  rw [formatPadded, if_neg (by omega), List.length_map,
    length_padTo (length_digitsOf_le hw hlt)]

/-- `std::from_chars` on `std::int32_t`: an optional minus sign and the longest run of
    digits, with what follows them. There is no value when there is no digit or the
    number does not fit (`ec != std::errc{}`). -/
def fromChars (s : Bytes) : Option (ℤ × Bytes) :=
  let negative := s.head? = some (ch '-')
  let t := if negative then s.tail else s
  let ds := t.takeWhile isDigit
  if ds = [] then none
  else
    let v : ℤ := value (ds.map digitVal)
    let n := if negative then -v else v
    if int32Min ≤ n ∧ n ≤ int32Max then some (n, t.dropWhile isDigit) else none

/-- `fromChars` on digits, behind a minus sign or not. -/
theorem fromChars_digits (negative : Bool) {l : List ℕ} (hne : l ≠ []) (hl : ∀ d ∈ l, d < 10)
    {n : ℤ} (hn : n = if negative then -(value l : ℤ) else value l) (h0 : int32Min ≤ n)
    (h1 : n ≤ int32Max) :
    fromChars ((if negative then [ch '-'] else []) ++ l.map digitByte) = some (n, []) := by
  have hall := isDigit_of_mem_map hl
  have hsign : (l.map digitByte).head? ≠ some (ch '-') := by
    intro h
    have := hall _ (List.mem_of_head? h)
    revert this
    decide
  have hdigits : ∀ t, t = l.map digitByte →
      t.takeWhile isDigit = t ∧ t.dropWhile isDigit = [] ∧ t ≠ [] ∧ t.map digitVal = l := by
    rintro t rfl
    exact ⟨List.takeWhile_eq_self_iff.mpr hall, List.dropWhile_eq_nil_iff.mpr hall,
      by simpa using hne, map_digitVal_digitByte hl⟩
  obtain ⟨h2, h3, h4, h5⟩ := hdigits _ rfl
  cases negative with
  | true =>
    simp only [if_true] at hn ⊢
    simp only [fromChars, List.singleton_append, List.head?_cons, if_true, List.tail_cons,
      h2, h3, h4, h5, if_false, ← hn, h0, h1, and_self]
  | false =>
    simp only [Bool.false_eq_true, if_false] at hn ⊢
    simp only [fromChars, List.nil_append, hsign, if_false, h2, h3, h4, h5, ← hn, h0, h1,
      and_self, if_true]

theorem fromChars_formatPadded {w : ℕ} {n : ℤ} (hw : 0 < w) (h0 : 0 ≤ n) (h1 : n < 10 ^ w)
    (hmax : n ≤ int32Max) : fromChars (formatPadded w n) = some (n, []) := by
  have hlen := length_formatPadded hw h0 h1
  rw [formatPadded, if_neg (by omega)] at hlen ⊢
  refine fromChars_digits false ?_ (fun d hd => padTo_lt (fun _ => digitsOf_lt) hd) ?_
    (by unfold int32Min; omega) hmax
  · intro h
    rw [h] at hlen
    simp at hlen
    omega
  · rw [value_padTo, value_digitsOf]
    simp [Int.natAbs_of_nonneg h0]

/-- `std::from_chars` reads back what `std::format("{}", n)` wrote. -/
theorem fromChars_formatInt {n : ℤ} (h0 : int32Min ≤ n) (h1 : n ≤ int32Max) :
    fromChars (formatInt n) = some (n, []) := by
  have h := fromChars_digits (decide (n < 0)) (n := n) (digitsOf_ne_nil n.natAbs)
    (fun d hd => digitsOf_lt hd) ?_ h0 h1
  · unfold formatInt
    split_ifs with hneg <;> simpa [hneg, formatNat] using h
  · rw [value_digitsOf]
    by_cases hneg : n < 0
    · simp only [hneg, decide_true, if_true]
      omega
    · simp only [hneg, decide_false, Bool.false_eq_true, if_false]
      omega

/-- The numbers of the requests are `std::int32_t`. -/
theorem fromChars_formatInt_int32 (n : Int32) :
    fromChars (formatInt n.toInt) = some (n.toInt, []) := by
  have h0 := n.le_toInt
  have h1 := n.toInt_lt
  exact fromChars_formatInt (by unfold int32Min; omega) (by unfold int32Max; omega)

/-- A positive number is read from digits only. -/
theorem fromChars_pos {t : Bytes} {n : ℤ} (h : fromChars t = some (n, [])) (hn : 0 < n) :
    t ≠ [] ∧ (∀ c ∈ t, isDigit c = true) ∧ n = value (t.map digitVal) := by
  unfold fromChars at h
  dsimp only at h
  split_ifs at h with hsign hnone hrange hnone hrange
  · -- a number behind a minus sign is not positive
    obtain ⟨hvalue, -⟩ := Prod.mk.inj (Option.some.inj h)
    omega
  · obtain ⟨hvalue, hrest⟩ := Prod.mk.inj (Option.some.inj h)
    have hall := List.dropWhile_eq_nil_iff.mp hrest
    rw [List.takeWhile_eq_self_iff.mpr hall] at hvalue hnone
    exact ⟨hnone, hall, hvalue.symm⟩

theorem fromChars_text {t : Bytes} (hne : t ≠ []) (ht : ∀ c ∈ t, isDigit c = true)
    (hmax : (value (t.map digitVal) : ℤ) ≤ int32Max) :
    fromChars t = some ((value (t.map digitVal) : ℤ), []) := by
  have hmin : int32Min ≤ (value (t.map digitVal) : ℤ) := by
    unfold int32Min
    omega
  have h := fromChars_digits false (l := t.map digitVal) (n := value (t.map digitVal))
    (by simpa using hne) (digitVal_lt_of_mem ht) rfl hmin hmax
  rwa [map_digitByte_digitVal ht] at h

/-- Formatting with the width of a text of digits gives back the text. -/
theorem formatPadded_text {t : Bytes} (hne : t ≠ []) (ht : ∀ c ∈ t, isDigit c = true) :
    formatPadded t.length (value (t.map digitVal)) = t := by
  have h := padTo_digitsOf_value (l := t.map digitVal) (by simpa using hne) (digitVal_lt_of_mem ht)
  rw [List.length_map] at h
  rw [formatPadded, if_neg (by omega), Int.natAbs_natCast, h, map_digitByte_digitVal ht]

/-- Padded numbers of one width are ordered as the numbers. -/
theorem formatPadded_lt {w : ℕ} {m n : ℤ} (hw : 0 < w) (h0 : 0 ≤ m) (hmn : m < n)
    (h1 : n < 10 ^ w) : formatPadded w m < formatPadded w n := by
  have hbound : ∀ k : ℤ, 0 ≤ k → k < 10 ^ w → k.natAbs < 10 ^ w := by
    intro k hk hlt
    zify
    rwa [abs_of_nonneg hk]
  have hlen : ∀ k : ℤ, 0 ≤ k → k < 10 ^ w → (padTo w (digitsOf k.natAbs)).length = w :=
    fun k hk hlt => length_padTo (length_digitsOf_le hw (hbound k hk hlt))
  have hdigits : ∀ k : ℤ, ∀ d ∈ padTo w (digitsOf k.natAbs), d < 10 :=
    fun k d hd => padTo_lt (fun _ => digitsOf_lt) hd
  have hlt : padTo w (digitsOf m.natAbs) < padTo w (digitsOf n.natAbs) := by
    refine lt_of_value_lt ?_ (hdigits m) (hdigits n) ?_
    · rw [hlen m h0 (hmn.trans h1), hlen n (by omega) h1]
    · rw [value_padTo, value_padTo, value_digitsOf, value_digitsOf]
      omega
  rw [formatPadded, formatPadded, if_neg (by omega), if_neg (by omega)]
  exact map_digitByte_lt (hdigits n) hlt

end NceiCpp
