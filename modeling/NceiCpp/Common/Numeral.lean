import NceiCpp.Common.FromChars

/-!
# Numerals

The decimal texts of finite numbers, by their digits.

* `Numeral.numberText`: a numeral as a text that `from_chars` reads.
* `fromCharsDouble_text`: what is read from one.
* `Numeral.mem_text`, `Numeral.text_eq_cons`: the characters of one, and its first.
* `toStringDouble_eq`, `sixDecimals_value_eq_iff`: what `std::to_string` writes, and for which
  numbers it denotes the number.
-/

namespace NceiCpp

open DecimalDigits

/-- The digits in front of the point, and those behind it if there is a point. -/
def mantissaText (whole : List ℕ) (frac : Option (List ℕ)) : Bytes :=
  whole.map digitByte ++ (frac.map fun f => ch '.' :: f.map digitByte).getD []

/-- The letter, a sign or none, and one or more digits. -/
structure Exponent where
  capital : Bool
  sign : Option Bool
  digits : List ℕ
  digits_ne : digits ≠ []
  digits_lt : ∀ d ∈ digits, d < 10

def Exponent.text (e : Exponent) : Bytes :=
  ch (if e.capital then 'E' else 'e') :: signText e.sign ++ e.digits.map digitByte

def Exponent.value (e : Exponent) : ℤ :=
  if e.sign = some true then -(DecimalDigits.value e.digits : ℤ) else DecimalDigits.value e.digits

/-- A minus sign or none, digits with a point or none, at least one on either side of it, and
    an exponent or none. -/
structure Numeral where
  negative : Bool
  whole : List ℕ
  frac : Option (List ℕ)
  exponent : Option Exponent
  digits_ne : whole ++ frac.getD [] ≠ []
  digits_lt : ∀ d ∈ whole ++ frac.getD [], d < 10

namespace Numeral

variable (n : Numeral)

def exponentText : Bytes := (n.exponent.map Exponent.text).getD []

/-- What stands behind the sign. -/
def unsignedText : Bytes := mantissaText n.whole n.frac ++ n.exponentText

def text : Bytes := (if n.negative then [ch '-'] else []) ++ n.unsignedText

/-- The number without its sign. -/
def magnitude : ℚ :=
  DecimalDigits.value (n.whole ++ n.frac.getD []) / 10 ^ (n.frac.getD []).length *
    10 ^ (n.exponent.map Exponent.value).getD 0

def value : ℚ := if n.negative then -n.magnitude else n.magnitude

end Numeral

/-! ## Reading them -/

/-- The same exponent by its characters. -/
def Exponent.exponentText (e : Exponent) : ExponentText (ch 'e') where
  letter := ch (if e.capital then 'E' else 'e')
  sign := e.sign
  digits := e.digits.map digitByte
  letter_eq := by cases e.capital <;> decide
  digits_ne := by simpa using e.digits_ne
  digits_digit := isDigit_of_mem_map e.digits_lt

theorem Exponent.exponentText_value (e : Exponent) : e.exponentText.value = e.value := by
  rw [ExponentText.value, Exponent.value]
  dsimp only [exponentText]
  rw [map_digitVal_digitByte e.digits_lt]
  rfl

namespace Numeral

variable (n : Numeral)

theorem digits_eq : n.whole.map digitByte ++ (n.frac.map (List.map digitByte)).getD [] =
    (n.whole ++ n.frac.getD []).map digitByte := by
  cases n.frac <;> simp

/-- The same number without its sign, by its characters. -/
def numberText : NumberText .decimal where
  whole := n.whole.map digitByte
  frac := n.frac.map (List.map digitByte)
  exponent := n.exponent.map Exponent.exponentText
  digits_ne := by
    rw [digits_eq]
    simpa using n.digits_ne
  digits_digit := by
    rw [digits_eq]
    exact isDigit_of_mem_map n.digits_lt

theorem numberText_text : n.numberText.text = n.unsignedText := by
  have hfrac : pointText (n.frac.map (List.map digitByte)) =
      (n.frac.map fun f => ch '.' :: f.map digitByte).getD [] := by
    cases n.frac <;> rfl
  have hexp : ((n.exponent.map Exponent.exponentText).map ExponentText.text).getD [] =
      n.exponentText := by
    rw [exponentText, Option.map_map]
    rfl
  rw [unsignedText, mantissaText, ← hfrac, ← hexp]
  rfl

theorem numberText_value : n.numberText.value = n.magnitude := by
  have hexp : ((n.exponent.map Exponent.exponentText).map ExponentText.value).getD 0 =
      (n.exponent.map Exponent.value).getD 0 := by
    rw [Option.map_map, show ExponentText.value ∘ Exponent.exponentText = Exponent.value from
      funext Exponent.exponentText_value]
  have hlen : ((n.frac.map (List.map digitByte)).getD []).length = (n.frac.getD []).length := by
    cases n.frac <;> simp
  have hdigits : Nat.ofDigits 10 ((n.whole.map digitByte ++
      (n.frac.map (List.map digitByte)).getD []).map digitVal).reverse =
        DecimalDigits.value (n.whole ++ n.frac.getD []) := by
    rw [digits_eq, map_digitVal_digitByte n.digits_lt, value_eq_ofDigits]
  show ((Nat.ofDigits 10 _ : ℕ) : ℚ) / 10 ^ _ * 10 ^ _ = _
  rw [magnitude, ← hexp, ← hlen, ← hdigits]
  rfl

end Numeral

/-- The text of a number in the range of the type is read to its end. -/
theorem fromCharsDouble_text (n : Numeral) :
    fromCharsDouble n.text = if InRange n.value then some (.finite n.value, []) else none := by
  have hread := n.numberText.fromCharsUnsigned_text
  rw [n.numberText_text, n.numberText_value] at hread
  unfold fromCharsDouble Numeral.text Numeral.value
  cases n.negative with
  | true =>
    simp only [if_true, List.singleton_append, List.head?_cons, List.tail_cons, hread, inRange_neg]
    split_ifs <;> rfl
  | false =>
    obtain ⟨c, s, htext, hc⟩ := n.numberText.text_eq_cons
    have hminus : n.unsignedText.head? ≠ some (ch '-') := by
      rw [← n.numberText_text, htext]
      rintro ⟨⟩
      exact (@ne_sign (ch '-') hc).2 rfl
    simp only [Bool.false_eq_true, if_false, List.nil_append, hminus, hread]

/-- A text denotes one number. -/
theorem Numeral.value_eq_of_text {n m : Numeral} (h : n.text = m.text) (hm : InRange m.value) :
    n.value = m.value := by
  have hn := fromCharsDouble_text n
  rw [h, fromCharsDouble_text, if_pos hm] at hn
  split_ifs at hn
  injection hn with hn
  injection hn with hn
  injection hn with hn
  exact hn.symm

/-! ## Their characters -/

/-- The least character is the plus sign. -/
theorem Numeral.mem_text (n : Numeral) {c : Byte} (hc : c ∈ n.text) : 43 ≤ c.toNat := by
  rw [text, ← n.numberText_text] at hc
  rcases List.mem_append.mp hc with hc | hc
  · split_ifs at hc
    · rw [List.mem_singleton.mp hc]
      decide
    · cases hc
  · exact n.numberText.mem_text (fun c hc => le_of_isDigit hc) (by decide) hc

/-- The first character is a minus sign, a digit or a point. -/
theorem Numeral.text_eq_cons (n : Numeral) :
    ∃ c s, n.text = c :: s ∧
      (n.negative = true ∧ c = ch '-' ∨ n.negative = false ∧ (isDigit c = true ∨ c = ch '.')) := by
  cases hneg : n.negative with
  | true => exact ⟨ch '-', n.unsignedText, by simp [text, hneg], .inl ⟨rfl, rfl⟩⟩
  | false =>
    obtain ⟨c, s, htext, hc⟩ := n.numberText.text_eq_cons
    rw [n.numberText_text] at htext
    exact ⟨c, s, by simp [text, hneg, htext], .inr ⟨rfl, hc⟩⟩

/-- A numeral starts with no plus sign, and with a minus sign only if it is negative. -/
theorem Numeral.head_text {n : Numeral} {c : Byte} {s : Bytes} (htext : n.text = c :: s) :
    c ≠ ch '+' ∧ (n.negative = false → c ≠ ch '-') := by
  obtain ⟨c', s', htext', hc⟩ := n.text_eq_cons
  obtain ⟨rfl, -⟩ := List.cons.inj (htext.symm.trans htext')
  rcases hc with ⟨hneg, rfl⟩ | ⟨-, hc⟩
  · exact ⟨by decide, fun h => by simp [hneg] at h⟩
  · exact ⟨(ne_sign hc).1, fun _ => (ne_sign hc).2⟩

/-! ## What `to_string` writes -/

/-- `v` in millionths, without its sign. -/
def millionths (v : ℚ) : ℕ := (roundHalfEven (|v| * 10 ^ 6)).toNat

/-- `v` with six digits behind the point. -/
def sixDecimals (v : ℚ) : Numeral where
  negative := v < 0
  whole := digitsOf (millionths v / 10 ^ 6)
  frac := some (padTo 6 (digitsOf (millionths v % 10 ^ 6)))
  exponent := none
  digits_ne := by simp [digitsOf_ne_nil]
  digits_lt := by
    intro d hd
    rcases List.mem_append.mp hd with hd | hd
    · exact digitsOf_lt hd
    · exact padTo_lt (fun _ => digitsOf_lt) hd

theorem toStringDouble_eq (v : ℚ) : toStringDouble v = (sixDecimals v).text := by
  simp [toStringDouble, Numeral.text, Numeral.unsignedText, Numeral.exponentText, mantissaText,
    sixDecimals, millionths, formatNat]

theorem sixDecimals_magnitude (v : ℚ) : (sixDecimals v).magnitude = millionths v / 10 ^ 6 := by
  have hlen : (padTo 6 (digitsOf (millionths v % 10 ^ 6))).length = 6 :=
    length_padTo (length_digitsOf_le (by omega) (Nat.mod_lt _ (by norm_num)))
  have hvalue : value (digitsOf (millionths v / 10 ^ 6) ++
      padTo 6 (digitsOf (millionths v % 10 ^ 6))) = millionths v := by
    rw [value_append, hlen, value_padTo, value_digitsOf, value_digitsOf, mul_comm]
    exact Nat.div_add_mod _ _
  show (value (digitsOf (millionths v / 10 ^ 6) ++
      padTo 6 (digitsOf (millionths v % 10 ^ 6))) : ℚ) /
    10 ^ (padTo 6 (digitsOf (millionths v % 10 ^ 6))).length * 10 ^ (0 : ℤ) = _
  rw [hlen, hvalue, zpow_zero, mul_one]

theorem roundHalfEven_eq_iff (v : ℚ) : (roundHalfEven v : ℚ) = v ↔ v.den = 1 := by
  constructor
  · intro h
    rw [← h]
    rfl
  · intro h
    have hint : (v.num : ℚ) = v := Rat.coe_int_num_of_den_eq_one h
    have hfloor : (⌊v⌋ : ℚ) = v := by rw [← hint, Int.floor_intCast]
    rw [roundHalfEven, if_pos (by rw [hfloor]; norm_num), hfloor]

/-- Six digits are enough exactly for the multiples of a millionth. -/
theorem sixDecimals_value_eq_iff (v : ℚ) : (sixDecimals v).value = v ↔ (v * 10 ^ 6).den = 1 := by
  have hround : 0 ≤ roundHalfEven (|v| * 10 ^ 6) := by
    have hfloor : 0 ≤ ⌊|v| * 10 ^ 6⌋ := Int.floor_nonneg.mpr (by positivity)
    unfold roundHalfEven
    split_ifs <;> omega
  have hmillionths : (millionths v : ℚ) = roundHalfEven (|v| * 10 ^ 6) := by
    exact_mod_cast congrArg (Int.cast (R := ℚ)) (Int.toNat_of_nonneg hround)
  have habs : (sixDecimals v).magnitude = |v| ↔ (v * 10 ^ 6).den = 1 := by
    rw [sixDecimals_magnitude, div_eq_iff (by norm_num), hmillionths, roundHalfEven_eq_iff]
    rcases abs_choice v with h | h
    · rw [h]
    · rw [h, neg_mul, Rat.neg_den]
  rw [← habs, Numeral.value]
  by_cases hneg : v < 0
  · rw [if_pos (by simpa [sixDecimals] using hneg), abs_of_neg hneg, neg_eq_iff_eq_neg]
  · rw [if_neg (by simpa [sixDecimals] using hneg), abs_of_nonneg (not_lt.mp hneg)]

end NceiCpp
