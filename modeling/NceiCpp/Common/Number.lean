import NceiCpp.Common.Bytes
import NceiCpp.Lib.LongestMatch

/-!
# Decimal numbers as text

A `double` is `Double`, with exact values: rounding is not modelled, so a decimal text in the
range of the type denotes one number however it is read.

* `stod` is `std::stod`: `std::strtod` in the C locale, without a position.
* `toStringDouble` is `std::to_string` of a finite `double`.
* `readMantissa_append`: what is read from digits and a point.
-/

namespace NceiCpp

open DecimalDigits LongestMatch

inductive Double
  | finite (v : ℚ)
  | infinity (negative : Bool)
  | nan
  deriving DecidableEq

instance : Zero Double := ⟨.finite 0⟩

def Double.neg : Double → Double
  | finite v => finite (-v)
  | infinity negative => infinity (!negative)
  | nan => nan

/-! ## `strtod` -/

/-- `std::isspace` in the C locale. -/
def isSpace (c : Byte) : Bool := c.toNat = 32 ∨ (9 ≤ c.toNat ∧ c.toNat ≤ 13)

def toLower (c : Byte) : Byte := if 65 ≤ c.toNat ∧ c.toNat ≤ 90 then c + 32 else c

def isHexDigit (c : Byte) : Bool :=
  isDigit c ∨ (97 ≤ (toLower c).toNat ∧ (toLower c).toNat ≤ 102)

def hexDigitVal (c : Byte) : ℕ := if isDigit c then digitVal c else (toLower c).toNat - 87

/-- `s` starts with the word `w`, in letters of any case. -/
def startsWithWord (w : Bytes) (s : Bytes) : Bool := w.isPrefixOf (s.map toLower)

/-- A sequence of digits with an optional point, and what follows it. -/
def readMantissa (base : ℕ) (isDigit : Byte → Bool) (digitVal : Byte → ℕ) (s : Bytes) :
    Option (ℚ × Bytes) :=
  let whole := s.takeWhile isDigit
  let point := (s.dropWhile isDigit).head? = some (ch '.')
  let afterPoint := (s.dropWhile isDigit).tail
  let frac := if point then afterPoint.takeWhile isDigit else []
  let rest := if point then afterPoint.dropWhile isDigit else s.dropWhile isDigit
  if whole = [] ∧ frac = [] then none
  else
    let n : ℕ := Nat.ofDigits base ((whole ++ frac).map digitVal).reverse
    some (n / base ^ frac.length, rest)

/-- An exponent behind the letter `mark`; `0` if there is none. -/
def readExponent (mark : Byte) (s : Bytes) : ℤ :=
  let negative := s.tail.head? = some (ch '-')
  let positive := s.tail.head? = some (ch '+')
  let digits := (if negative ∨ positive then s.tail.tail else s.tail).takeWhile isDigit
  if s.head?.map toLower = some mark ∧ digits ≠ [] then
    if negative then -(value (digits.map digitVal) : ℤ) else value (digits.map digitVal)
  else 0

/-- What follows the exponent that `readExponent` reads. -/
def afterExponent (mark : Byte) (s : Bytes) : Bytes :=
  let t := if s.tail.head? = some (ch '-') ∨ s.tail.head? = some (ch '+') then s.tail.tail
    else s.tail
  if s.head?.map toLower = some mark ∧ t.takeWhile isDigit ≠ [] then t.dropWhile isDigit else s

/-- A number without its sign. -/
def readUnsigned (s : Bytes) : Option Double :=
  if startsWithWord (bytes "inf") s then some (.infinity false)
  else if startsWithWord (bytes "nan") s then some .nan
  else if startsWithWord (bytes "0x") s then
    match readMantissa 16 isHexDigit hexDigitVal (s.drop 2) with
    | some (m, rest) => some (.finite (m * 2 ^ readExponent (ch 'p') rest))
    -- only the zero in front of the letter is a number
    | none => some (.finite 0)
  else (readMantissa 10 isDigit digitVal s).map fun r =>
    .finite (r.1 * 10 ^ readExponent (ch 'e') r.2)

/-- `std::strtod`: the number in front, whatever its size, or `none` if there is none. -/
def strtod (s : Bytes) : Option Double :=
  let t := s.dropWhile isSpace
  if t.head? = some (ch '-') then (readUnsigned t.tail).map Double.neg
  else if t.head? = some (ch '+') then readUnsigned t.tail
  else readUnsigned t

/-- The numbers that leave `errno` alone: `v` rounds to a finite `double`, without an underflow
    that is reported. The C standard leaves it to the library which underflows are. In glibc on
    x86-64 `v` is reported unless it is a `double`, or its magnitude, rounded to the 53 bits of
    a normal number, is at least `2 ^ -1022`. -/
def StrtodRange (v : ℚ) : Prop :=
  v = 0 ∨ ((1 / 2 ^ 1022 - 1 / 2 ^ 1076 ≤ |v| ∨ (v * 2 ^ 1074).den = 1) ∧
    |v| < 2 ^ 1024 - 2 ^ 970)

instance (v : ℚ) : Decidable (StrtodRange v) :=
  inferInstanceAs (Decidable (v = 0 ∨ ((1 / 2 ^ 1022 - 1 / 2 ^ 1076 ≤ |v| ∨
    (v * 2 ^ 1074).den = 1) ∧ |v| < 2 ^ 1024 - 2 ^ 970)))

-- `2.2250738585072013e-308` is below `2 ^ -1022`, which it is read as
example : StrtodRange (22250738585072013 / 10 ^ 324) := by decide +kernel

theorem strtodRange_of_le {v : ℚ} (h0 : 1 / 2 ^ 53 ≤ |v|) (h1 : |v| ≤ 2 ^ 53) :
    StrtodRange v := by
  right
  constructor
  · refine .inl ?_
    calc (1 : ℚ) / 2 ^ 1022 - 1 / 2 ^ 1076 ≤ 1 / 2 ^ 1022 := sub_le_self _ (by positivity)
      _ ≤ 1 / 2 ^ 53 :=
        one_div_le_one_div_of_le (by positivity) (pow_le_pow_right₀ (by norm_num) (by omega))
      _ ≤ |v| := h0
  · calc |v| ≤ 2 ^ 53 := h1
      _ < 2 ^ 54 - 1 := by norm_num
      _ ≤ 2 ^ 970 * (2 ^ 54 - 1) :=
        le_mul_of_one_le_left (by norm_num) (one_le_pow₀ (by norm_num))
      _ = 2 ^ 1024 - 2 ^ 970 := by rw [mul_sub, ← pow_add, mul_one]

/-- `errno` is not `ERANGE`. -/
def Double.noErange : Double → Bool
  | finite v => StrtodRange v
  | _ => true

/-- `std::stod`, `none` when it throws: there is no number, or it is out of range. -/
def stod (s : Bytes) : Option Double := (strtod s).filter Double.noErange

/-! ## `to_string` -/

/-- The integer next to `v`, the even one of two. -/
def roundHalfEven (v : ℚ) : ℤ :=
  if v - ⌊v⌋ < 1 / 2 then ⌊v⌋
  else if v - ⌊v⌋ > 1 / 2 then ⌊v⌋ + 1
  else if ⌊v⌋ % 2 = 0 then ⌊v⌋ else ⌊v⌋ + 1

/-- `std::to_string(double)`: six digits behind the point. -/
def toStringDouble (v : ℚ) : Bytes :=
  let n := (roundHalfEven (|v| * 10 ^ 6)).toNat
  (if v < 0 then [ch '-'] else []) ++ formatNat (n / 10 ^ 6) ++ ch '.' ::
    (padTo 6 (digitsOf (n % 10 ^ 6))).map digitByte

/-! ## Digits and a point -/

/-- The sign in front of a number: none, a minus sign (`true`) or a plus sign. -/
def signText : Option Bool → Bytes
  | none => []
  | some true => [ch '-']
  | some false => [ch '+']

/-- The point and what stands behind it. -/
def pointText : Option Bytes → Bytes
  | none => []
  | some frac => ch '.' :: frac

/-- A digit or a point is no letter. -/
theorem toLower_ne {x c : Byte} (hx : isDigit x = true ∨ x = ch '.') (hc : 57 < c.toNat) :
    toLower x ≠ c := by
  have hle : x.toNat ≤ 57 := by
    rcases hx with hx | rfl
    · simp only [isDigit, decide_eq_true_eq] at hx
      exact hx.2
    · decide
  rintro rfl
  rw [toLower, if_neg (by omega)] at hc
  omega

/-- `readMantissa` takes the digits and the point, and stops behind them. -/
theorem readMantissa_append {base : ℕ} {isDigit : Byte → Bool} {digitVal : Byte → ℕ}
    (hpoint : isDigit (ch '.') = false) {whole : Bytes} {frac : Option Bytes}
    (hne : whole ++ frac.getD [] ≠ []) (hdigit : ∀ c ∈ whole ++ frac.getD [], isDigit c = true)
    {rest : Bytes} (hrest : ∀ c ∈ rest.head?, isDigit c = false ∧ c ≠ ch '.') :
    readMantissa base isDigit digitVal (whole ++ pointText frac ++ rest) =
      some (((Nat.ofDigits base ((whole ++ frac.getD []).map digitVal).reverse : ℕ) : ℚ) /
        base ^ (frac.getD []).length, rest) := by
  have hwhole : ∀ c ∈ whole, isDigit c = true := fun c hc => hdigit c (List.mem_append_left _ hc)
  have hstop : ∀ c ∈ rest.head?, isDigit c = false := fun c hc => (hrest c hc).1
  cases frac with
  | none =>
    have hhead : rest.head? ≠ some (ch '.') := fun h => (hrest _ h).2 rfl
    obtain ⟨htake, hdrop⟩ := takeWhile_run hwhole hstop
    have hnil : whole ≠ [] := by simpa using hne
    simp [readMantissa, pointText, htake, hdrop, hhead, hnil]
  | some frac =>
    have hfrac : ∀ c ∈ frac, isDigit c = true := fun c hc => hdigit c (List.mem_append_right _ hc)
    have hstop' : ∀ c ∈ (ch '.' :: (frac ++ rest)).head?, isDigit c = false := by
      rintro c ⟨⟩
      exact hpoint
    obtain ⟨htake, hdrop⟩ := takeWhile_run hwhole hstop'
    obtain ⟨htake', hdrop'⟩ := takeWhile_run hfrac hstop
    have hnil : ¬(whole = [] ∧ frac = []) := by simpa using hne
    unfold readMantissa pointText
    simp [htake, hdrop, htake', hdrop', hnil]

end NceiCpp
