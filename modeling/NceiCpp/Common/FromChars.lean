import NceiCpp.Common.Number

/-!
# `std::from_chars` on `double`

`fromCharsDouble` reads in the general format. Values are exact as in `Double`, but the
range of the type counts here: a number that is no `double` is an error of the call.

* `NumberText`: the texts of numbers without a sign in one base.
* `NumberText.readMantissa_text`, `exists_numberText`: they are what is read.
* `fromCharsDouble_eq_iff`: the texts `from_chars` reads to their end.
* `NumberText.text_eq_cons`, `NumberText.mem_text`: the first character of one, and the others.
-/

namespace NceiCpp

open DecimalDigits LongestMatch

/-- `v` rounds to a finite `double`, and to zero only if it is zero. -/
def InRange (v : ℚ) : Prop := v = 0 ∨ (1 / 2 ^ 1075 < |v| ∧ |v| < 2 ^ 1024 - 2 ^ 970)

instance (v : ℚ) : Decidable (InRange v) :=
  inferInstanceAs (Decidable (v = 0 ∨ (1 / 2 ^ 1075 < |v| ∧ |v| < 2 ^ 1024 - 2 ^ 970)))

/-- A number without its sign, and what follows it. The characters in parentheses that may
    stand behind `nan` are left in place. -/
def fromCharsUnsigned (s : Bytes) : Option (Double × Bytes) :=
  if startsWithWord (bytes "infinity") s then some (.infinity false, s.drop 8)
  else if startsWithWord (bytes "inf") s then some (.infinity false, s.drop 3)
  else if startsWithWord (bytes "nan") s then some (.nan, s.drop 3)
  else
    match readMantissa 10 isDigit digitVal s with
    | none => none
    | some (m, rest) =>
      let v := m * 10 ^ readExponent (ch 'e') rest
      if InRange v then some (.finite v, afterExponent (ch 'e') rest) else none

/-- `std::from_chars` on `double`: an optional minus sign and a number, with what follows it.
    There is no value when there is no number or it is out of range (`ec != std::errc{}`). -/
def fromCharsDouble (s : Bytes) : Option (Double × Bytes) :=
  if s.head? = some (ch '-') then (fromCharsUnsigned s.tail).map fun r => (r.1.neg, r.2)
  else fromCharsUnsigned s

theorem inRange_neg {v : ℚ} : InRange (-v) ↔ InRange v := by
  simp only [InRange, neg_eq_zero, abs_neg]

/-- A number in the range of `strtod` is in range here: none of those that are `double`s
    rounds to zero. -/
theorem StrtodRange.inRange {v : ℚ} (h : StrtodRange v) : InRange v := by
  rcases h with h0 | ⟨hlow, hhigh⟩
  · exact .inl h0
  by_cases h0 : v = 0
  · exact .inl h0
  refine .inr ⟨?_, hhigh⟩
  rcases hlow with hnear | hexact
  · calc (1 : ℚ) / 2 ^ 1075 < 1 / 2 ^ 1022 - 1 / 2 ^ 1076 := by decide +kernel
      _ ≤ |v| := hnear
  · have hint : ((v * 2 ^ 1074).num : ℚ) = v * 2 ^ 1074 := Rat.coe_int_num_of_den_eq_one hexact
    have hnum : (v * 2 ^ 1074).num ≠ 0 := by
      rw [Rat.num_ne_zero]
      exact mul_ne_zero h0 (by positivity)
    have hone : (1 : ℚ) ≤ |v| * 2 ^ 1074 := by
      rw [← abs_of_pos (show (0 : ℚ) < 2 ^ 1074 by positivity), ← abs_mul, ← hint]
      exact_mod_cast Int.one_le_abs hnum
    calc (1 : ℚ) / 2 ^ 1075 < 1 / 2 ^ 1074 :=
        one_div_lt_one_div_of_lt (by positivity) (pow_lt_pow_right₀ (by norm_num) (by omega))
      _ ≤ |v| := by
        rw [div_le_iff₀ (by positivity)]
        exact hone

theorem inRange_of_le {v : ℚ} (h0 : 1 / 2 ^ 53 ≤ |v|) (h1 : |v| ≤ 2 ^ 53) : InRange v :=
  (strtodRange_of_le h0 h1).inRange

/-! ## The texts of numbers -/

/-- The digits of a base, and the letter in front of an exponent of `expBase`. -/
structure Radix where
  base : ℕ
  expBase : ℚ
  isDigit : Byte → Bool
  digitVal : Byte → ℕ
  mark : Byte
  point_digit : isDigit (ch '.') = false
  mark_digit : ∀ c, toLower c = mark → isDigit c = false ∧ c ≠ ch '.'

/-- No letter is a digit or a point. -/
theorem not_digit_of_toLower {c x : Byte} (h : toLower c = x) (hx : 57 < x.toNat) :
    isDigit c = false ∧ c ≠ ch '.' := by
  constructor
  · by_contra hdigit
    rw [Bool.not_eq_false] at hdigit
    exact toLower_ne (.inl hdigit) hx h
  · intro hpoint
    exact toLower_ne (.inr hpoint) hx h

def Radix.decimal : Radix where
  base := 10
  expBase := 10
  isDigit := NceiCpp.isDigit
  digitVal := NceiCpp.digitVal
  mark := ch 'e'
  point_digit := by decide
  mark_digit := fun _ h => not_digit_of_toLower h (by decide)

def Radix.hexadecimal : Radix where
  base := 16
  expBase := 2
  isDigit := isHexDigit
  digitVal := hexDigitVal
  mark := ch 'p'
  point_digit := by decide
  mark_digit := by
    intro c h
    obtain ⟨hdigit, hpoint⟩ := not_digit_of_toLower h (by decide)
    refine ⟨?_, hpoint⟩
    rw [isHexDigit, hdigit, h]
    decide

/-- A letter, a sign or none, and one or more digits. -/
structure ExponentText (mark : Byte) where
  letter : Byte
  sign : Option Bool
  digits : Bytes
  letter_eq : toLower letter = mark
  digits_ne : digits ≠ []
  digits_digit : ∀ c ∈ digits, isDigit c = true

def ExponentText.text {mark : Byte} (e : ExponentText mark) : Bytes :=
  e.letter :: (signText e.sign ++ e.digits)

def ExponentText.value {mark : Byte} (e : ExponentText mark) : ℤ :=
  if e.sign = some true then -(DecimalDigits.value (e.digits.map digitVal) : ℤ)
  else DecimalDigits.value (e.digits.map digitVal)

/-- Digits with a point or none, at least one on either side of it, and an exponent or none. -/
structure NumberText (r : Radix) where
  whole : Bytes
  frac : Option Bytes
  exponent : Option (ExponentText r.mark)
  digits_ne : whole ++ frac.getD [] ≠ []
  digits_digit : ∀ c ∈ whole ++ frac.getD [], r.isDigit c = true

namespace NumberText

variable {r : Radix} (n : NumberText r)

def exponentText : Bytes := (n.exponent.map ExponentText.text).getD []

def text : Bytes := n.whole ++ pointText n.frac ++ n.exponentText

def mantissa : ℚ :=
  (Nat.ofDigits r.base ((n.whole ++ n.frac.getD []).map r.digitVal).reverse : ℕ) /
    r.base ^ (n.frac.getD []).length

def value : ℚ := n.mantissa * r.expBase ^ (n.exponent.map ExponentText.value).getD 0

end NumberText

/-! ## Their characters -/

theorem ne_sign {x : Byte} (hx : isDigit x = true ∨ x = ch '.') : x ≠ ch '+' ∧ x ≠ ch '-' := by
  constructor <;>
  · rintro rfl
    exact absurd hx (by decide)

/-- A word that starts with another letter. -/
theorem startsWithWord_cons {c x : Byte} {w s : Bytes} (hw : w.head? = some c)
    (h : toLower x ≠ c) : startsWithWord w (x :: s) = false := by
  obtain ⟨w', rfl⟩ := List.head?_eq_some_iff.mp hw
  rw [startsWithWord, List.map_cons, List.isPrefixOf_cons_cons, beq_false_of_ne h.symm,
    Bool.false_and]

/-- What starts with a digit or a point starts with no word. -/
theorem startsWithWord_of_digit {w s : Bytes} {x c : Byte} (hw : w.head? = some x)
    (hx : 57 < x.toNat) (hs : s.head? = some c) (hc : isDigit c = true ∨ c = ch '.') :
    startsWithWord w s = false := by
  obtain ⟨t, rfl⟩ := List.head?_eq_some_iff.mp hs
  exact startsWithWord_cons hw (toLower_ne hc hx)

theorem NumberText.text_eq_cons {r : Radix} (n : NumberText r) :
    ∃ c t, n.text = c :: t ∧ (r.isDigit c = true ∨ c = ch '.') := by
  have hne := n.digits_ne
  have hdigit := n.digits_digit
  unfold text
  cases hwhole : n.whole with
  | cons c whole => exact ⟨c, _, rfl, .inl (hdigit c (by simp [hwhole]))⟩
  | nil =>
    cases hfrac : n.frac with
    | none => simp [hwhole, hfrac] at hne
    | some frac => exact ⟨_, _, rfl, .inr rfl⟩

theorem le_of_toLower {c x : Byte} (h : toLower c = x) (hx : 97 ≤ x.toNat) : 65 ≤ c.toNat := by
  unfold toLower at h
  split_ifs at h with hcapital
  · exact hcapital.1
  · rw [h]
    omega

theorem le_of_isDigit {c : Byte} (h : isDigit c = true) : 43 ≤ c.toNat := by
  simp only [isDigit, decide_eq_true_eq] at h
  omega

theorem ExponentText.mem_text {mark : Byte} (hmark : 97 ≤ mark.toNat) (e : ExponentText mark)
    {c : Byte} (hc : c ∈ e.text) : 43 ≤ c.toNat := by
  rcases List.mem_cons.mp hc with rfl | hc
  · have := le_of_toLower e.letter_eq hmark
    omega
  rcases List.mem_append.mp hc with hc | hc
  · match hsign : e.sign with
    | none => simp [hsign, signText] at hc
    | some true | some false =>
      rw [hsign] at hc
      rw [List.mem_singleton.mp hc]
      decide
  · exact le_of_isDigit (e.digits_digit c hc)

/-- The least character of a number is the plus sign of an exponent. -/
theorem NumberText.mem_text {r : Radix} (hdigit : ∀ c, r.isDigit c = true → 43 ≤ c.toNat)
    (hmark : 97 ≤ r.mark.toNat) (n : NumberText r) {c : Byte} (hc : c ∈ n.text) :
    43 ≤ c.toNat := by
  have hdigits := n.digits_digit
  rw [text, exponentText, List.mem_append, List.mem_append] at hc
  rcases hc with (hc | hc) | hc
  · exact hdigit c (hdigits c (List.mem_append_left _ hc))
  · cases hfrac : n.frac with
    | none => simp [hfrac, pointText] at hc
    | some frac =>
      rw [hfrac] at hc hdigits
      rcases List.mem_cons.mp hc with rfl | hc
      · decide
      · exact hdigit c (hdigits c (List.mem_append_right _ hc))
  · cases hexp : n.exponent with
    | none => simp [hexp] at hc
    | some e =>
      rw [hexp] at hc
      exact e.mem_text hmark hc

/-! ## Exponents -/

section Exponents

variable {mark : Byte}

/-- What is behind the letter and the sign of an exponent. -/
def exponentDigits (s : Bytes) : Bytes :=
  if s.tail.head? = some (ch '-') ∨ s.tail.head? = some (ch '+') then s.tail.tail else s.tail

def HasExponent (mark : Byte) (s : Bytes) : Prop :=
  s.head?.map toLower = some mark ∧ (exponentDigits s).takeWhile isDigit ≠ []

instance (s : Bytes) : Decidable (HasExponent mark s) :=
  inferInstanceAs (Decidable (_ ∧ _))

theorem readExponent_eq (s : Bytes) : readExponent mark s =
    if HasExponent mark s then
      if s.tail.head? = some (ch '-') then
        -(value (((exponentDigits s).takeWhile isDigit).map digitVal) : ℤ)
      else value (((exponentDigits s).takeWhile isDigit).map digitVal)
    else 0 := rfl

theorem afterExponent_eq (s : Bytes) : afterExponent mark s =
    if HasExponent mark s then (exponentDigits s).dropWhile isDigit else s := rfl

namespace ExponentText

variable (e : ExponentText mark) (rest : Bytes)

/-- The sign tells itself from the digits. -/
theorem head_tail : ((e.text ++ rest).tail.head? = some (ch '-') ↔ e.sign = some true) ∧
    ((e.text ++ rest).tail.head? = some (ch '+') ↔ e.sign = some false) := by
  have htail : (e.text ++ rest).tail = signText e.sign ++ (e.digits ++ rest) := by
    rw [text, List.cons_append, List.tail_cons, List.append_assoc]
  rw [htail]
  match e.sign with
  | none =>
    obtain ⟨d, digits, hdigits⟩ := List.exists_cons_of_ne_nil e.digits_ne
    have hd : isDigit d = true := e.digits_digit d (by simp [hdigits])
    obtain ⟨hplus, hminus⟩ := ne_sign (.inl hd)
    simp [signText, hdigits, hplus, hminus]
  | some true => simp [signText, show ch '-' ≠ ch '+' by decide]
  | some false => simp [signText, show ch '+' ≠ ch '-' by decide]

theorem exponentDigits_text : exponentDigits (e.text ++ rest) = e.digits ++ rest := by
  obtain ⟨hminus, hplus⟩ := e.head_tail rest
  simp only [exponentDigits, hminus, hplus]
  unfold text
  match e.sign with
  | none => simp [signText]
  | some true | some false => simp [signText]

theorem hasExponent : HasExponent mark (e.text ++ rest) := by
  refine ⟨by rw [text, List.cons_append, List.head?_cons, Option.map_some, e.letter_eq], ?_⟩
  rw [exponentDigits_text, List.takeWhile_append_of_pos e.digits_digit]
  exact List.append_ne_nil_of_left_ne_nil e.digits_ne _

theorem read_text : readExponent mark e.text = e.value ∧ afterExponent mark e.text = [] := by
  have hhas := e.hasExponent []
  have hdigits := e.exponentDigits_text []
  obtain ⟨hminus, -⟩ := e.head_tail []
  rw [List.append_nil] at hhas hdigits hminus
  have htake : e.digits.takeWhile isDigit = e.digits :=
    List.takeWhile_eq_self_iff.mpr e.digits_digit
  rw [readExponent_eq, afterExponent_eq, if_pos hhas, if_pos hhas, hdigits, List.append_nil, htake]
  refine ⟨?_, List.dropWhile_eq_nil_iff.mpr e.digits_digit⟩
  simp only [hminus]
  rfl

end ExponentText

/-- What is read as an exponent is the text of one. -/
theorem HasExponent.exists_text {s : Bytes} (h : HasExponent mark s) :
    ∃ e : ExponentText mark, s = e.text ++ (exponentDigits s).dropWhile isDigit ∧
      e.digits = (exponentDigits s).takeWhile isDigit ∧
      (e.sign = some true ↔ s.tail.head? = some (ch '-')) := by
  obtain ⟨hletter, hne⟩ := h
  obtain ⟨letter, hhead, hmark⟩ := Option.map_eq_some_iff.mp hletter
  obtain ⟨t, rfl⟩ := List.head?_eq_some_iff.mp hhead
  have hdigit : ∀ c ∈ (exponentDigits (letter :: t)).takeWhile isDigit, isDigit c = true :=
    fun c hc => (List.mem_takeWhile_imp hc)
  obtain ⟨sign, hsign, hminus⟩ : ∃ sign, t = signText sign ++ exponentDigits (letter :: t) ∧
      (sign = some true ↔ t.head? = some (ch '-')) := by
    unfold exponentDigits
    rw [List.tail_cons]
    by_cases hminus : t.head? = some (ch '-')
    · obtain ⟨t, rfl⟩ := List.head?_eq_some_iff.mp hminus
      exact ⟨some true, by simp [signText], by simp⟩
    · by_cases hplus : t.head? = some (ch '+')
      · obtain ⟨t, rfl⟩ := List.head?_eq_some_iff.mp hplus
        exact ⟨some false, by simp [signText], by simpa using hminus⟩
      · exact ⟨none, by simp [signText, hminus, hplus], by simp [hminus]⟩
  refine ⟨⟨letter, sign, _, hmark, hne, hdigit⟩, ?_, rfl, hminus⟩
  rw [ExponentText.text, List.cons_append, List.append_assoc, List.takeWhile_append_dropWhile,
    ← hsign]

theorem exists_exponentText (mark : Byte) (s : Bytes) : ∃ e : Option (ExponentText mark),
    s = (e.map ExponentText.text).getD [] ++ afterExponent mark s ∧
      readExponent mark s = (e.map ExponentText.value).getD 0 := by
  rw [readExponent_eq, afterExponent_eq]
  by_cases h : HasExponent mark s
  · obtain ⟨e, htext, hdigits, hsign⟩ := h.exists_text
    refine ⟨some e, ?_, ?_⟩
    · rw [if_pos h]
      exact htext
    · rw [if_pos h, Option.map_some, Option.getD_some, ExponentText.value, hdigits]
      simp only [hsign]
  · exact ⟨none, by rw [if_neg h]; rfl, by rw [if_neg h]; rfl⟩

end Exponents

/-! ## Digits, a point and an exponent -/

namespace NumberText

variable {r : Radix} (n : NumberText r)

theorem read_exponentText : readExponent r.mark n.exponentText =
    (n.exponent.map ExponentText.value).getD 0 ∧ afterExponent r.mark n.exponentText = [] := by
  unfold exponentText
  cases n.exponent with
  | none => exact ⟨rfl, rfl⟩
  | some e => exact e.read_text

theorem head_exponentText :
    ∀ c ∈ n.exponentText.head?, r.isDigit c = false ∧ c ≠ ch '.' := by
  unfold exponentText
  cases n.exponent with
  | none => simp
  | some e =>
    rintro c ⟨⟩
    exact r.mark_digit _ e.letter_eq

/-- The digits and the exponent of a text are read. -/
theorem readMantissa_text :
    readMantissa r.base r.isDigit r.digitVal n.text = some (n.mantissa, n.exponentText) :=
  readMantissa_append r.point_digit n.digits_ne n.digits_digit n.head_exponentText

theorem value_eq_of_text {n m : NumberText r} (h : n.text = m.text) : n.value = m.value := by
  have heq := n.readMantissa_text
  rw [h, m.readMantissa_text] at heq
  obtain ⟨hmantissa, hexponent⟩ := Prod.mk.inj (Option.some.inj heq)
  rw [value, value, ← n.read_exponentText.1, ← m.read_exponentText.1, hmantissa, hexponent]

end NumberText

section Reading

variable {r : Radix} {s rest : Bytes} {q : ℚ}

/-- The two ways to read digits: with a point behind the first run, and without. -/
theorem readMantissa_cases (h : readMantissa r.base r.isDigit r.digitVal s = some (q, rest)) :
    ∃ frac : Option Bytes, s.takeWhile r.isDigit ++ frac.getD [] ≠ [] ∧
      q = (Nat.ofDigits r.base
          ((s.takeWhile r.isDigit ++ frac.getD []).map r.digitVal).reverse : ℕ) /
        r.base ^ (frac.getD []).length ∧
      (frac = none ∧ (s.dropWhile r.isDigit).head? ≠ some (ch '.') ∧
          rest = s.dropWhile r.isDigit ∨
        ∃ t, s.dropWhile r.isDigit = ch '.' :: t ∧ frac = some (t.takeWhile r.isDigit) ∧
          rest = t.dropWhile r.isDigit) := by
  unfold readMantissa at h
  dsimp only at h
  by_cases hpoint : (s.dropWhile r.isDigit).head? = some (ch '.')
  · obtain ⟨t, ht⟩ := List.head?_eq_some_iff.mp hpoint
    rw [ht] at h
    simp only [List.head?_cons, List.tail_cons, if_true] at h
    split_ifs at h with hnil
    obtain ⟨rfl, rfl⟩ := Prod.mk.inj (Option.some.inj h)
    exact ⟨some (t.takeWhile r.isDigit), by simpa using hnil, rfl, .inr ⟨t, ht, rfl, rfl⟩⟩
  · simp only [hpoint, if_false, and_true] at h
    split_ifs at h with hnil
    obtain ⟨rfl, rfl⟩ := Prod.mk.inj (Option.some.inj h)
    exact ⟨none, by simpa using hnil, rfl, .inl ⟨rfl, hpoint, rfl⟩⟩

/-- What is read is the text of a number. -/
theorem exists_numberText (h : readMantissa r.base r.isDigit r.digitVal s = some (q, rest)) :
    ∃ n : NumberText r, s = n.text ++ afterExponent r.mark rest ∧
      n.value = q * r.expBase ^ readExponent r.mark rest := by
  obtain ⟨frac, hne, hq, hrest⟩ := readMantissa_cases h
  obtain ⟨e, hexponent, hvalue⟩ := exists_exponentText r.mark rest
  have hrun : ∀ t : Bytes, ∀ c ∈ t.takeWhile r.isDigit, r.isDigit c = true :=
    fun t c hc => List.mem_takeWhile_imp hc
  have hdigit : ∀ c ∈ s.takeWhile r.isDigit ++ frac.getD [], r.isDigit c = true := by
    intro c hc
    rcases List.mem_append.mp hc with hc | hc
    · exact hrun s c hc
    · rcases hrest with ⟨rfl, -, -⟩ | ⟨t, -, rfl, -⟩
      · cases hc
      · exact hrun t c hc
  have hmantissa : s = s.takeWhile r.isDigit ++ pointText frac ++ rest := by
    rcases hrest with ⟨rfl, -, rfl⟩ | ⟨t, ht, rfl, rfl⟩
    · rw [pointText, List.append_nil, List.takeWhile_append_dropWhile]
    · rw [pointText, List.append_assoc, List.cons_append, List.takeWhile_append_dropWhile, ← ht,
        List.takeWhile_append_dropWhile]
  refine ⟨⟨s.takeWhile r.isDigit, frac, e, hne, hdigit⟩, ?_, ?_⟩
  · rw [NumberText.text, NumberText.exponentText, List.append_assoc, ← hexponent]
    exact hmantissa
  · rw [NumberText.value, NumberText.mantissa, ← hvalue, hq]

end Reading

/-! ## `from_chars` -/

/-- The number behind a sign or none. -/
def signed (sign : Option Bool) (v : ℚ) : ℚ := if sign = some true then -v else v

/-- The text of a number in the range of the type is read to its end. -/
theorem NumberText.fromCharsUnsigned_text (n : NumberText .decimal) :
    fromCharsUnsigned n.text =
      if InRange n.value then some (.finite n.value, []) else none := by
  obtain ⟨c, t, htext, hc⟩ := n.text_eq_cons
  have hhead : n.text.head? = some c := by rw [htext]; rfl
  have hword : ∀ w x, w.head? = some x → 57 < x.toNat → startsWithWord w n.text = false :=
    fun w x hw hx => startsWithWord_of_digit hw hx hhead hc
  have hread : readMantissa 10 isDigit digitVal n.text = some (n.mantissa, n.exponentText) :=
    n.readMantissa_text
  obtain ⟨hexp, hafter⟩ : readExponent (ch 'e') n.exponentText = _ ∧
    afterExponent (ch 'e') n.exponentText = _ := n.read_exponentText
  rw [fromCharsUnsigned, hword (bytes "infinity") (ch 'i') rfl (by decide),
    hword (bytes "inf") (ch 'i') rfl (by decide), hword (bytes "nan") (ch 'n') rfl (by decide),
    hread]
  simp only [hexp, hafter]
  rfl

/-- A finite number is read to the end of `t` exactly if `t` is its text. -/
theorem fromCharsUnsigned_eq_iff {t : Bytes} {v : ℚ} :
    fromCharsUnsigned t = some (.finite v, []) ↔
      ∃ n : NumberText .decimal, n.text = t ∧ n.value = v ∧ InRange v := by
  constructor
  · intro h
    unfold fromCharsUnsigned at h
    split_ifs at h
    · simp at h
    · simp at h
    · simp at h
    · cases hread : readMantissa 10 isDigit digitVal t with
      | none => simp [hread] at h
      | some p =>
        obtain ⟨q, rest⟩ := p
        obtain ⟨n, htext, hvalue⟩ := @exists_numberText .decimal _ _ _ hread
        simp only [hread] at h
        split_ifs at h with hrange
        obtain ⟨hv, hafter⟩ := Prod.mk.inj (Option.some.inj h)
        obtain rfl := Double.finite.inj hv
        have hnil : afterExponent Radix.decimal.mark rest = [] := hafter
        rw [hnil, List.append_nil] at htext
        exact ⟨n, htext.symm, hvalue, hrange⟩
  · rintro ⟨n, rfl, rfl, hrange⟩
    rw [n.fromCharsUnsigned_text, if_pos hrange]

theorem inRange_signed {sign : Option Bool} {v : ℚ} : InRange (signed sign v) ↔ InRange v := by
  unfold signed
  split_ifs
  · exact inRange_neg
  · rfl

theorem fromCharsDouble_eq_iff {t : Bytes} {v : ℚ} :
    fromCharsDouble t = some (.finite v, []) ↔
      ∃ (sign : Option Bool) (n : NumberText .decimal), sign ≠ some false ∧
        t = signText sign ++ n.text ∧ v = signed sign n.value ∧ InRange v := by
  unfold fromCharsDouble
  by_cases hminus : t.head? = some (ch '-')
  · obtain ⟨u, rfl⟩ := List.head?_eq_some_iff.mp hminus
    rw [if_pos hminus, List.tail_cons]
    constructor
    · intro h
      obtain ⟨⟨x, rest⟩, hread, heq⟩ := Option.map_eq_some_iff.mp h
      obtain ⟨hneg, rfl⟩ := Prod.mk.inj heq
      cases x with
      | finite w =>
        obtain rfl := Double.finite.inj hneg
        obtain ⟨n, rfl, rfl, hrange⟩ := fromCharsUnsigned_eq_iff.mp hread
        exact ⟨some true, n, by decide, rfl, rfl, inRange_neg.mpr hrange⟩
      | infinity negative => cases hneg
      | nan => cases hneg
    · rintro ⟨sign, n, hsign, htext, rfl, hrange⟩
      match sign with
      | none =>
        obtain ⟨c, t, hcons, hc⟩ := n.text_eq_cons
        rw [signText, List.nil_append, hcons] at htext
        exact absurd (List.cons.inj htext).1.symm (ne_sign hc).2
      | some false => exact absurd rfl hsign
      | some true =>
        have hu : u = n.text := (List.cons.inj htext).2
        rw [hu, fromCharsUnsigned_eq_iff.mpr ⟨n, rfl, rfl, inRange_signed.mp hrange⟩]
        rfl
  · rw [if_neg hminus, fromCharsUnsigned_eq_iff]
    constructor
    · rintro ⟨n, rfl, rfl, hrange⟩
      exact ⟨none, n, by decide, rfl, rfl, hrange⟩
    · rintro ⟨sign, n, hsign, rfl, rfl, hrange⟩
      match sign with
      | none => exact ⟨n, rfl, rfl, hrange⟩
      | some false => exact absurd rfl hsign
      | some true => exact absurd rfl hminus

end NceiCpp
