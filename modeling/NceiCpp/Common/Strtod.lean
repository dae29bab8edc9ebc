import NceiCpp.Common.FromChars

/-!
# `std::strtod`

`strtod` reads the longest initial part of its input that is the text of a number.

* `exists_isLongest`: the digits and the exponent that are read are the longest text.
* `UnsignedText`: the numbers without a sign, decimal and hexadecimal ones.
* `readUnsigned_eq_finite_iff`: what is read behind the sign.
* `strtod_eq_finite_iff`, `strtod_word_iff`: what is read from any text.
* `Decimal`: the plain decimal numbers; `stod_text` reads them.
-/

namespace NceiCpp

open DecimalDigits LongestMatch

/-! ## The longest text -/

/-- No exponent is longer than the one that is read. -/
theorem ExponentText.length_le {mark : Byte} {e : ExponentText mark} {s : Bytes}
    (h : e.text <+: s) :
    e.text.length + (afterExponent mark s).length ≤ s.length := by
  obtain ⟨rest, rfl⟩ := h
  rw [afterExponent_eq, if_pos (e.hasExponent rest), exponentDigits_text,
    List.dropWhile_append_of_pos e.digits_digit, List.length_append]
  have := (List.dropWhile_sublist isDigit (l := rest)).length_le
  omega

section Reading

variable {r : Radix} {s rest : Bytes} {q : ℚ}

theorem length_afterExponent_le (mark : Byte) (s : Bytes) :
    (afterExponent mark s).length ≤ s.length := by
  obtain ⟨e, hs, -⟩ := exists_exponentText mark s
  have := congrArg List.length hs
  rw [List.length_append] at this
  omega

/-- An exponent that is there is no longer than the one that is read. -/
theorem NumberText.length_exponentText_le {m : NumberText r} (h : m.exponentText <+: s) :
    m.exponentText.length + (afterExponent r.mark s).length ≤ s.length := by
  unfold exponentText at *
  cases hexp : m.exponent with
  | none =>
    have := length_afterExponent_le r.mark s
    simpa using this
  | some e =>
    rw [hexp] at h
    exact ExponentText.length_le h

/-- What follows the first run of digits is no longer than what is read there. -/
theorem NumberText.length_frac_le {m : NumberText r} {frac : Option Bytes}
    (hrest : frac = none ∧ s.head? ≠ some (ch '.') ∧ rest = s ∨
      ∃ t, s = ch '.' :: t ∧ frac = some (t.takeWhile r.isDigit) ∧ rest = t.dropWhile r.isDigit)
    (hm : pointText m.frac ++ m.exponentText <+: s) :
    (pointText m.frac ++ m.exponentText).length + (afterExponent r.mark rest).length ≤
      s.length := by
  have hafter := length_afterExponent_le r.mark rest
  cases hfrac : m.frac with
  | none =>
    rw [hfrac] at hm
    rcases hrest with ⟨-, -, rfl⟩ | ⟨t, rfl, -, rfl⟩
    · exact length_exponentText_le hm
    · have hnil : m.exponentText = [] := by
        by_contra hne
        obtain ⟨c, e, hexp⟩ := List.exists_cons_of_ne_nil hne
        rw [pointText, List.nil_append, hexp, List.cons_prefix_cons] at hm
        exact (m.head_exponentText c (by rw [hexp]; rfl)).2 hm.1
      have := (List.dropWhile_sublist r.isDigit (l := t)).length_le
      rw [hnil, pointText, List.append_nil, List.length_nil, List.length_cons]
      omega
  | some f =>
    have hdigit : ∀ c ∈ f, r.isDigit c = true :=
      fun c hc => m.digits_digit c (List.mem_append_right _ (by rwa [hfrac]))
    rw [hfrac, pointText, List.cons_append] at hm
    rw [pointText, List.cons_append, List.length_cons, List.length_append]
    rcases hrest with ⟨-, hpoint, -⟩ | ⟨t, rfl, -, rfl⟩
    · obtain ⟨u, rfl⟩ := hm
      exact absurd rfl hpoint
    · have hsplit := congrArg List.length
        (List.takeWhile_append_dropWhile (p := r.isDigit) (l := t))
      rw [List.length_append] at hsplit
      rw [List.length_cons]
      rcases takeWhile_of_append hdigit (fun c hc => (m.head_exponentText c hc).1)
        (List.cons_prefix_cons.mp hm).2 with ⟨rfl, hexp⟩ | ⟨hnil, hlen⟩
      · have := length_exponentText_le hexp
        omega
      · -- the number ends within the run behind the point
        rw [hnil, List.length_nil]
        omega

/-- No text of a number is longer than the one that is read. -/
theorem NumberText.length_le (h : readMantissa r.base r.isDigit r.digitVal s = some (q, rest))
    {m : NumberText r} (hm : m.text <+: s) :
    m.text.length + (afterExponent r.mark rest).length ≤ s.length := by
  obtain ⟨frac, -, -, hrest⟩ := readMantissa_cases h
  have hafter := length_afterExponent_le r.mark rest
  have hsplit := congrArg List.length (List.takeWhile_append_dropWhile (p := r.isDigit) (l := s))
  rw [List.length_append] at hsplit
  have hwhole : ∀ c ∈ m.whole, r.isDigit c = true :=
    fun c hc => m.digits_digit c (List.mem_append_left _ hc)
  have hhead : ∀ c ∈ (pointText m.frac ++ m.exponentText).head?, r.isDigit c = false := by
    cases m.frac with
    | none => exact fun c hc => (m.head_exponentText c hc).1
    | some frac =>
      rintro c ⟨⟩
      exact r.point_digit
  rw [text, List.append_assoc] at hm ⊢
  rw [List.length_append]
  rcases takeWhile_of_append hwhole hhead hm with ⟨heq, htail⟩ | ⟨hnil, hlen⟩
  · have := length_frac_le hrest htail
    rw [heq]
    omega
  · -- the number ends within the first run
    have hle : rest.length ≤ (s.dropWhile r.isDigit).length := by
      rcases hrest with ⟨-, -, rfl⟩ | ⟨t, ht, -, rfl⟩
      · exact le_rfl
      · have := (List.dropWhile_sublist r.isDigit (l := t)).length_le
        rw [ht, List.length_cons]
        omega
    rw [hnil, List.length_nil]
    omega

/-- The digits and the exponent that are read are the longest text of a number. -/
theorem exists_isLongest (h : readMantissa r.base r.isDigit r.digitVal s = some (q, rest)) :
    ∃ n : NumberText r, IsLongest NumberText.text n s ∧
      n.value = q * r.expBase ^ readExponent r.mark rest := by
  obtain ⟨n, htext, hvalue⟩ := exists_numberText h
  refine ⟨n, ⟨⟨_, htext.symm⟩, ?_⟩, hvalue⟩
  intro m hm
  have hle := NumberText.length_le h hm
  have hlen := congrArg List.length htext
  rw [List.length_append] at hlen
  omega

/-- Where nothing is read there is no number. -/
theorem NumberText.none_of_readMantissa
    (h : readMantissa r.base r.isDigit r.digitVal s = none) (m : NumberText r) :
    ¬m.text <+: s := by
  rintro ⟨u, rfl⟩
  have hdigit := m.digits_digit
  have hne := m.digits_ne
  unfold text at h
  cases hwhole : m.whole with
  | cons c whole =>
    have hc : r.isDigit c = true := hdigit c (by simp [hwhole])
    simp [readMantissa, hwhole, hc] at h
  | nil =>
    cases hfrac : m.frac with
    | none => simp [hwhole, hfrac] at hne
    | some frac =>
      cases frac with
      | nil => simp [hwhole, hfrac] at hne
      | cons c frac =>
        have hc : r.isDigit c = true := hdigit c (by simp [hfrac])
        simp [readMantissa, hwhole, hfrac, pointText, r.point_digit, hc] at h

end Reading

/-! ## `strtod` -/

/-- A number without a sign: decimal digits, or hexadecimal ones behind `0x`. -/
inductive UnsignedText
  | decimal (n : NumberText .decimal)
  | hexadecimal (x : Byte) (x_eq : toLower x = ch 'x') (n : NumberText .hexadecimal)

namespace UnsignedText

def text : UnsignedText → Bytes
  | decimal n => n.text
  | hexadecimal x _ n => ch '0' :: x :: n.text

def value : UnsignedText → ℚ
  | decimal n => n.value
  | hexadecimal _ _ n => n.value

end UnsignedText

theorem eq_of_toLower {c x : Byte} (h : toLower c = x) (hx : x.toNat < 97) : c = x := by
  unfold toLower at h
  split_ifs at h with hcapital
  · have hadd : (c + 32).toNat = c.toNat + 32 := by
      rw [UInt8.toNat_add]
      show (c.toNat + 32) % 256 = _
      omega
    rw [h] at hadd
    omega
  · exact h

theorem startsWithWord_hex_iff (s : Bytes) : startsWithWord (bytes "0x") s = true ↔
    ∃ x t, s = ch '0' :: x :: t ∧ toLower x = ch 'x' := by
  rw [startsWithWord, List.isPrefixOf_iff_prefix]
  constructor
  · intro h
    rcases s with _ | ⟨a, _ | ⟨x, t⟩⟩
    · cases List.prefix_nil.mp h
    · cases List.prefix_nil.mp (List.cons_prefix_cons.mp h).2
    · obtain ⟨ha, h⟩ := List.cons_prefix_cons.mp h
      obtain ⟨hx, -⟩ := List.cons_prefix_cons.mp h
      obtain rfl := eq_of_toLower ha.symm (by decide)
      exact ⟨x, t, rfl, hx.symm⟩
  · rintro ⟨x, t, rfl, hx⟩
    rw [List.map_cons, List.map_cons, hx]
    exact ⟨t.map toLower, rfl⟩

/-- The text `0`. -/
def zeroText : NumberText .decimal where
  whole := [ch '0']
  frac := none
  exponent := none
  digits_ne := by decide
  digits_digit := by
    intro c hc
    obtain rfl : c = ch '0' := by simpa using hc
    decide

theorem zeroText_value : zeroText.value = 0 := by
  simp [NumberText.value, NumberText.mantissa, zeroText, Radix.decimal, digitVal, ch]

/-- The decimal number in front of the letter of a hexadecimal one is its zero. -/
theorem isLongest_zeroText {x : Byte} (hx : toLower x = ch 'x') (t : Bytes) :
    IsLongest NumberText.text zeroText (ch '0' :: x :: t) := by
  obtain ⟨hdigit, hpoint⟩ := not_digit_of_toLower hx (by decide)
  have hrest : ∀ c ∈ (x :: t).head?, isDigit c = false ∧ c ≠ ch '.' := by
    rintro c ⟨⟩
    exact ⟨hdigit, hpoint⟩
  have hread := @readMantissa_append 10 isDigit digitVal (by decide) [ch '0'] none
    zeroText.digits_ne zeroText.digits_digit (x :: t) hrest
  rw [pointText, List.append_nil, List.singleton_append] at hread
  have hexp : afterExponent (ch 'e') (x :: t) = x :: t := by
    rw [afterExponent_eq, if_neg]
    rintro ⟨hmark, -⟩
    rw [List.head?_cons, Option.map_some, hx] at hmark
    revert hmark
    decide
  refine ⟨⟨x :: t, rfl⟩, ?_⟩
  intro m hm
  have hlen := @NumberText.length_le .decimal _ _ _ hread m hm
  rw [show afterExponent Radix.decimal.mark (x :: t) = x :: t from hexp] at hlen
  simp only [List.length_cons] at hlen
  show m.text.length ≤ 1
  omega

/-- A hexadecimal number starts as one is announced. -/
theorem startsWithWord_of_text {x : Byte} {hx : toLower x = ch 'x'} {n : NumberText .hexadecimal}
    {s : Bytes} (h : (UnsignedText.hexadecimal x hx n).text <+: s) :
    startsWithWord (bytes "0x") s = true := by
  obtain ⟨u, rfl⟩ := h
  exact (startsWithWord_hex_iff _).mpr ⟨x, n.text ++ u, rfl, hx⟩

/-- Behind `0x` the longest number is hexadecimal, if there are hexadecimal digits. -/
theorem readUnsigned_hexadecimal {x : Byte} (hx : toLower x = ch 'x') (t : Bytes) :
    ∃ n, IsLongest UnsignedText.text n (ch '0' :: x :: t) ∧
      (match readMantissa 16 isHexDigit hexDigitVal t with
        | some (m, rest) => some (Double.finite (m * 2 ^ readExponent (ch 'p') rest))
        | none => some (.finite 0)) = some (.finite n.value) := by
  have hzero := isLongest_zeroText hx t
  cases hread : readMantissa 16 isHexDigit hexDigitVal t with
  | some p =>
    obtain ⟨n, hlongest, hvalue⟩ := @exists_isLongest .hexadecimal _ _ _ hread
    refine ⟨.hexadecimal x hx n, ⟨?_, ?_⟩, ?_⟩
    · exact List.cons_prefix_cons.mpr ⟨rfl, List.cons_prefix_cons.mpr ⟨rfl, hlongest.1⟩⟩
    · intro m hm
      cases m with
      | decimal m =>
        have hlen : m.text.length ≤ 1 := hzero.2 m hm
        exact hlen.trans (Nat.le_add_left _ _)
      | hexadecimal y hy m =>
        have htail := (List.cons_prefix_cons.mp (List.cons_prefix_cons.mp hm).2).2
        exact Nat.succ_le_succ (Nat.succ_le_succ (hlongest.2 m htail))
    · rw [UnsignedText.value, hvalue]
      rfl
  | none =>
    refine ⟨.decimal zeroText, ⟨hzero.1, ?_⟩, ?_⟩
    · intro m hm
      cases m with
      | decimal m => exact hzero.2 m hm
      | hexadecimal y hy m =>
        have htail := (List.cons_prefix_cons.mp (List.cons_prefix_cons.mp hm).2).2
        exact absurd htail (@NumberText.none_of_readMantissa .hexadecimal _ hread m)
    · rw [UnsignedText.value, zeroText_value]

/-- The number `strtod` reads behind the sign is the longest. -/
theorem readUnsigned_cases {s : Bytes} (hinf : startsWithWord (bytes "inf") s = false)
    (hnan : startsWithWord (bytes "nan") s = false) :
    (∃ n, IsLongest UnsignedText.text n s ∧ readUnsigned s = some (.finite n.value)) ∨
      readUnsigned s = none ∧ ∀ n : UnsignedText, ¬n.text <+: s := by
  rw [readUnsigned, hinf, hnan]
  simp only [Bool.false_eq_true, if_false]
  by_cases hhex : startsWithWord (bytes "0x") s = true
  · obtain ⟨x, t, rfl, hx⟩ := (startsWithWord_hex_iff s).mp hhex
    rw [if_pos hhex]
    exact .inl (readUnsigned_hexadecimal hx t)
  rw [if_neg hhex]
  cases hread : readMantissa 10 isDigit digitVal s with
  | some p =>
    obtain ⟨n, hlongest, hvalue⟩ := @exists_isLongest .decimal _ _ _ hread
    refine .inl ⟨.decimal n, ⟨hlongest.1, ?_⟩, ?_⟩
    · intro m hm
      cases m with
      | decimal m => exact hlongest.2 m hm
      | hexadecimal x hx m => exact absurd (startsWithWord_of_text hm) hhex
    · rw [UnsignedText.value, hvalue]
      rfl
  | none =>
    refine .inr ⟨rfl, ?_⟩
    intro m hm
    cases m with
    | decimal m => exact @NumberText.none_of_readMantissa .decimal _ hread m hm
    | hexadecimal x hx m => exact hhex (startsWithWord_of_text hm)

/-- A text denotes one number. -/
theorem UnsignedText.value_eq_of_text {n m : UnsignedText} (h : n.text = m.text) :
    n.value = m.value := by
  have hmixed : ∀ (x : Byte) (hx : toLower x = ch 'x') (n : NumberText .decimal)
      (m : NumberText .hexadecimal), n.text ≠ (hexadecimal x hx m).text := by
    intro x hx n m heq
    have hlen : n.text.length ≤ 1 :=
      (isLongest_zeroText hx m.text).2 n ⟨[], (List.append_nil _).trans heq⟩
    rw [heq] at hlen
    simp [text] at hlen
  cases n with
  | decimal n =>
    cases m with
    | decimal m => exact NumberText.value_eq_of_text h
    | hexadecimal x hx m => exact absurd h (hmixed x hx n m)
  | hexadecimal x hx n =>
    cases m with
    | decimal m => exact absurd h.symm (hmixed x hx m n)
    | hexadecimal y hy m =>
      exact NumberText.value_eq_of_text (List.cons.inj (List.cons.inj h).2).2

theorem UnsignedText.text_eq_cons (n : UnsignedText) :
    ∃ c t, n.text = c :: t ∧ (isDigit c = true ∨ c = ch '.') := by
  cases n with
  | decimal n => exact n.text_eq_cons
  | hexadecimal x hx n => exact ⟨_, _, rfl, .inl (by decide)⟩

theorem UnsignedText.mem_text (n : UnsignedText) {c : Byte} (hc : c ∈ n.text) : 43 ≤ c.toNat := by
  cases n with
  | decimal n => exact n.mem_text (fun c hc => le_of_isDigit hc) (by decide) hc
  | hexadecimal x hx n =>
    have hhex : ∀ c, isHexDigit c = true → 43 ≤ c.toNat := by
      intro c hc
      rw [isHexDigit, decide_eq_true_eq] at hc
      rcases hc with hc | hc
      · exact le_of_isDigit hc
      · have := le_of_toLower rfl hc.1
        omega
    rcases List.mem_cons.mp hc with rfl | hc
    · decide
    rcases List.mem_cons.mp hc with rfl | hc
    · have := le_of_toLower hx (by decide)
      omega
    · exact n.mem_text hhex (by decide) hc

theorem UnsignedText.head_of_prefix {n : UnsignedText} {s : Bytes} (h : n.text <+: s) :
    ∃ c, s.head? = some c ∧ (isDigit c = true ∨ c = ch '.') := by
  obtain ⟨u, rfl⟩ := h
  obtain ⟨c, t, htext, hc⟩ := n.text_eq_cons
  exact ⟨c, by rw [htext]; rfl, hc⟩

/-- An infinity, or no number. -/
def StartsWithWord (s : Bytes) : Prop :=
  startsWithWord (bytes "inf") s = true ∨ startsWithWord (bytes "nan") s = true

theorem readUnsigned_of_word {s : Bytes} (h : StartsWithWord s) :
    readUnsigned s = some (.infinity false) ∨ readUnsigned s = some .nan := by
  unfold readUnsigned
  by_cases hinf : startsWithWord (bytes "inf") s = true
  · exact .inl (if_pos hinf)
  · rcases h with h | h
    · exact absurd h hinf
    · rw [if_neg hinf, if_pos h]
      exact .inr rfl

theorem readUnsigned_eq_finite_iff {s : Bytes} {v : ℚ} : readUnsigned s = some (.finite v) ↔
    ∃ n, IsLongest UnsignedText.text n s ∧ n.value = v := by
  by_cases hword : StartsWithWord s
  · -- a word is no number, and no number starts with a letter
    refine iff_of_false ?_ ?_
    · rcases readUnsigned_of_word hword with h | h <;> simp [h]
    · rintro ⟨n, hn, -⟩
      obtain ⟨c, hs, hc⟩ := UnsignedText.head_of_prefix hn.1
      rcases hword with h | h
      · rw [@startsWithWord_of_digit (bytes "inf") s (ch 'i') c rfl (by decide) hs hc] at h
        cases h
      · rw [@startsWithWord_of_digit (bytes "nan") s (ch 'n') c rfl (by decide) hs hc] at h
        cases h
  obtain ⟨hinf, hnan⟩ := not_or.mp hword
  rcases readUnsigned_cases (eq_false_of_ne_true hinf) (eq_false_of_ne_true hnan) with
    ⟨n, hn, hread⟩ | ⟨hread, hnone⟩
  · rw [hread, Option.some.injEq, Double.finite.injEq]
    constructor
    · rintro rfl
      exact ⟨n, hn, rfl⟩
    · rintro ⟨m, hm, rfl⟩
      exact UnsignedText.value_eq_of_text (hn.text_eq hm)
  · rw [hread]
    refine iff_of_false (by simp) ?_
    rintro ⟨n, hn, -⟩
    exact hnone n hn.1

/-! ## White space and the sign -/

/-- `s` is `t` behind white space and a sign or none. -/
def LeadsTo (s : Bytes) (sign : Option Bool) (t : Bytes) : Prop :=
  ∃ spaces, (∀ c ∈ spaces, isSpace c = true) ∧ s = spaces ++ (signText sign ++ t)

/-- The longest number behind white space and a sign or none is `v`. -/
def LeadingNumber (s : Bytes) (v : ℚ) : Prop :=
  ∃ sign t n, LeadsTo s sign t ∧ IsLongest UnsignedText.text n t ∧ v = signed sign n.value

/-- An infinity or no number stands behind white space and a sign or none. -/
def LeadingWord (s : Bytes) : Prop := ∃ sign t, LeadsTo s sign t ∧ StartsWithWord t

/-- What `strtod` makes of what it reads behind the sign. -/
def signedDouble (sign : Option Bool) (x : Double) : Double := if sign = some true then x.neg else x

theorem map_signedDouble {sign : Option Bool} (h : sign ≠ some true) (x : Option Double) :
    x.map (signedDouble sign) = x := by
  have hid : signedDouble sign = id := funext fun _ => if_neg h
  rw [hid, Option.map_id_fun, id]

theorem strtod_leadsTo {s t : Bytes} {sign : Option Bool} (h : LeadsTo s sign t)
    (ht : ∀ c ∈ t.head?, isSpace c = false ∧ c ≠ ch '+' ∧ c ≠ ch '-') :
    strtod s = (readUnsigned t).map (signedDouble sign) := by
  obtain ⟨spaces, hspaces, rfl⟩ := h
  have hhead : ∀ c ∈ (signText sign ++ t).head?, isSpace c = false := by
    match sign with
    | none => exact fun c hc => (ht c hc).1
    | some true | some false =>
      rintro c ⟨⟩
      decide
  unfold strtod
  rw [(takeWhile_run hspaces hhead).2]
  match sign with
  | none =>
    have hplus : t.head? ≠ some (ch '+') := fun h => (ht _ h).2.1 rfl
    have hminus : t.head? ≠ some (ch '-') := fun h => (ht _ h).2.2 rfl
    rw [map_signedDouble (by decide)]
    simp [signText, hplus, hminus]
  | some true =>
    show (readUnsigned t).map Double.neg = _
    rfl
  | some false =>
    have hsign : ch '+' ≠ ch '-' := by decide
    rw [map_signedDouble (by decide)]
    simp [signText, hsign]

/-- What `strtod` skips. -/
theorem exists_leadsTo (s : Bytes) :
    ∃ sign t, LeadsTo s sign t ∧ strtod s = (readUnsigned t).map (signedDouble sign) := by
  have hspaces : ∀ c ∈ s.takeWhile isSpace, isSpace c = true :=
    fun c hc => List.mem_takeWhile_imp hc
  have hsplit := List.takeWhile_append_dropWhile (p := isSpace) (l := s)
  unfold strtod
  dsimp only
  split_ifs with hminus hplus
  · obtain ⟨t, ht⟩ := List.head?_eq_some_iff.mp hminus
    rw [ht] at hsplit ⊢
    exact ⟨some true, t, ⟨_, hspaces, hsplit.symm⟩, rfl⟩
  · obtain ⟨t, ht⟩ := List.head?_eq_some_iff.mp hplus
    rw [ht] at hsplit ⊢
    exact ⟨some false, t, ⟨_, hspaces, hsplit.symm⟩, (map_signedDouble (by decide) _).symm⟩
  · exact ⟨none, _, ⟨_, hspaces, hsplit.symm⟩, (map_signedDouble (by decide) _).symm⟩

theorem signedDouble_finite (sign : Option Bool) (v : ℚ) :
    signedDouble sign (.finite v) = .finite (signed sign v) := by
  unfold signedDouble signed
  split_ifs <;> rfl

/-- A digit or a point is no white space and no sign. -/
theorem head_of_digit {t : Bytes} {c : Byte} (ht : t.head? = some c)
    (hc : isDigit c = true ∨ c = ch '.') :
    ∀ x ∈ t.head?, isSpace x = false ∧ x ≠ ch '+' ∧ x ≠ ch '-' := by
  intro x hx
  obtain rfl := Option.some.inj (ht.symm.trans hx)
  refine ⟨?_, ne_sign hc⟩
  rcases hc with hc | rfl
  · simp only [isDigit, isSpace, decide_eq_true_eq, decide_eq_false_iff_not] at hc ⊢
    omega
  · decide

/-- The numbers `strtod` reads. -/
theorem strtod_eq_finite_iff {s : Bytes} {v : ℚ} :
    strtod s = some (.finite v) ↔ LeadingNumber s v := by
  constructor
  · intro h
    obtain ⟨sign, t, hlead, hread⟩ := exists_leadsTo s
    rw [hread] at h
    obtain ⟨x, hx, hsign⟩ := Option.map_eq_some_iff.mp h
    obtain ⟨w, rfl, rfl⟩ : ∃ w, x = .finite w ∧ v = signed sign w := by
      cases x with
      | finite w =>
        rw [signedDouble_finite] at hsign
        exact ⟨w, rfl, (Double.finite.inj hsign).symm⟩
      | infinity negative => unfold signedDouble at hsign; split_ifs at hsign; cases hsign
      | nan => unfold signedDouble at hsign; split_ifs at hsign; cases hsign
    obtain ⟨n, hn, rfl⟩ := readUnsigned_eq_finite_iff.mp hx
    exact ⟨sign, t, n, hlead, hn, rfl⟩
  · rintro ⟨sign, t, n, hlead, hn, rfl⟩
    obtain ⟨c, ht, hc⟩ := UnsignedText.head_of_prefix hn.1
    rw [strtod_leadsTo hlead (head_of_digit ht hc), readUnsigned_eq_finite_iff.mpr ⟨n, hn, rfl⟩,
      Option.map_some, signedDouble_finite]

theorem head_of_word {w t : Bytes} {x : Byte} (hw : w.head? = some x) (hx : 97 ≤ x.toNat)
    (h : startsWithWord w t = true) :
    ∀ c ∈ t.head?, isSpace c = false ∧ c ≠ ch '+' ∧ c ≠ ch '-' := by
  intro c hc
  obtain ⟨u, rfl⟩ := List.head?_eq_some_iff.mp hc
  have hlower : toLower c = x := by
    by_contra hne
    rw [startsWithWord_cons hw hne] at h
    cases h
  have hletter := le_of_toLower hlower hx
  refine ⟨?_, ?_, ?_⟩
  · simp only [isSpace, decide_eq_false_iff_not]
    omega
  · rintro rfl
    revert hletter
    decide
  · rintro rfl
    revert hletter
    decide

/-- `strtod` reads something that is not finite exactly where there is such a word. -/
theorem strtod_word_iff {s : Bytes} :
    (∃ x, strtod s = some x ∧ ∀ v, x ≠ .finite v) ↔ LeadingWord s := by
  constructor
  · rintro ⟨x, hx, hne⟩
    obtain ⟨sign, t, hlead, hread⟩ := exists_leadsTo s
    refine ⟨sign, t, hlead, ?_⟩
    by_contra hword
    obtain ⟨hinf, hnan⟩ := not_or.mp hword
    rw [hread] at hx
    rcases readUnsigned_cases (eq_false_of_ne_true hinf) (eq_false_of_ne_true hnan) with
      ⟨n, -, hn⟩ | ⟨hnone, -⟩
    · rw [hn, Option.map_some, signedDouble_finite] at hx
      exact hne _ (Option.some.inj hx).symm
    · rw [hnone] at hx
      cases hx
  · rintro ⟨sign, t, hlead, hword⟩
    have hhead : ∀ c ∈ t.head?, isSpace c = false ∧ c ≠ ch '+' ∧ c ≠ ch '-' := by
      rcases hword with h | h
      · exact @head_of_word (bytes "inf") t (ch 'i') rfl (by decide) h
      · exact @head_of_word (bytes "nan") t (ch 'n') rfl (by decide) h
    rw [strtod_leadsTo hlead hhead]
    rcases readUnsigned_of_word hword with h | h
    · refine ⟨_, by rw [h]; rfl, fun v => ?_⟩
      unfold signedDouble
      split_ifs <;> nofun
    · refine ⟨_, by rw [h]; rfl, fun v => ?_⟩
      unfold signedDouble
      split_ifs <;> nofun

/-! ## Plain decimal numbers -/

/-- A decimal number between white space and characters that are in no number. -/
theorem leadingNumber_text {lead trail : Bytes} (sign : Option Bool) (n : NumberText .decimal)
    (hlead : ∀ c ∈ lead, isSpace c = true) (htrail : ∀ c ∈ trail, c.toNat < 43) :
    LeadingNumber (lead ++ (signText sign ++ n.text) ++ trail) (signed sign n.value) := by
  refine ⟨sign, n.text ++ trail, .decimal n, ⟨lead, hlead, ?_⟩, ?_, rfl⟩
  · rw [List.append_assoc, List.append_assoc]
  · apply isLongest_append (n := UnsignedText.decimal n)
    intro m c hc hmem
    have hge := m.mem_text hc
    have hlt := htrail c hmem
    omega

/-- A sign or none, one or more digits, and a point with digits behind it or none. -/
structure Decimal where
  negative : Bool
  whole : List ℕ
  frac : List ℕ
  whole_ne : whole ≠ []
  digits : ∀ d ∈ whole ++ frac, d < 10

/-- What stands behind the sign. -/
def Decimal.unsignedText (d : Decimal) : Bytes :=
  d.whole.map digitByte ++ if d.frac = [] then [] else ch '.' :: d.frac.map digitByte

def Decimal.text (d : Decimal) : Bytes :=
  (if d.negative then [ch '-'] else []) ++ d.unsignedText

def Decimal.value (d : Decimal) : ℚ :=
  (if d.negative then -1 else 1) * (DecimalDigits.value (d.whole ++ d.frac) / 10 ^ d.frac.length)

/-- The same number without its sign, by its characters. -/
def Decimal.numberText (d : Decimal) : NumberText .decimal where
  whole := d.whole.map digitByte
  frac := if d.frac = [] then none else some (d.frac.map digitByte)
  exponent := none
  digits_ne := by simp [d.whole_ne]
  digits_digit := by
    have hdigits := isDigit_of_mem_map d.digits
    rw [List.map_append] at hdigits
    split_ifs with hfrac
    · rw [hfrac] at hdigits
      exact hdigits
    · exact hdigits

theorem Decimal.numberText_text (d : Decimal) : d.numberText.text = d.unsignedText := by
  rw [unsignedText, NumberText.text, NumberText.exponentText]
  dsimp only [numberText]
  split_ifs <;> simp [pointText]

theorem Decimal.numberText_value (d : Decimal) :
    d.numberText.value = DecimalDigits.value (d.whole ++ d.frac) / 10 ^ d.frac.length := by
  have hfrac : (if d.frac = [] then none else some (d.frac.map digitByte)).getD [] =
      d.frac.map digitByte := by
    split_ifs with hfrac
    · rw [hfrac]
      rfl
    · rfl
  have hdigits : Nat.ofDigits 10 ((d.whole.map digitByte ++ d.frac.map digitByte).map
      digitVal).reverse = DecimalDigits.value (d.whole ++ d.frac) := by
    rw [← List.map_append, map_digitVal_digitByte d.digits, value_eq_ofDigits]
  rw [NumberText.value, NumberText.mantissa]
  dsimp only [numberText]
  rw [hfrac, List.length_map, ← hdigits]
  exact mul_one _

theorem strtod_text (d : Decimal) : strtod d.text = some (.finite d.value) := by
  have h := @leadingNumber_text [] [] (if d.negative then some true else none) d.numberText
    nofun nofun
  rw [d.numberText_text, d.numberText_value, List.nil_append, List.append_nil] at h
  rw [strtod_eq_finite_iff, Decimal.text, Decimal.value]
  cases hneg : d.negative with
  | true =>
    rw [if_pos rfl, if_pos rfl, neg_one_mul]
    rwa [hneg] at h
  | false =>
    rw [if_neg (by decide), if_neg (by decide), one_mul]
    rwa [hneg] at h

/-- `stod` reads a plain decimal number in range as what it denotes. -/
theorem stod_text {d : Decimal} (h : StrtodRange d.value) :
    stod d.text = some (.finite d.value) := by
  rw [stod, strtod_text]
  simp [Double.noErange, h]

end NceiCpp
