import NceiCpp.Common.Strtod
import NceiCpp.Models.ClimateIndex

/-!
# The three readers of a numeric cell

A cell is read as a coordinate by `std::stod`, and as an attribute by `get_double` and as a
climate value by `parse_value`, both of which use `std::from_chars` on the whole text.

* `readNumber_eq_iff`: what `get_double` reads from a text without blanks around it.
* `parseValue_of_getDouble`: `parse_value` reads the same, but for the missing markers.
* `numeric_cells_iff`: the cells on which the coordinates agree with the two.
* `numeric_cells_trailing_text`: `47.5abc` is a coordinate.
-/

namespace NceiCpp.Models

/-! ## Whole texts -/

theorem readWhole_signed_iff {t : Bytes} {x : Double} :
    readWhole t = some x ↔ ∃ (sign : Option Bool) (n : NumberText .decimal), sign ≠ some false ∧
      t = signText sign ++ n.text ∧ x = .finite (signed sign n.value) ∧ InRange n.value := by
  rw [readWhole_eq_iff]
  constructor
  · rintro ⟨v, rfl, hread⟩
    obtain ⟨sign, n, hsign, htext, rfl, hrange⟩ := fromCharsDouble_eq_iff.mp hread
    exact ⟨sign, n, hsign, htext, rfl, inRange_signed.mp hrange⟩
  · rintro ⟨sign, n, hsign, htext, rfl, hrange⟩
    exact ⟨_, rfl, fromCharsDouble_eq_iff.mpr
      ⟨sign, n, hsign, htext, rfl, inRange_signed.mpr hrange⟩⟩

theorem head_signText {sign : Option Bool} (n : NumberText .decimal) {c : Byte}
    (h : (signText sign ++ n.text).head? = some c) :
    (c = ch '+' ↔ sign = some false) ∧ (c = ch '-' ↔ sign = some true) := by
  match sign with
  | none =>
    obtain ⟨d, t, htext, hd⟩ := n.text_eq_cons
    rw [signText, List.nil_append, htext] at h
    obtain rfl := Option.some.inj h
    simp [ne_sign hd]
  | some true =>
    obtain rfl : ch '-' = c := Option.some.inj h
    decide
  | some false =>
    obtain rfl : ch '+' = c := Option.some.inj h
    decide

/-- What `get_double` reads from a text without blanks around it: a number behind a sign or none. -/
theorem readNumber_eq_iff {t : Bytes} {x : Double} :
    readNumber t = some x ↔ ∃ (sign : Option Bool) (n : NumberText .decimal),
      t = signText sign ++ n.text ∧ x = .finite (signed sign n.value) ∧ InRange n.value := by
  unfold readNumber
  by_cases hplus : t.head? = some (ch '+')
  · obtain ⟨u, rfl⟩ := List.head?_eq_some_iff.mp hplus
    simp only [hplus, if_true, List.tail_cons, true_and]
    constructor
    · intro h
      split_ifs at h with hu
      obtain ⟨sign, n, hsign, rfl, rfl, hrange⟩ := readWhole_signed_iff.mp h
      -- the second sign would have been refused
      have hnone : sign = none := by
        match sign with
        | none => rfl
        | some true => exact absurd (.inr (.inr rfl)) hu
        | some false => exact absurd rfl hsign
      subst hnone
      exact ⟨some false, n, rfl, rfl, hrange⟩
    · rintro ⟨sign, n, htext, rfl, hrange⟩
      rw [htext] at hplus
      obtain rfl := (head_signText n hplus).1.mp rfl
      have hu : u = n.text := (List.cons.inj htext).2
      obtain ⟨c, t, hcons, hc⟩ := n.text_eq_cons
      obtain ⟨h1, h2⟩ := ne_sign hc
      rw [hu, if_neg (by simp [hcons, h1, h2])]
      exact readWhole_signed_iff.mpr ⟨none, n, by decide, rfl, rfl, hrange⟩
  · simp only [hplus, if_false, false_and]
    rw [readWhole_signed_iff]
    constructor
    · rintro ⟨sign, n, -, htext, hx, hrange⟩
      exact ⟨sign, n, htext, hx, hrange⟩
    · rintro ⟨sign, n, rfl, hx, hrange⟩
      refine ⟨sign, n, ?_, rfl, hx, hrange⟩
      rintro rfl
      exact hplus rfl

/-! ## Cells -/

/-- The cell is the text of a number behind a sign or none, between blanks. -/
def PlainNumber (s : Bytes) (v : ℚ) : Prop :=
  ∃ (sign : Option Bool) (n : NumberText .decimal) (lead trail : Bytes),
    (∀ c ∈ lead ++ trail, isBlank c = true) ∧ s = lead ++ (signText sign ++ n.text) ++ trail ∧
      v = signed sign n.value

theorem isBlank_text (sign : Option Bool) (n : NumberText .decimal) :
    ∀ c ∈ signText sign ++ n.text, isBlank c = false := by
  intro c hc
  apply isBlank_eq_false
  rcases List.mem_append.mp hc with hc | hc
  · match sign with
    | none => cases hc
    | some true | some false =>
      rw [List.mem_singleton.mp hc]
      decide
  · exact (UnsignedText.decimal n).mem_text hc

/-- `get_double` reads plain numbers in range, and nothing else. -/
theorem getDouble_eq_iff {dp : DataPoint} {key s : Bytes} (h : dp.get key = some s) {x : Double} :
    dp.getDouble key = some x ↔ ∃ v, x = .finite v ∧ PlainNumber s v ∧ InRange v := by
  rw [DataPoint.getDouble_of_get h, readNumber_eq_iff]
  constructor
  · rintro ⟨sign, n, htext, hx, hrange⟩
    obtain ⟨lead, trail, hs, hblank⟩ := Trim.exists_trim isBlank s
    rw [htext] at hs
    exact ⟨_, hx, ⟨sign, n, lead, trail, hblank, hs, rfl⟩, inRange_signed.mpr hrange⟩
  · rintro ⟨v, hx, ⟨sign, n, lead, trail, hblank, rfl, rfl⟩, hrange⟩
    exact ⟨sign, n, trim_blanks hblank (isBlank_text sign n), hx, inRange_signed.mp hrange⟩

/-- `parse_value` reads what `get_double` does, but for the missing markers. -/
theorem parseValue_of_getDouble {dp : DataPoint} {key s : Bytes} (h : dp.get key = some s) :
    parseValue s = if IsMissing (trim s) then none else dp.getDouble key := by
  rw [parseValue_eq, DataPoint.getDouble_of_get h]
  rfl

theorem isSpace_of_isBlank {c : Byte} (h : isBlank c = true) : isSpace c = true := by
  rw [isBlank, decide_eq_true_eq] at h
  fin_cases h <;> decide

/-- `strtod` reads a plain number too. -/
theorem PlainNumber.leadingNumber {s : Bytes} {v : ℚ} (h : PlainNumber s v) :
    LeadingNumber s v := by
  obtain ⟨sign, n, lead, trail, hblank, rfl, rfl⟩ := h
  apply leadingNumber_text
  · exact fun c hc => isSpace_of_isBlank (hblank c (List.mem_append_left _ hc))
  · intro c hc
    by_contra hge
    have hblank := hblank c (List.mem_append_right _ hc)
    rw [isBlank_eq_false (not_lt.mp hge)] at hblank
    cases hblank

theorem readCoordinate_eq (s : Bytes) : readCoordinate s =
    match strtod s with
    | some (.finite v) => if StrtodRange v then .finite v else 0
    | some x => x
    | none => 0 := by
  unfold readCoordinate stod
  match strtod s with
  | some (.finite v) =>
    rw [Option.filter_some]
    by_cases h : StrtodRange v <;> simp [Double.noErange, h]
  | some (.infinity negative) | some .nan | none => rfl

/-- What the three readers make of the cell is the same: a coordinate is what `get_double`
    returns for an attribute with this text, or `0.0`, and `parse_value` accepts what
    `get_double` does, but for the missing markers. -/
structure ReadAlike (s : Bytes) : Prop where
  coordinates : ∀ (dp dp' : DataPoint) (key : Bytes), dp'.get key = some s →
    let v := (dp'.getDouble key).getD 0
    (populateField dp (bytes "LATITUDE", s)).latitude = v ∧
      (populateField dp (bytes "LONGITUDE", s)).longitude = v ∧
      (populateField dp (bytes "ELEVATION", s)).elevation = v
  climate : ∀ (dp : DataPoint) (key : Bytes), dp.get key = some s →
    parseValue s = if IsMissing (trim s) then none else dp.getDouble key

/-- A plain number does not underflow, and any other cell starts with no number but zero or one
    out of range, and with no infinity or `nan`. -/
structure OneReading (s : Bytes) : Prop where
  plain : ∀ v, PlainNumber s v → InRange v → StrtodRange v
  other : (∀ v, PlainNumber s v → ¬InRange v) →
    ¬LeadingWord s ∧ ∀ v, LeadingNumber s v → v = 0 ∨ ¬StrtodRange v

theorem populateField_coordinates (dp : DataPoint) (s : Bytes) :
    (populateField dp (bytes "LATITUDE", s)).latitude = readCoordinate s ∧
      (populateField dp (bytes "LONGITUDE", s)).longitude = readCoordinate s ∧
      (populateField dp (bytes "ELEVATION", s)).elevation = readCoordinate s := ⟨rfl, rfl, rfl⟩

/-- The coordinate of a plain number. -/
theorem readCoordinate_plain_iff {s : Bytes} {v : ℚ} (h : PlainNumber s v) :
    readCoordinate s = .finite v ↔ StrtodRange v := by
  rw [readCoordinate_eq, strtod_eq_finite_iff.mpr h.leadingNumber]
  dsimp only
  split_ifs with hrange
  · exact iff_of_true rfl hrange
  · refine iff_of_false ?_ hrange
    intro hzero
    exact hrange (.inl (Double.finite.inj hzero).symm)

/-- When the coordinate of a cell is `0.0`. -/
theorem readCoordinate_eq_zero_iff {s : Bytes} : readCoordinate s = 0 ↔
    ¬LeadingWord s ∧ ∀ v, LeadingNumber s v → v = 0 ∨ ¬StrtodRange v := by
  rw [readCoordinate_eq, ← strtod_word_iff]
  simp only [← strtod_eq_finite_iff]
  match strtod s with
  | none => simp
  | some (.finite v) =>
    by_cases hrange : StrtodRange v
    · have hzero : Double.finite v = 0 ↔ v = 0 := ⟨Double.finite.inj, congrArg _⟩
      simp [hrange, hzero]
    · simp [hrange]
  | some (.infinity negative) | some .nan =>
    refine iff_of_false nofun ?_
    rintro ⟨hword, -⟩
    exact hword ⟨_, rfl, nofun⟩

/-- The coordinate against the reader of an attribute with this text. -/
theorem readCoordinate_getDouble_iff {dp : DataPoint} {key s : Bytes} (hget : dp.get key = some s) :
    readCoordinate s = (dp.getDouble key).getD 0 ↔ OneReading s := by
  by_cases hplain : ∃ v, PlainNumber s v ∧ InRange v
  · obtain ⟨v, hv, hrange⟩ := hplain
    have hread := (getDouble_eq_iff hget).mpr ⟨v, rfl, hv, hrange⟩
    rw [hread, Option.getD_some, readCoordinate_plain_iff hv]
    constructor
    · intro h
      refine ⟨fun w hw hwrange => ?_, fun hnone => absurd hrange (hnone v hv)⟩
      have hw := (getDouble_eq_iff hget).mpr ⟨w, rfl, hw, hwrange⟩
      rw [hread] at hw
      rwa [← Double.finite.inj (Option.some.inj hw)]
    · intro h
      exact h.plain v hv hrange
  · have hnone : ∀ v, PlainNumber s v → ¬InRange v := fun v hv hr => hplain ⟨v, hv, hr⟩
    have hread : dp.getDouble key = none := by
      rw [Option.eq_none_iff_forall_ne_some]
      intro x hx
      obtain ⟨v, -, hv⟩ := (getDouble_eq_iff hget).mp hx
      exact hplain ⟨v, hv⟩
    rw [hread, Option.getD_none, readCoordinate_eq_zero_iff]
    constructor
    · intro h
      exact ⟨fun v hv hr => absurd hr (hnone v hv), fun _ => h⟩
    · intro h
      exact h.other hnone

/-- The cells the three readers read alike. -/
theorem numeric_cells_iff (s : Bytes) : ReadAlike s ↔ OneReading s := by
  constructor
  · intro h
    have hget : DataPoint.get { attributes := [([], s)] } [] = some s := rfl
    rw [← readCoordinate_getDouble_iff hget, ← (populateField_coordinates {} s).1]
    exact (h.coordinates {} _ [] hget).1
  · intro h
    refine ⟨fun dp dp' key hget => ?_, fun dp key hget => parseValue_of_getDouble hget⟩
    obtain ⟨hlatitude, hlongitude, helevation⟩ := populateField_coordinates dp s
    rw [hlatitude, hlongitude, helevation, (readCoordinate_getDouble_iff hget).mpr h]
    exact ⟨rfl, rfl, rfl⟩

/-! ## A number with text behind it -/

theorem readMantissa_trailing : readMantissa 10 isDigit digitVal (bytes "47.5abc") =
    some (95 / 2, bytes "abc") := by
  have hrest : ∀ c ∈ (bytes "abc").head?, isDigit c = false ∧ c ≠ ch '.' := by
    rintro c ⟨⟩
    decide
  have h := @readMantissa_append 10 isDigit digitVal (by decide) (bytes "47") (some (bytes "5"))
    (by decide) (List.all_eq_true.mp rfl) (bytes "abc") hrest
  rw [show bytes "47.5abc" = bytes "47" ++ pointText (some (bytes "5")) ++ bytes "abc" from rfl, h,
    show Nat.ofDigits 10 _ = 475 from rfl, show List.length _ = 1 from rfl]
  norm_num

theorem strtod_trailing : strtod (bytes "47.5abc") = some (.finite (95 / 2)) := by
  have hexp : readExponent (ch 'e') (bytes "abc") = 0 := rfl
  have hlead : LeadsTo (bytes "47.5abc") none (bytes "47.5abc") := ⟨[], nofun, rfl⟩
  rw [strtod_leadsTo hlead (head_of_digit rfl (.inl (by decide))), map_signedDouble (by decide),
    readUnsigned, if_neg (by decide), if_neg (by decide), if_neg (by decide),
    readMantissa_trailing, Option.map_some, hexp, zpow_zero, mul_one]

theorem readWhole_trailing : readWhole (bytes "47.5abc") = none := by
  have hafter : afterExponent (ch 'e') (bytes "abc") = bytes "abc" := rfl
  rw [readWhole, fromCharsDouble, if_neg (by decide), fromCharsUnsigned, if_neg (by decide),
    if_neg (by decide), if_neg (by decide), readMantissa_trailing]
  dsimp only
  rw [hafter]
  split_ifs <;> rfl

/-- `47.5abc` is the latitude `47.5`, and no attribute. -/
theorem numeric_cells_trailing_text :
    let s := bytes "47.5abc"
    ¬ReadAlike s ∧ (populateField {} (bytes "LATITUDE", s)).latitude = .finite (95 / 2) ∧
      DataPoint.getDouble { attributes := [(bytes "TMAX", s)] } (bytes "TMAX") = none := by
  intro s
  have hlatitude : readCoordinate s = .finite (95 / 2) := by
    have hrange : StrtodRange (95 / 2) :=
      strtodRange_of_le (by norm_num [abs_of_pos]) (by norm_num [abs_of_pos])
    rw [readCoordinate_eq, strtod_trailing]
    exact if_pos hrange
  have hget : DataPoint.get { attributes := [(bytes "TMAX", s)] } (bytes "TMAX") = some s := rfl
  have hnone : DataPoint.getDouble { attributes := [(bytes "TMAX", s)] } (bytes "TMAX") = none := by
    rw [DataPoint.getDouble_of_get hget]
    exact readWhole_trailing
  refine ⟨?_, hlatitude, hnone⟩
  intro h
  have heq := (h.coordinates {} _ _ hget).1
  rw [hnone, (populateField_coordinates {} s).1, hlatitude] at heq
  exact absurd (Double.finite.inj heq) (by norm_num)

end NceiCpp.Models
