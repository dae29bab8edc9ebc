import NceiCpp.Models.DataPoint

/-!
# Numbers among the attributes of a JSON object

`populate_data_point_from_object` stores a JSON number as the text `std::to_string` makes of
it, with six digits behind the point, and `get_double` reads the text.

* `getDouble_toStringDouble`: what is read back.
* `numeric_attribute_iff`: a number survives exactly if it is a multiple of a millionth.
* `numeric_attribute_lost`: a smaller number is read as `0`.
-/

namespace NceiCpp.Models

open NceiCpp.Core

/-- The JSON values that become the records of `deserialize_data_point_collection`. -/
def recordItems : Json → List Json
  | .array items => items
  | .object members => [.object members]
  | _ => []

theorem deserialize_record {glaze : GlazeGeneric} {body : Bytes} {root item : Json} {i : ℕ}
    (hread : glaze.read body = .ok root) (hitem : (recordItems root)[i]? = some item)
    (out : DataPointCollection) :
    (deserializeDataPointCollection glaze body out).1 = .ok () ∧
      (deserializeDataPointCollection glaze body out).2.records[i]? =
        some (populateFromObject glaze.write item {}) := by
  unfold deserializeDataPointCollection
  rw [hread]
  match root with
  | .array items =>
    refine ⟨rfl, ?_⟩
    show (items.map fun item => populateFromObject glaze.write item {})[i]? = _
    rw [List.getElem?_map, show items[i]? = some item from hitem]
    rfl
  | .object members =>
    obtain ⟨hi, heq⟩ := List.getElem?_eq_some_iff.mp hitem
    obtain rfl : i = 0 := Nat.lt_one_iff.mp hi
    rw [← heq]
    exact ⟨rfl, rfl⟩
  | .null | .bool _ | .number _ | .string _ => simp [recordItems] at hitem

/-- A member that is no known field is an attribute, the first of its name. -/
theorem get_populateFromObject (write : Json → Option Bytes) (front back : List (Bytes × Json))
    (j : Json) {key : Bytes} (hkey : key ∉ knownFields) (hfront : key ∉ front.map Prod.fst) :
    (populateFromObject write (.object (front ++ (key, j) :: back)) {}).get key =
      some (attributeText write j) := by
  show (((front ++ (key, j) :: back).filter fun m => m.1 ∉ knownFields).map fun m =>
    (m.1, attributeText write m.2)).lookup key = _
  rw [AssocList.lookup_map_snd, AssocList.lookup_filter (fun k => k ∉ knownFields),
    if_pos (by simpa using hkey), ← findMember, findMember_of_not_mem j hfront]
  rfl

/-- What is read from the text `std::to_string` makes of `v`. -/
theorem getDouble_toStringDouble {dp : DataPoint} {key : Bytes} {v : ℚ}
    (h : dp.get key = some (toStringDouble v)) :
    dp.getDouble key =
      if InRange (sixDecimals v).value then some (.finite (sixDecimals v).value) else none := by
  have hbare : Trim.Bare isBlank (sixDecimals v).text :=
    .of_forall fun c hc => isBlank_eq_false ((sixDecimals v).mem_text hc)
  have htrim : Trim.trim isBlank (sixDecimals v).text = (sixDecimals v).text := by
    simpa using @Trim.trim_append _ _ [] _ [] (by simp) hbare (by simp)
  have hread := @readNumber_text (sixDecimals v) false nofun
  rw [if_neg (by decide), List.nil_append] at hread
  rw [DataPoint.getDouble_of_get h, toStringDouble_eq, htrim, hread]

/-- A number among the members of a record, under a name that is no known field, is read back
    as itself exactly if six digits behind the point are enough for it. (`InRange` holds of
    every finite `double`.) -/
theorem numeric_attribute_iff {glaze : GlazeGeneric} {body : Bytes} {root : Json} {i : ℕ}
    {front back : List (Bytes × Json)} {key : Bytes} {v : ℚ} (hread : glaze.read body = .ok root)
    (hitem : (recordItems root)[i]? = some (.object (front ++ (key, .number v) :: back)))
    (hkey : key ∉ knownFields) (hfront : key ∉ front.map Prod.fst) (out : DataPointCollection) :
    (∃ dp, (deserializeDataPointCollection glaze body out).1 = .ok () ∧
        (deserializeDataPointCollection glaze body out).2.records[i]? = some dp ∧
        dp.getDouble key = some (.finite v)) ↔
      (v * 10 ^ 6).den = 1 ∧ InRange v := by
  obtain ⟨hok, hrecord⟩ := deserialize_record hread hitem out
  have hget := getDouble_toStringDouble
    (get_populateFromObject glaze.write front back (.number v) hkey hfront)
  constructor
  · rintro ⟨dp, -, hdp, hvalue⟩
    obtain rfl := Option.some.inj (hrecord.symm.trans hdp)
    rw [hget] at hvalue
    split_ifs at hvalue with hrange
    have heq : (sixDecimals v).value = v := by
      injection hvalue with hvalue
      injection hvalue
    rw [heq] at hrange
    exact ⟨(sixDecimals_value_eq_iff v).mp heq, hrange⟩
  · rintro ⟨hsix, hrange⟩
    have heq := (sixDecimals_value_eq_iff v).mpr hsix
    refine ⟨_, hok, hrecord, ?_⟩
    rw [hget, heq, if_pos hrange]

/-! ## A record with one number -/

/-- A record with the number `v`. -/
def temperatureRecord (v : ℚ) : Json := .object [(bytes "TMAX", .number v)]

/-- Glaze on the text of such a record. -/
def temperatureGlaze (body : Bytes) (v : ℚ) : GlazeGeneric where
  read b := if b = body then .ok (temperatureRecord v) else .error (bytes "syntax_error")
  write _ := none

theorem temperatureGlaze_read (body : Bytes) (v : ℚ) :
    (temperatureGlaze body v).read body = .ok (temperatureRecord v) := if_pos rfl

/-- `122` is read back. -/
theorem numeric_attribute_iff_integer :
    let body := bytes "\x7b\"TMAX\":122\x7d"
    ∃ dp, (deserializeDataPointCollection (temperatureGlaze body 122) body {}).2.records[0]? =
        some dp ∧ dp.getDouble (bytes "TMAX") = some (.finite 122) := by
  intro body
  have hiff := @numeric_attribute_iff _ body _ 0 [] [] (bytes "TMAX") 122
    (temperatureGlaze_read body 122) rfl (by decide) (by simp) {}
  have hrange : InRange 122 := inRange_of_le (by norm_num) (by norm_num)
  obtain ⟨dp, -, hdp, hvalue⟩ := hiff.mpr ⟨by norm_num, hrange⟩
  exact ⟨dp, hdp, hvalue⟩

/-- `0.0000001` is read back as `0`. -/
theorem numeric_attribute_lost :
    let body := bytes "\x7b\"TMAX\":0.0000001\x7d"
    let glaze := temperatureGlaze body (1 / 10 ^ 7)
    glaze.read body = .ok (temperatureRecord (1 / 10 ^ 7)) ∧ InRange (1 / 10 ^ 7) ∧
      (deserializeDataPointCollection glaze body {}).2.records.map (·.getDouble (bytes "TMAX")) =
        [some (.finite 0)] := by
  intro body glaze
  have hread := temperatureGlaze_read body (1 / 10 ^ 7)
  have hzero : (sixDecimals (1 / 10 ^ 7)).value = 0 := by
    have hmillionths : millionths (1 / 10 ^ 7) = 0 := by
      norm_num [millionths, roundHalfEven, abs_of_pos]
    rw [Numeral.value, sixDecimals_magnitude, hmillionths]
    simp
  have hget := getDouble_toStringDouble (get_populateFromObject glaze.write [] []
    (.number (1 / 10 ^ 7)) (show bytes "TMAX" ∉ knownFields by decide) (by simp))
  refine ⟨hread, inRange_of_le (by norm_num [abs_of_pos]) (by norm_num [abs_of_pos]), ?_⟩
  rw [deserializeDataPointCollection, hread]
  show [DataPoint.getDouble _ (bytes "TMAX")] = _
  rw [hzero, if_pos (.inl rfl)] at hget
  exact congrArg (fun v => [v]) hget

end NceiCpp.Models
