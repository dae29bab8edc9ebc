import NceiCpp.Models.DataPoint

/-!
# The columns of a collection

The columns come from the header of a delimited text, from the object or from the first
element of the array; the attributes of a record come from its own members.

* `covered_parseDelimited`: the columns of a text cover its records.
* `covered_array_iff`: those of an array cover them exactly when the first element has every
  name.
* `columns_cover_iff`: the same for all decoders.
-/

namespace NceiCpp.Models

open NceiCpp.Core

/-- Every attribute of every record has a column. -/
def Covered (dpc : DataPointCollection) : Prop :=
  ∀ dp ∈ dpc.records, ∀ key ∈ dp.attributes.map Prod.fst, key ∈ dpc.columns

instance (dpc : DataPointCollection) : Decidable (Covered dpc) := by
  unfold Covered
  infer_instance

/-- The member names of an object that become attributes. -/
def attributeKeys : Json → List Bytes
  | .object members => (members.map Prod.fst).filter (· ∉ knownFields)
  | _ => []

/-- Every attribute name of an element is a member name of the first one. -/
def FirstHasAll (items : List Json) : Prop :=
  ∀ item ∈ items, ∀ key ∈ attributeKeys item, ∃ first ∈ items.head?, key ∈ attributeKeys first

/-- `FirstHasAll` for the bodies that are arrays. -/
def FirstRowHasAll : Json → Prop
  | .array items => FirstHasAll items
  | _ => True

/-! ## Delimited text -/

theorem covered_parseDelimited (text : Bytes) (delim : Delimiter) :
    Covered (parseDelimited text delim) := by
  unfold parseDelimited
  cases parse delim text with
  | nil => exact fun dp hdp => absurd hdp List.not_mem_nil
  | cons columns rows =>
    intro dp hdp key hkey
    obtain ⟨values, -, rfl⟩ := List.mem_map.mp hdp
    obtain ⟨field, hfield, rfl⟩ := List.mem_map.mp hkey
    rw [populateFromRow, foldl_attributes, List.nil_append] at hfield
    exact (List.of_mem_zip (List.mem_filter.mp hfield).1).1

/-! ## JSON -/

/-- The attributes of a record are named as the members of its object. -/
theorem keys_populateFromObject (write : Json → Option Bytes) (item : Json) :
    (populateFromObject write item {}).attributes.map Prod.fst = attributeKeys item := by
  cases item with
  | object members =>
    show ((members.filter fun m => m.1 ∉ knownFields).map
      fun m => (m.1, attributeText write m.2)).map Prod.fst = _
    rw [List.map_map, attributeKeys, List.filter_map]
    rfl
  | _ => rfl

theorem mem_attributeKeys {item : Json} {key : Bytes} :
    key ∈ attributeKeys item ↔ key ∈ collectColumns item [] ∧ key ∉ knownFields := by
  cases item with
  | object members =>
    rw [attributeKeys, List.mem_filter, collectColumns, List.nil_append, decide_eq_true_eq]
  | _ => simp [attributeKeys, collectColumns]

theorem covered_object (write : Json → Option Bytes) (root : Json) :
    Covered
      { columns := collectColumns root [], records := [populateFromObject write root {}] } := by
  intro dp hdp key hkey
  rw [List.mem_singleton.mp hdp, keys_populateFromObject] at hkey
  exact (mem_attributeKeys.mp hkey).1

/-- The names an array collects are those of its first element. -/
theorem covered_array_iff (write : Json → Option Bytes) (items : List Json) :
    Covered
        { columns := match items.head? with
            | some item => collectColumns item []
            | none => []
          records := items.map fun item => populateFromObject write item {} } ↔
      FirstHasAll items := by
  have hcolumn : ∀ key, key ∉ knownFields →
      ((key ∈ match items.head? with
        | some item => collectColumns item []
        | none => []) ↔ ∃ first ∈ items.head?, key ∈ attributeKeys first) := by
    intro key hkey
    cases items.head? with
    | none => simp
    | some first => simp [mem_attributeKeys, hkey]
  constructor
  · intro h item hitem key hkey
    have hmem := h _ (List.mem_map_of_mem hitem) key (by rwa [keys_populateFromObject])
    exact (hcolumn key (mem_attributeKeys.mp hkey).2).mp hmem
  · intro h dp hdp key hkey
    obtain ⟨item, hitem, rfl⟩ := List.mem_map.mp hdp
    rw [keys_populateFromObject] at hkey
    exact (hcolumn key (mem_attributeKeys.mp hkey).2).mpr (h item hitem key hkey)

/-- **Columns cover records.** Those of a delimited text always do, and those of a JSON body
    exactly when it is no array or the first element has the name of every attribute. -/
theorem columns_cover_iff (glaze : GlazeGeneric) :
    (∀ text, Covered (parseCsvData text) ∧ Covered (parseSsvData text)) ∧
    ∀ (body : Bytes) (root : Json) (out dpc : DataPointCollection), glaze.read body = .ok root →
      deserializeDataPointCollection glaze body out = (.ok (), dpc) →
      (Covered dpc ↔ FirstRowHasAll root) := by
  refine ⟨fun text => ⟨covered_parseDelimited text _, covered_parseDelimited text _⟩, ?_⟩
  intro body root out dpc hread hdecode
  rw [deserializeDataPointCollection, hread] at hdecode
  cases root with
  | array items =>
    obtain ⟨-, rfl⟩ := Prod.mk.inj hdecode
    exact covered_array_iff glaze.write items
  | object members =>
    obtain ⟨-, rfl⟩ := Prod.mk.inj hdecode
    exact iff_of_true (covered_object glaze.write _) trivial
  | _ => cases (Prod.mk.inj hdecode).1

/-- Two observations of one data type. -/
def oneType : Json :=
  .array
    [.object [(bytes "DATE", .string (bytes "2024-01-01")), (bytes "TMAX", .string (bytes "10"))],
      .object [(bytes "TMAX", .string (bytes "12")), (bytes "DATE", .string (bytes "2024-01-02"))]]

theorem columns_cover_iff_oneType :
    ∃ dpc, deserializeDataPointCollection ⟨fun _ => .ok oneType, fun _ => none⟩ [] {} =
        (.ok (), dpc) ∧
      dpc.records.map DataPoint.attributes =
        [[(bytes "TMAX", bytes "10")], [(bytes "TMAX", bytes "12")]] ∧
      Covered dpc := by
  let glaze : GlazeGeneric := ⟨fun _ => .ok oneType, fun _ => none⟩
  refine ⟨_, rfl, rfl, ((columns_cover_iff glaze).2 [] oneType {} _ rfl rfl).mpr ?_⟩
  intro item hitem key hkey
  refine ⟨_, rfl, ?_⟩
  rcases List.mem_pair.mp hitem with rfl | rfl
  · exact hkey
  · exact hkey

/-- Two observations with different data types. -/
def twoTypes : Json :=
  .array
    [.object [(bytes "DATE", .string (bytes "2024-01-01")), (bytes "TMAX", .string (bytes "10"))],
      .object [(bytes "DATE", .string (bytes "2024-01-02")), (bytes "TMIN", .string (bytes "3"))]]

/-- The second observation has no column for its value. -/
theorem columns_miss_later_keys :
    ∃ dpc, deserializeDataPointCollection ⟨fun _ => .ok twoTypes, fun _ => none⟩ [] {} =
        (.ok (), dpc) ∧
      dpc.columns = [bytes "DATE", bytes "TMAX"] ∧
      dpc.records.map DataPoint.attributes =
        [[(bytes "TMAX", bytes "10")], [(bytes "TMIN", bytes "3")]] ∧
      ¬Covered dpc := by
  refine ⟨_, rfl, rfl, rfl, ?_⟩
  decide

end NceiCpp.Models
