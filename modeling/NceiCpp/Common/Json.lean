import NceiCpp.Common.Bytes

/-!
# JSON values

`Json` is `glz::generic`, the tree Glaze reads a JSON body into. A JSON number is the
exact number its text denotes. The Glaze library is outside the repository: reading a
body is a parameter of the model (`Glaze`), and an object is the list of its members
in the order Glaze iterates over them.
-/

namespace NceiCpp

/-- `glz::generic`. -/
inductive Json
  | null
  | bool (b : Bool)
  | number (v : ℚ)
  | string (s : Bytes)
  | array (items : List Json)
  | object (members : List (Bytes × Json))

namespace Json

/-- `get<std::string>()` of a string. -/
def getString? : Json → Option Bytes
  | string s => some s
  | _ => none

/-- `get_object()` of an object. -/
def getObject? : Json → Option (List (Bytes × Json))
  | object members => some members
  | _ => none

/-- `get_array()` of an array. -/
def getArray? : Json → Option (List Json)
  | array items => some items
  | _ => none

end Json

/-- `object_t::find(key)`. -/
def findMember (members : List (Bytes × Json)) (key : Bytes) : Option Json :=
  members.lookup key

theorem findMember_of_ne {before after : List (Bytes × Json)} {key key' : Bytes} (j : Json)
    (h : key ≠ key') :
    findMember (before ++ (key', j) :: after) key = findMember (before ++ after) key := by
  rw [findMember, findMember, List.lookup_append, List.lookup_append, List.lookup_cons,
    beq_false_of_ne h]

theorem findMember_of_not_mem {before after : List (Bytes × Json)} {key : Bytes} (j : Json)
    (h : key ∉ before.map Prod.fst) :
    findMember (before ++ (key, j) :: after) key = some j := by
  have hbefore : before.lookup key = none := by
    rw [List.lookup_eq_none_iff]
    intro p hp
    rw [bne_iff_ne]
    rintro rfl
    exact h (List.mem_map_of_mem hp)
  rw [findMember, List.lookup_append, hbefore, List.lookup_cons, beq_self_eq_true]
  rfl

end NceiCpp
