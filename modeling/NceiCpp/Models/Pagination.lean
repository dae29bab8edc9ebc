import NceiCpp.Core.Error

/-!
# Pagination metadata and list responses

Models of `include/ncei/pagination.hpp` and `src/models/pagination_detail.hpp`.
`std::int32_t` is `Int32` and `std::int64_t` is `Int64`, so both formulas compute with
the machine's wrap-around.

Glaze is outside the repository. What it finds in a body is a parameter: a `ListReader`
gives the members that are present, or the text of the error. Absent members keep their
defaults.

* `hasMore_iff`, `toInt_nextOffset`: both formulas over the integers, for all `2 ^ 96`
  values of the metadata.
* `nextOffset_of_hasMore`: where `has_more` holds, `next_offset` is exact.
-/

namespace NceiCpp.Models

open NceiCpp.Core

structure ResultSetMetadata where
  offset : Int32 := 0
  count : Int32 := 0
  limit : Int32 := 25
  deriving DecidableEq

structure CDOResponse (T : Type) where
  metadata : ResultSetMetadata := {}
  results : List T := []
  deriving DecidableEq

/-- `std::max` on `std::int32_t`. -/
def maxInt32 (a b : Int32) : Int32 := if a < b then b else a

/-- `std::clamp<std::int64_t>`. -/
def clampInt64 (v lo hi : Int64) : Int64 := if v < lo then lo else if hi < v then hi else v

namespace CDOResponse

variable {T : Type}

/-- `has_more` (lines 23–27). -/
def hasMore (r : CDOResponse T) : Bool :=
  let next := (maxInt32 r.metadata.offset 1).toInt64 + r.metadata.limit.toInt64
  r.metadata.offset ≥ 0 && r.metadata.limit > 0 && next ≤ r.metadata.count.toInt64

/-- `next_offset` (lines 28–32). -/
def nextOffset (r : CDOResponse T) : Int32 :=
  (clampInt64
    ((maxInt32 r.metadata.offset 1).toInt64 + (maxInt32 r.metadata.limit 0).toInt64)
    1 Int32.maxValue.toInt64).toInt32

end CDOResponse

/-! ## List responses -/

/-- The members of a `resultset` object. -/
structure ResultSetMembers where
  offset : Option Int32 := none
  count : Option Int32 := none
  limit : Option Int32 := none

/-- The members of a `{metadata, results}` body. -/
structure EnvelopeMembers (T : Type) where
  metadata : Option (Option ResultSetMembers) := none
  results : Option (List T) := none

abbrev ListReader (T : Type) := Bytes → Except Bytes (EnvelopeMembers T)

structure CDOResponseEnvelope (T : Type) where
  metadata : ResultSetMetadata := {}
  results : List T := []

/-- The `resultset` of a body, with defaults for what is absent. -/
def ResultSetMembers.fill (m : ResultSetMembers) : ResultSetMetadata where
  offset := m.offset.getD ({} : ResultSetMetadata).offset
  count := m.count.getD ({} : ResultSetMetadata).count
  limit := m.limit.getD ({} : ResultSetMetadata).limit

/-- `glz::read` into a default-constructed envelope. -/
def EnvelopeMembers.fill {T : Type} (m : EnvelopeMembers T) : CDOResponseEnvelope T where
  metadata := (m.metadata.join.getD {}).fill
  results := m.results.getD []

/-- `deserialize_cdo_list_impl` (lines 45–55): the result and the value of `out` behind
    the call. -/
def deserializeCdoListImpl {T : Type} (read : ListReader T) (body : Bytes)
    (out : CDOResponse T) : Result Unit × CDOResponse T :=
  match read body with
  | .error ec => (.error (Error.parse ec), out)
  | .ok members =>
    let envelope := members.fill
    (.ok (), { out with metadata := envelope.metadata, results := envelope.results })

/-! ## The formulas over the integers -/

theorem toInt_maxInt32 (a b : Int32) : (maxInt32 a b).toInt = max a.toInt b.toInt := by
  unfold maxInt32
  split_ifs with h
  · rw [Int32.lt_iff_toInt_lt] at h
    omega
  · rw [Int32.lt_iff_toInt_lt] at h
    omega

/-- Two `std::int32_t` add up exactly in `std::int64_t`. -/
theorem toInt_add_toInt64 (a b : Int32) : (a.toInt64 + b.toInt64).toInt = a.toInt + b.toInt := by
  have ha := a.le_toInt
  have ha' := a.toInt_lt
  have hb := b.le_toInt
  have hb' := b.toInt_lt
  rw [Int64.toInt_add, Int32.toInt_toInt64, Int32.toInt_toInt64]
  apply Int.bmod_eq_of_le <;> omega

theorem toInt_clampInt64 {v lo hi : Int64} (h : lo.toInt ≤ hi.toInt) :
    (clampInt64 v lo hi).toInt = max lo.toInt (min v.toInt hi.toInt) := by
  unfold clampInt64
  split_ifs with h1 h2
  · rw [Int64.lt_iff_toInt_lt] at h1
    omega
  · rw [Int64.lt_iff_toInt_lt] at h1 h2
    omega
  · rw [Int64.lt_iff_toInt_lt] at h1 h2
    omega

variable {T : Type}

theorem hasMore_iff (r : CDOResponse T) :
    r.hasMore = true ↔ 0 ≤ r.metadata.offset.toInt ∧ 0 < r.metadata.limit.toInt ∧
      max r.metadata.offset.toInt 1 + r.metadata.limit.toInt ≤ r.metadata.count.toInt := by
  simp only [CDOResponse.hasMore, Bool.and_eq_true, decide_eq_true_eq, ge_iff_le, gt_iff_lt,
    Int32.le_iff_toInt_le, Int32.lt_iff_toInt_lt, Int64.le_iff_toInt_le, toInt_add_toInt64,
    toInt_maxInt32, Int32.toInt_toInt64, and_assoc]
  rfl

theorem toInt_nextOffset (r : CDOResponse T) :
    r.nextOffset.toInt =
      min (max r.metadata.offset.toInt 1 + max r.metadata.limit.toInt 0) (2 ^ 31 - 1) := by
  have hone : (1 : Int64).toInt = 1 := rfl
  have hmax : Int32.maxValue.toInt64.toInt = 2 ^ 31 - 1 := rfl
  have hsum : ((maxInt32 r.metadata.offset 1).toInt64 +
      (maxInt32 r.metadata.limit 0).toInt64).toInt =
        max r.metadata.offset.toInt 1 + max r.metadata.limit.toInt 0 := by
    rw [toInt_add_toInt64, toInt_maxInt32, toInt_maxInt32]
    rfl
  rw [CDOResponse.nextOffset, Int64.toInt_toInt32, toInt_clampInt64 (by rw [hone, hmax]; omega),
    hone, hmax, hsum]
  rw [Int.bmod_eq_of_le] <;> omega

/-- Where there is more, the next offset neither wraps around nor is clamped. -/
theorem nextOffset_of_hasMore {r : CDOResponse T} (h : r.hasMore = true) :
    r.nextOffset.toInt = max r.metadata.offset.toInt 1 + r.metadata.limit.toInt ∧
      r.nextOffset.toInt ≤ r.metadata.count.toInt := by
  obtain ⟨h0, h1, h2⟩ := (hasMore_iff r).mp h
  have hcount := r.metadata.count.toInt_lt
  rw [toInt_nextOffset]
  omega

end NceiCpp.Models
