import NceiCpp.Common.Bytes

/-!
# Percent encoding

Model of `src/url.hpp`, and percent decoding, which the repository does not contain: it
states what a server reads.

* `percentDecode_encode`: decoding an encoded value gives it back.
* `mem_encode`: an encoded value consists of unreserved characters and `%`.
-/

namespace NceiCpp.Api

/-- The characters `encode` copies: letters, digits, `-`, `_`, `.` and `~`. -/
def isUnreserved (c : Byte) : Bool :=
  (c ≥ ch 'a' && c ≤ ch 'z') || (c ≥ ch 'A' && c ≤ ch 'Z') || (c ≥ ch '0' && c ≤ ch '9') ||
    c == ch '-' || c == ch '_' || c == ch '.' || c == ch '~'

/-- `hex[n]`. -/
def hexDigit (n : ℕ) : Byte := (bytes "0123456789ABCDEF").getD n 0

/-- The text `encode` appends for one character. -/
def encodeByte (c : Byte) : Bytes :=
  if isUnreserved c then [c] else [ch '%', hexDigit (c >>> 4).toNat, hexDigit (c &&& 15).toNat]

/-- `detail::encode` (lines 5–19). -/
def encode (value : Bytes) : Bytes := value.flatMap encodeByte

/-! ## Decoding -/

/-- The value of a hexadecimal digit. -/
def unhex (c : Byte) : Option ℕ :=
  if ch '0' ≤ c ∧ c ≤ ch '9' then some (c.toNat - 48)
  else if ch 'A' ≤ c ∧ c ≤ ch 'F' then some (c.toNat - 55)
  else if ch 'a' ≤ c ∧ c ≤ ch 'f' then some (c.toNat - 87)
  else none

/-- Percent decoding: a `%` with two hexadecimal digits is the byte they denote; every
    other character stands for itself. -/
def percentDecode : Bytes → Bytes
  | c :: a :: b :: rest =>
    if c = ch '%' then
      match unhex a, unhex b with
      | some h, some l => UInt8.ofNat (16 * h + l) :: percentDecode rest
      | _, _ => c :: percentDecode (a :: b :: rest)
    else c :: percentDecode (a :: b :: rest)
  | s => s

theorem unhex_hexDigit : ∀ n < 16, unhex (hexDigit n) = some n := by decide

theorem isUnreserved_hexDigit : ∀ n < 16, isUnreserved (hexDigit n) = true := by decide

theorem toNat_high (c : Byte) : (c >>> 4).toNat = c.toNat / 16 := by
  rw [UInt8.toNat_shiftRight, Nat.shiftRight_eq_div_pow]
  rfl

theorem toNat_low (c : Byte) : (c &&& 15).toNat = c.toNat % 16 := by
  rw [UInt8.toNat_and]
  exact Nat.and_two_pow_sub_one_eq_mod c.toNat 4

theorem not_isUnreserved_percent : isUnreserved (ch '%') = false := by decide

theorem percentDecode_cons {c : Byte} (h : c ≠ ch '%') (rest : Bytes) :
    percentDecode (c :: rest) = c :: percentDecode rest := by
  match rest with
  | [] => rfl
  | [_] => rfl
  | _ :: _ :: _ => rw [percentDecode, if_neg h]

theorem percentDecode_encodeByte (c : Byte) (rest : Bytes) :
    percentDecode (encodeByte c ++ rest) = c :: percentDecode rest := by
  unfold encodeByte
  split_ifs with h
  · have hne : c ≠ ch '%' := by
      rintro rfl
      rw [not_isUnreserved_percent] at h
      exact absurd h (by simp)
    rw [List.singleton_append, percentDecode_cons hne]
  · have hlt := c.toNat_lt
    rw [toNat_high, toNat_low]
    simp only [List.cons_append, List.nil_append]
    rw [percentDecode, if_pos rfl, unhex_hexDigit _ (by omega), unhex_hexDigit _ (by omega)]
    simp only [List.cons.injEq, and_true]
    rw [show 16 * (c.toNat / 16) + c.toNat % 16 = c.toNat by omega, UInt8.ofNat_toNat]

theorem percentDecode_encode (value : Bytes) : percentDecode (encode value) = value := by
  induction value with
  | nil => rfl
  | cons c value ih => rw [encode, List.flatMap_cons, percentDecode_encodeByte, ← encode, ih]

/-- An encoded value has unreserved characters and `%` only. -/
theorem mem_encode {value : Bytes} {c : Byte} (h : c ∈ encode value) :
    isUnreserved c = true ∨ c = ch '%' := by
  obtain ⟨x, -, hx⟩ := List.mem_flatMap.mp h
  unfold encodeByte at hx
  split_ifs at hx with hu
  · rw [List.mem_singleton] at hx
    exact .inl (hx ▸ hu)
  · have hlt := x.toNat_lt
    rw [toNat_high, toNat_low] at hx
    simp only [List.mem_cons, List.not_mem_nil, or_false] at hx
    rcases hx with rfl | rfl | rfl
    · exact .inr rfl
    · exact .inl (isUnreserved_hexDigit _ (by omega))
    · exact .inl (isUnreserved_hexDigit _ (by omega))

theorem not_mem_encode {value : Bytes} {c : Byte} (h : isUnreserved c = false) (hc : c ≠ ch '%') :
    c ∉ encode value := by
  intro hmem
  rcases mem_encode hmem with hu | hp
  · rw [h] at hu
    exact absurd hu (by simp)
  · exact hc hp

/-- Text of unreserved characters is its own encoding. -/
theorem encode_eq_self {value : Bytes} (h : ∀ c ∈ value, isUnreserved c = true) :
    encode value = value := by
  induction value with
  | nil => rfl
  | cons c value ih =>
    rw [encode, List.flatMap_cons, encodeByte, if_pos (h c List.mem_cons_self), ← encode,
      ih fun x hx => h x (List.mem_cons_of_mem c hx), List.singleton_append]

theorem isUnreserved_formatInt (n : ℤ) : ∀ c ∈ formatInt n, isUnreserved c = true := by
  have hdigit : ∀ d < 10, isUnreserved (digitByte d) = true := by decide
  have hnat : ∀ m, ∀ c ∈ formatNat m, isUnreserved c = true := by
    intro m c hc
    obtain ⟨d, hd, rfl⟩ := List.mem_map.mp hc
    exact hdigit d (DecimalDigits.digitsOf_lt hd)
  intro c hc
  unfold formatInt at hc
  split_ifs at hc
  · rcases List.mem_cons.mp hc with rfl | hc
    · decide
    · exact hnat _ c hc
  · exact hnat _ c hc

end NceiCpp.Api
