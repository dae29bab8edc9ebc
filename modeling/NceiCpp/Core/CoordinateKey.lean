import NceiCpp.Core.Cache
import NceiCpp.Lib.LruKeys

/-!
# Coordinates as keys

Model of `CoordinateKey` and its hash (`include/ncei/cache.hpp`, lines 119–141). A `double`
is given by its bits, and `==` of two of them compares what they mean; `std::hash<double>` is a
parameter that has the same value on equal numbers.

* `DoubleBits.value_inj`: only the two zeros are equal and have different bits.
* `CoordinateKey.beq_iff_place`: two keys are equal if they mean the same place. That is an
  equivalence that the hash respects, so `CoordinateKey` is a lawful key type.
* `run_places`: the cache over coordinates is an LRU list over places.
-/

namespace NceiCpp.Core

/-! ## `double` -/

/-- The bits of a `double`: the sign, 11 bits of exponent and 52 of fraction. -/
abbrev DoubleBits := BitVec 64

/-- What a `double` means; finite ones are multiples of `2 ^ (-1074)`. -/
inductive DoubleValue
  | nan
  | infinite (negative : Bool)
  | finite (units : ℤ)
  deriving DecidableEq

namespace DoubleBits

def exponent (x : DoubleBits) : ℕ := x.toNat / 2 ^ 52 % 2 ^ 11

def fraction (x : DoubleBits) : ℕ := x.toNat % 2 ^ 52

/-- The finite `double` without its sign, in units of `2 ^ (-1074)`. -/
def magnitude (x : DoubleBits) : ℕ :=
  if exponent x = 0 then fraction x else (2 ^ 52 + fraction x) * 2 ^ (exponent x - 1)

def value (x : DoubleBits) : DoubleValue :=
  if exponent x = 2047 then if fraction x = 0 then .infinite x.msb else .nan
  else .finite (if x.msb then -magnitude x else magnitude x)

/-- `std::isnan`. -/
def isNan (x : DoubleBits) : Bool := value x = .nan

/-- `==` of two `double`s: nothing is equal to NaN. -/
def eq (x y : DoubleBits) : Bool := !isNan x && !isNan y && value x = value y

theorem fraction_lt (x : DoubleBits) : fraction x < 2 ^ 52 := Nat.mod_lt _ (by norm_num)

theorem magnitude_lt (x : DoubleBits) : magnitude x < 2 ^ 52 * 2 ^ exponent x := by
  have hfraction := fraction_lt x
  unfold magnitude
  split_ifs with h
  · rw [h, pow_zero, mul_one]
    exact hfraction
  · obtain ⟨e, he⟩ := Nat.exists_eq_succ_of_ne_zero h
    have hpow : 2 ^ 52 * 2 ^ exponent x = (2 ^ 52 + 2 ^ 52) * 2 ^ (exponent x - 1) := by
      rw [he, Nat.succ_sub_one, pow_succ 2 e]
      ring
    rw [hpow]
    exact Nat.mul_lt_mul_of_pos_right (by omega) (by positivity)

/-- A larger exponent makes a larger number. -/
theorem magnitude_lt_of_exponent {x y : DoubleBits} (h : exponent x < exponent y) :
    magnitude x < magnitude y := by
  have hle : 2 ^ 52 * 2 ^ exponent x ≤ magnitude y := by
    rw [magnitude, if_neg (by omega)]
    exact Nat.mul_le_mul (by omega) (Nat.pow_le_pow_right (by decide) (by omega))
  exact (magnitude_lt x).trans_le hle

theorem magnitude_inj {x y : DoubleBits} (h : magnitude x = magnitude y) :
    exponent x = exponent y ∧ fraction x = fraction y := by
  have hexponent : exponent x = exponent y := by
    rcases Nat.lt_trichotomy (exponent x) (exponent y) with hlt | heq | hlt
    · exact absurd h (magnitude_lt_of_exponent hlt).ne
    · exact heq
    · exact absurd h (magnitude_lt_of_exponent hlt).ne'
  refine ⟨hexponent, ?_⟩
  unfold magnitude at h
  rw [hexponent] at h
  split_ifs at h
  · exact h
  · have := Nat.eq_of_mul_eq_mul_right (by positivity) h
    omega

/-- The fields are all there is. -/
theorem eq_of_fields {x y : DoubleBits} (hsign : x.msb = y.msb)
    (hexponent : exponent x = exponent y) (hfraction : fraction x = fraction y) : x = y := by
  have hx := x.isLt
  have hy := y.isLt
  rw [BitVec.msb_eq_decide, BitVec.msb_eq_decide, decide_eq_decide] at hsign
  unfold exponent at hexponent
  unfold fraction at hfraction
  apply BitVec.eq_of_toNat_eq
  omega

/-- `0.0` or `-0.0`. -/
def isZero (x : DoubleBits) : Bool := x.toNat % 2 ^ 63 = 0

theorem isZero_of_magnitude {x : DoubleBits} (h : magnitude x = 0) : isZero x = true := by
  have hzero : magnitude (0 : DoubleBits) = 0 := by decide
  obtain ⟨hexponent, hfraction⟩ := magnitude_inj (h.trans hzero.symm)
  have hx : exponent x = 0 ∧ fraction x = 0 := ⟨hexponent, hfraction⟩
  have hlt := x.isLt
  unfold exponent fraction at hx
  rw [isZero, decide_eq_true_eq]
  omega

/-- Equal numbers are both zero or have the same bits. -/
theorem value_inj {x y : DoubleBits} (hx : isNan x = false) (h : value x = value y) :
    isZero x = true ∧ isZero y = true ∨ x = y := by
  have hnan : value x ≠ .nan := by simpa [isNan] using hx
  have hfields : x.msb = y.msb → exponent x = exponent y → fraction x = fraction y →
      isZero x = true ∧ isZero y = true ∨ x = y :=
    fun hsign hexponent hfraction => .inr (eq_of_fields hsign hexponent hfraction)
  by_cases hxe : exponent x = 2047
  · by_cases hye : exponent y = 2047
    · by_cases hxf : fraction x = 0
      · by_cases hyf : fraction y = 0
        · simp only [value, hxe, hye, hxf, hyf, if_true, DoubleValue.infinite.injEq] at h
          exact hfields h (hxe.trans hye.symm) (hxf.trans hyf.symm)
        · simp [value, hxe, hye, hxf, hyf] at h
      · simp [value, hxe, hxf] at hnan
    · simp only [value, hxe, hye, if_true, if_false] at h
      split_ifs at h
  · by_cases hye : exponent y = 2047
    · simp only [value, hxe, hye, if_true, if_false] at h
      split_ifs at h
    · simp only [value, hxe, hye, if_false, DoubleValue.finite.injEq] at h
      by_cases hzero : magnitude x = 0
      · have hzero' : magnitude y = 0 := by
          split_ifs at h <;> omega
        exact .inl ⟨isZero_of_magnitude hzero, isZero_of_magnitude hzero'⟩
      · have hmagnitude : magnitude x = magnitude y := by
          split_ifs at h <;> omega
        have hsign : x.msb = y.msb := by
          cases hxs : x.msb <;> cases hys : y.msb <;> simp [hxs, hys] at h ⊢ <;> omega
        obtain ⟨hexponent, hfraction⟩ := magnitude_inj hmagnitude
        exact hfields hsign hexponent hfraction

end DoubleBits

/-! ## Keys -/

/-- `std::hash<double>`: equal numbers have the same hash. -/
structure HashDouble where
  hash : DoubleBits → UInt64
  hash_eq : ∀ x y, DoubleBits.eq x y = true → hash x = hash y

/-- The bits themselves, and 0 for both zeros. -/
def HashDouble.ofBits : HashDouble where
  hash x := if DoubleBits.isZero x then 0 else UInt64.ofBitVec x
  hash_eq x y h := by
    simp only [DoubleBits.eq, Bool.and_eq_true, Bool.not_eq_true', decide_eq_true_eq] at h
    rcases DoubleBits.value_inj h.1.1 h.2 with ⟨hx, hy⟩ | rfl
    · rw [if_pos hx, if_pos hy]
    · rfl

variable {hasher : HashDouble}

/-- `CoordinateKey`, with the hash of its numbers. -/
structure CoordinateKey (hasher : HashDouble) where
  latitude : DoubleBits := 0
  longitude : DoubleBits := 0

namespace CoordinateKey

open DoubleBits

/-- `CoordinateKey::operator==` (lines 123–128). -/
instance : BEq (CoordinateKey hasher) where
  beq k other :=
    (DoubleBits.eq k.latitude other.latitude || (isNan k.latitude && isNan other.latitude)) &&
      (DoubleBits.eq k.longitude other.longitude || (isNan k.longitude && isNan other.longitude))

/-- `std::hash<ncei::CoordinateKey>` (lines 135–140). -/
instance : Hashable (CoordinateKey hasher) where
  hash k :=
    let h1 := hasher.hash (if isNan k.latitude then 0 else k.latitude)
    let h2 := hasher.hash (if isNan k.longitude then 0 else k.longitude)
    h1 ^^^ (h2 <<< 1)

/-- What a key means. -/
def place (k : CoordinateKey hasher) : DoubleValue × DoubleValue :=
  (value k.latitude, value k.longitude)

theorem same_value (x y : DoubleBits) :
    (DoubleBits.eq x y || (isNan x && isNan y)) = decide (value x = value y) := by
  unfold DoubleBits.eq isNan
  by_cases h : value x = value y
  · by_cases hy : value y = .nan <;> simp [h, hy]
  · by_cases hx : value x = .nan
    · have hy : value y ≠ .nan := fun hy => h (hx.trans hy.symm)
      simp [hx, hy, Ne.symm hy]
    · simp [h, hx]

/-- The NaN clauses of `==` make it the equality of places. -/
theorem beq_place (a b : CoordinateKey hasher) : (a.place == b.place) = (a == b) := by
  have hbeq : (a == b) = (decide (value a.latitude = value b.latitude) &&
      decide (value a.longitude = value b.longitude)) :=
    congrArg₂ (· && ·) (same_value _ _) (same_value _ _)
  rw [hbeq]
  rfl

theorem beq_iff_place {a b : CoordinateKey hasher} : (a == b) = true ↔ a.place = b.place := by
  rw [← beq_place, beq_iff_eq]

instance : EquivBEq (CoordinateKey hasher) where
  rfl := beq_iff_place.mpr rfl
  symm h := beq_iff_place.mpr (beq_iff_place.mp h).symm
  trans h h' := beq_iff_place.mpr ((beq_iff_place.mp h).trans (beq_iff_place.mp h'))

/-- All NaNs have the hash of `0.0`, whatever `std::hash` makes of their bits. -/
theorem hash_number {x y : DoubleBits} (h : value x = value y) :
    hasher.hash (if isNan x then 0 else x) = hasher.hash (if isNan y then 0 else y) := by
  have hnan : isNan x = isNan y := by
    unfold isNan
    rw [h]
  cases hy : isNan y with
  | true => rw [hnan.trans hy, if_pos rfl, if_pos rfl]
  | false =>
    rw [hnan.trans hy]
    refine hasher.hash_eq x y ?_
    rw [DoubleBits.eq, hnan.trans hy, hy, h]
    simp

instance : LawfulHashable (CoordinateKey hasher) where
  hash_eq a b h := by
    obtain ⟨hlatitude, hlongitude⟩ := Prod.mk.inj (beq_iff_place.mp h)
    show hasher.hash _ ^^^ _ = hasher.hash _ ^^^ _
    rw [hash_number hlatitude, hash_number hlongitude]

end CoordinateKey

/-! ## The cache -/

open LruList (Entry Op Outcome)

variable {Value : Type}

/-- Entries of a list over keys and of the list over their places. -/
theorem mem_rename_place {l : List (Entry (CoordinateKey hasher) Value)}
    (key : CoordinateKey hasher) (value : Value) (t : ℤ) :
    ⟨key.place, value, t⟩ ∈ l.map (Entry.rename CoordinateKey.place) ↔
      ∃ e ∈ l, (e.key == key) = true ∧ e.value = value ∧ e.insertedAt = t := by
  simp only [List.mem_map, CoordinateKey.beq_iff_place, Entry.rename, Entry.mk.injEq]

/-- A cache over coordinates, with any hash of numbers, any configuration and any sequence of
    operations: no operation has undefined behaviour, `order_` and `map_` fit together, and
    the results and what is held at the end are those of an LRU list over the places that the
    keys mean. It does not matter which zero or which NaN a coordinate is, nor what the hash
    is, in any of the operations. -/
theorem run_places (hasher : HashDouble) (config : LruCache.Config)
    (ops : List (Op (CoordinateKey hasher) Value)) :
    let served := Simulation.runTotal
      (LruList.step config.maxEntries (config.ttl * LruCache.nsPerSecond)) []
      (ops.map (Op.rename CoordinateKey.place))
    ∃ c, Simulation.run LruCache.step (LruCache.new config) ops = some (served.1, c) ∧
      c.Coherent ∧ c.size = served.2.length ∧
      ∀ key value t, c.Holds key value t ↔ ⟨key.place, value, t⟩ ∈ served.2 := by
  intro served
  have hstart : (LruCache.new config : LruCache (CoordinateKey hasher) Value).Refines config [] ∧
      ([] : List (Entry (CoordinateKey hasher) Value)).length ≤ config.maxEntries :=
    ⟨LruCache.new_refines config, Nat.zero_le _⟩
  obtain ⟨c, hrun, hc, hlen⟩ := Simulation.run_eq (LruCache.step_simulates config) hstart ops
  have hserved : served = _ := LruList.runTotal_rename CoordinateKey.beq_place config.maxEntries
    (config.ttl * LruCache.nsPerSecond) [] ops
  rw [hserved]
  refine ⟨c, hrun, ?_, ?_, fun key value t => ?_⟩
  · obtain ⟨hconfig, pairs, hp, hl⟩ := hc
    apply hp.coherent
    rw [hl, List.length_map] at hlen
    rwa [hconfig]
  · obtain ⟨-, pairs, hp, hl⟩ := hc
    rw [hl]
    simp only [List.length_map]
    exact hp.size_eq
  · rw [hc.holds_iff, mem_rename_place]

/-- A value that was put for the equator is found again, whatever the signs of its zeros are;
    so it is for a place that is not known, with another NaN. -/
theorem run_places_zeros :
    ∃ c : LruCache (CoordinateKey .ofBits) ℕ, Simulation.run LruCache.step (LruCache.new {})
        [.put { latitude := 0x8000000000000000, longitude := 0x7ff8000000000000 } 10 0 false,
          .get { latitude := 0, longitude := 0xfff8000000000001 } 1] =
      some ([.done, .found (some 10)], c) := by
  obtain ⟨c, hrun, -⟩ := run_places .ofBits {}
    [.put { latitude := 0x8000000000000000, longitude := 0x7ff8000000000000 } 10 0 false,
      .get { latitude := 0, longitude := 0xfff8000000000001 } 1]
  exact ⟨c, hrun⟩

end NceiCpp.Core
