import Mathlib

/-!
# Computations that may fault

Programs on integers of fixed width and on arrays, with each way in which an operation can
leave what its type allows as a fault: a result out of range, a division by zero, a
conversion that changes the value, a read out of bounds, a loop that has no turns left. A
computation that returns has met none of them.

The rules say when an operation returns, and what. `loop_ok` is the rule of a loop: an
invariant and a measure that falls in each turn.
-/

namespace Faults

inductive Fault
  | overflow
  | divisionByZero
  | narrowing
  | outOfBounds
  | outOfTurns
  deriving DecidableEq, Repr

/-- An integer type, by its range. -/
structure IntType where
  min : ℤ
  max : ℤ

namespace IntType

def signed (bits : ℕ) : IntType := ⟨-2 ^ (bits - 1), 2 ^ (bits - 1) - 1⟩

def unsigned (bits : ℕ) : IntType := ⟨0, 2 ^ bits - 1⟩

/-- The type has the value `x`. -/
def Has (type : IntType) (x : ℤ) : Prop := type.min ≤ x ∧ x ≤ type.max

instance (type : IntType) (x : ℤ) : Decidable (type.Has x) := inferInstanceAs (Decidable (_ ∧ _))

end IntType

variable {α β : Type} {type : IntType} {x y : ℤ}

/-! ## Operations -/

/-- `x`, if the type has it. -/
def fit (fault : Fault) (type : IntType) (x : ℤ) : Except Fault ℤ :=
  if type.Has x then .ok x else .error fault

def add (type : IntType) (x y : ℤ) : Except Fault ℤ := fit .overflow type (x + y)

def sub (type : IntType) (x y : ℤ) : Except Fault ℤ := fit .overflow type (x - y)

def mul (type : IntType) (x y : ℤ) : Except Fault ℤ := fit .overflow type (x * y)

/-- Division that truncates. -/
def div (type : IntType) (x y : ℤ) : Except Fault ℤ :=
  if y = 0 then .error .divisionByZero else fit .overflow type (x.tdiv y)

/-- Conversion to a type. -/
def cast (type : IntType) (x : ℤ) : Except Fault ℤ := fit .narrowing type x

/-- The element of `s` at the index `i`. -/
def read (s : List α) (i : ℕ) : Except Fault α :=
  match s[i]? with
  | some c => .ok c
  | none => .error .outOfBounds

/-! ## Rules -/

theorem ok_bind (a : α) (f : α → Except Fault β) : (Except.ok a >>= f) = f a := rfl

theorem fit_ok {fault : Fault} (h : type.Has x) : fit fault type x = .ok x := if_pos h

theorem add_ok (h : type.Has (x + y)) : add type x y = .ok (x + y) := fit_ok h

theorem sub_ok (h : type.Has (x - y)) : sub type x y = .ok (x - y) := fit_ok h

theorem mul_ok (h : type.Has (x * y)) : mul type x y = .ok (x * y) := fit_ok h

theorem cast_ok (h : type.Has x) : cast type x = .ok x := fit_ok h

/-- A value that is not negative divided by a positive one does not grow. -/
theorem div_ok (hmin : type.min ≤ 0) (h0 : 0 ≤ x) (hx : x ≤ type.max) (hy : 0 < y) :
    div type x y = .ok (x.tdiv y) := by
  have hnonneg : 0 ≤ x.tdiv y := Int.tdiv_nonneg h0 hy.le
  have hle : x.tdiv y ≤ x := by
    rw [Int.tdiv_eq_ediv_of_nonneg h0]
    exact Int.ediv_le_self y h0
  rw [div, if_neg hy.ne', fit_ok ⟨hmin.trans hnonneg, hle.trans hx⟩]

theorem read_ok {s : List α} {i : ℕ} (h : i < s.length) : read s i = .ok s[i] := by
  rw [read, List.getElem?_eq_getElem h]

/-! ## Loops -/

/-- How a turn of a loop ends. -/
inductive Turn (σ β : Type)
  | again (s : σ)
  | done (b : β)

variable {σ : Type}

/-- A loop that may make so many turns. -/
def loop (turn : σ → Except Fault (Turn σ β)) : ℕ → σ → Except Fault β
  | 0, _ => .error .outOfTurns
  | turns + 1, s => do
    match ← turn s with
    | .again s => loop turn turns s
    | .done b => return b

/-- What a turn from the state `s` has to do for the loop to compute `value s`. -/
inductive TurnOk (value : σ → β) (Inv : σ → Prop) (measure : σ → ℕ) (s : σ) :
    Except Fault (Turn σ β) → Prop
  | again {s' : σ} : Inv s' → measure s' < measure s → value s' = value s →
      TurnOk value Inv measure s (.ok (.again s'))
  | done {b : β} : b = value s → TurnOk value Inv measure s (.ok (.done b))

/-- The rule of a loop. -/
theorem loop_ok {turn : σ → Except Fault (Turn σ β)} {value : σ → β} {Inv : σ → Prop}
    {measure : σ → ℕ} (hturn : ∀ s, Inv s → TurnOk value Inv measure s (turn s)) {turns : ℕ}
    {s : σ} (hs : Inv s) (hturns : measure s < turns) : loop turn turns s = .ok (value s) := by
  induction turns generalizing s with
  | zero => omega
  | succ turns ih =>
    have h := hturn s hs
    rw [loop]
    generalize turn s = r at h
    cases h with
    | again hs' hlt hvalue =>
      rw [ok_bind, ← hvalue]
      exact ih hs' (by omega)
    | done hb =>
      rw [ok_bind, hb]
      rfl

end Faults
