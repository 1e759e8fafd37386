/-
  InfixArithmetic.Operation.Int32

  The integers of 32 bits in two's complement, and the operations on them. Operands
  that are no such integer are refused, the left one first; results are wrapped.
-/

import InfixArithmetic.Decimal.Numeral
import InfixArithmetic.Exact
import InfixArithmetic.Fault

namespace InfixArithmetic.Int32

/-! ## The range -/

-- The powers are the core ones, whatever algebra is in scope.
attribute [local instance (high)] instPowNat

/-- True of the integers from -2^31 to 2^31 - 1. -/
def inRange (i : Int) : Bool := decide (-2147483648 ≤ i ∧ i ≤ 2147483647)

/-- The integer in range that is congruent to `i` modulo 2^32. -/
def wrap (i : Int) : Int := i.bmod (2 ^ (32 : Nat))

theorem inRange_iff {i : Int} : inRange i = true ↔ -2147483648 ≤ i ∧ i ≤ 2147483647 := by
  simp [inRange]

/-- Wrapping always gives an integer in range. -/
theorem inRange_wrap (i : Int) : inRange (wrap i) = true := by
  have hle := @Int.le_bmod i (2 ^ (32 : Nat)) (by decide)
  have hlt := @Int.bmod_lt i (2 ^ (32 : Nat)) (by decide)
  rw [inRange_iff, wrap]
  omega

/-- An integer in range is its own wrapping. -/
theorem wrap_of_inRange {i : Int} (h : inRange i = true) : wrap i = i := by
  rw [inRange_iff] at h
  simp only [wrap, Int.bmod]
  omega

/-! ## Operations -/

/-- The integer that an operand is. -/
def checked : Value → Except Fault Int
  | .int i => if inRange i then .ok i else .error (.format (.outsideInt32 i))
  | v => .error (.format (.notInteger v))

def add (a b : Value) : Except Fault Int := do
  return wrap ((← checked a) + (← checked b))

def subtract (a b : Value) : Except Fault Int := do
  return wrap ((← checked a) - (← checked b))

def multiply (a b : Value) : Except Fault Int := do
  return wrap ((← checked a) * (← checked b))

/-- The quotient, cut off toward zero. -/
def divide (a b : Value) : Except Fault Int := do
  let a ← checked a
  let b ← checked b
  if b = 0 then .error (.division .zeroDivisor) else return wrap (a.tdiv b)

/-- The wrapped power, by repeated squaring with every product wrapped. -/
def wrappedPower (base : Int) (exponent : Nat) : Int :=
  if exponent = 0 then 1
  else
    let root := wrappedPower base (exponent / 2)
    let square := wrap (root * root)
    if exponent % 2 = 0 then square else wrap (square * base)
termination_by exponent

/-- The power; negative exponents are refused. -/
def power (base exponent : Value) : Except Fault Int := do
  let base ← checked base
  let exponent ← checked exponent
  if exponent < 0 then .error (.division .negativeIntegerPower)
  else return wrappedPower base exponent.toNat

/-- The square root, rounded down. -/
def squareRoot (a : Value) : Except Fault Int := do
  let a ← checked a
  if a < 0 then .error (.format .negativeRadicand)
  else return Exact.floorRoot a.toNat

/-- The absolute value; that of -2^31 wraps to itself. -/
def abs (a : Value) : Except Fault Int := do
  return wrap (← checked a).natAbs

/-- The number written by the digits of both operands after each other. -/
def superSum (a b : Value) : Except Fault Binary64 := do
  let a ← checked a
  let b ← checked b
  match Numeral.parse? (Text.integer a ++ Text.integer b) with
  | some x => return x
  | none => .error (.format .joinedNotInteger)

end InfixArithmetic.Int32
