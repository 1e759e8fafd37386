/-
  InfixArithmetic.Operation.Double

  The operations on floating-point values. Integers are accepted too: the tests
  for zero and for a negative operand see the exact integer, the arithmetic its
  rounded value.
-/

import InfixArithmetic.Binary64.Power
import InfixArithmetic.Decimal.Numeral
import InfixArithmetic.Expression.Operator
import InfixArithmetic.Operation.Int32

namespace InfixArithmetic.DoubleOperation

/-- The rounded value of an operand. -/
def rounded (n : Number) : Except Fault Binary64 :=
  match n.toBinary64? with
  | some x => .ok x
  | none => .error .tooLarge

def add (a b : Number) : Except Fault Binary64 := do
  return (← rounded a).add (← rounded b)

def subtract (a b : Number) : Except Fault Binary64 := do
  return (← rounded a).sub (← rounded b)

def multiply (a b : Number) : Except Fault Binary64 := do
  return (← rounded a).mul (← rounded b)

/-- The quotient; both zeros are refused as a divisor. -/
def divide (a b : Number) : Except Fault Binary64 :=
  if b.isZero then .error (.division .zeroDivisor)
  else do return (← rounded a).div (← rounded b)

/-- The power; zero has none with a negative exponent. -/
def power (base exponent : Number) : Except Fault Binary64 :=
  if base.isZero && exponent.isBelowZero then
    .error (.division .zeroToNegativePower)
  else do return (← rounded base).pow (← rounded exponent)

/-- The square root; negative numbers are refused. -/
def squareRoot (a : Number) : Except Fault Binary64 :=
  if a.isBelowZero then .error (.format .negativeRadicand)
  else do return (← rounded a).sqrt

def abs (a : Number) : Except Fault Binary64 := do
  return (← rounded a).abs

/-- The number read from the integer part of the first operand, which has to be a
    32-bit integer, followed at once by the second operand as a result is written. -/
def superSum (a b : Number) : Except Fault Binary64 :=
  match a.truncate? with
  | some whole =>
    if Int32.inRange whole then do
      let joined := Text.integer whole ++ Layout.plain.render (← rounded b)
      match Numeral.parse? joined with
      | some x => .ok x
      | none => .error (.format .joinedNotDouble)
    else .error (.format .joinedNotDouble)
  | none => .error (.format .joinedNotDouble)

/-- The operation of an operator. -/
def ofOperator : Operator → Number → Number → Except Fault Binary64
  | .add => add
  | .subtract => subtract
  | .multiply => multiply
  | .divide => divide

end InfixArithmetic.DoubleOperation
