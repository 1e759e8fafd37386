/-
  InfixArithmetic.Decimal.Shortest

  The shortest decimal number that reads back to a given floating-point
  magnitude.

  For one digit, two digits and so on up to seventeen, the two decimal numbers
  next to the magnitude on the grid of that many digits are read back. The first
  grid on which one of them gives the magnitude again is taken, and of two such
  neighbours the nearer one.
-/

import InfixArithmetic.Decimal.Basic

namespace InfixArithmetic.Decimal

open Exact (digitCount)
open Binary64 (units unitsPerOne)

-- The powers are the core ones, whatever algebra is in scope.
attribute [local instance (high)] instPowNat

/-- The decimal exponent of a positive magnitude given in units: the place of its
    first digit. Every magnitude times 10^324 is above one, so the exponent is
    seen from the digits of the whole part of that product. -/
def leadingExponent (magnitude : Nat) : Int :=
  (digitCount (magnitude * 10 ^ (324 : Nat) / unitsPerOne) : Int) - 1 - 324

/-- The magnitude over `10 ^ exponent` as a quotient of natural numbers. -/
def scaled (magnitude : Nat) (exponent : Int) : Nat × Nat :=
  (magnitude * 10 ^ (-exponent).toNat, unitsPerOne * 10 ^ exponent.toNat)

/-- The number on the grid of multiples of `10 ^ exponent` that reads back to the
    ordinal, if there is one: the neighbour below, the one above, or the nearer of
    both, the even one if they are equally near. -/
def onGrid? (ordinal : Nat) (exponent : Int) : Option Decimal :=
  let (num, den) := scaled (units ordinal) exponent
  let below : Decimal := ⟨num / den, exponent⟩
  let above : Decimal := ⟨num / den + 1, exponent⟩
  match below.ordinal == ordinal, above.ordinal == ordinal with
  | false, false => none
  | true, false => some below
  | false, true => some above
  | true, true =>
    some (if Exact.roundHalfEven num den = num / den then below else above)

/-- The shortest decimal that reads back to a positive ordinal, without zeros at
    the end. -/
def shortest (ordinal : Nat) : Decimal :=
  let first := leadingExponent (units ordinal)
  (((List.range 17).findSome? fun (places : Nat) => onGrid? ordinal (first - places)).getD
    ⟨0, 0⟩).normalize

end InfixArithmetic.Decimal
