/-
  InfixArithmetic.Decimal.Basic

  Decimal numbers without a sign, and the floating-point magnitude nearest to one.
-/

import InfixArithmetic.Binary64.Rounding
import InfixArithmetic.Exact

namespace InfixArithmetic

/-- The number `digits * 10 ^ exponent`. -/
structure Decimal where
  digits : Nat
  exponent : Int
deriving DecidableEq, Repr

namespace Decimal

open Exact (digitCount)
open Binary64 (overflow nearestOrdinal unitsPerOne)

-- The powers are the core ones, whatever algebra is in scope.
attribute [local instance (high)] instPowNat

/-- The power of ten just above the number, which is at least a tenth of it. -/
def magnitude (d : Decimal) : Int := digitCount d.digits + d.exponent

/-- The numerator of the number over a denominator without a negative power. -/
def numerator (d : Decimal) : Nat := d.digits * 10 ^ d.exponent.toNat

/-- The denominator of the number. -/
def denominator (d : Decimal) : Nat := 10 ^ (-d.exponent).toNat

/-- The ordinal of the floating-point magnitude nearest to the number. From
    10^310 on that is infinite and below 10^-330 zero, whatever the digits, so
    that no power of ten has to be computed for an exponent of any length. -/
def ordinal (d : Decimal) : Nat :=
  if d.digits = 0 then 0
  else if 310 < d.magnitude then overflow
  else if d.magnitude < -330 then 0
  else nearestOrdinal (d.numerator * unitsPerOne) d.denominator

/-- The floating-point value nearest to the number with the given sign. -/
def toBinary64 (negative : Bool) (d : Decimal) : Binary64 :=
  .ofOrdinal negative d.ordinal

/-- The same number with no zero at the end of its digits. -/
def normalize (d : Decimal) : Decimal :=
  if h : d.digits % 10 = 0 ∧ d.digits ≠ 0 then
    normalize ⟨d.digits / 10, d.exponent + 1⟩
  else d
termination_by d.digits
decreasing_by omega

end Decimal

end InfixArithmetic
