/-
  InfixArithmetic.Binary64.Arithmetic

  Addition, subtraction, multiplication, division and the square root: the exact
  result of the finite values, rounded once, with the usual rules for infinities,
  for NaN and for the sign of zero.
-/

import InfixArithmetic.Binary64.Rounding

namespace InfixArithmetic.Binary64

open Exact (floorRoot)

/-- The exact finite value in units, with its sign. -/
def signedUnits (negative : Bool) (ordinal : Nat) : Int :=
  if negative then -(units ordinal : Int) else units ordinal

/-- The sum. Opposite infinities have none; an exact zero is negative only if
    both summands are. -/
def add : Binary64 → Binary64 → Binary64
  | nan, _ => nan
  | _, nan => nan
  | infinite s, infinite t => if s = t then infinite s else nan
  | infinite s, finite _ _ => infinite s
  | finite _ _, infinite t => infinite t
  | finite s m, finite t n =>
    let sum := signedUnits s m + signedUnits t n
    if sum = 0 then ofOrdinal (s && t) 0 else ofUnits (sum < 0) sum.natAbs 1

/-- The difference: the sum with the second value negated. -/
def sub (x y : Binary64) : Binary64 := add x y.neg

/-- The product. Zero times infinity has none. -/
def mul : Binary64 → Binary64 → Binary64
  | nan, _ => nan
  | _, nan => nan
  | infinite s, infinite t => infinite (s != t)
  | infinite s, finite t n => if n.val = 0 then nan else infinite (s != t)
  | finite s m, infinite t => if m.val = 0 then nan else infinite (s != t)
  | finite s m, finite t n => ofUnits (s != t) (units m * units n) unitsPerOne

/-- The quotient. Zero over zero and infinity over infinity have none; another
    value over zero is infinite. -/
def div : Binary64 → Binary64 → Binary64
  | nan, _ => nan
  | _, nan => nan
  | infinite _, infinite _ => nan
  | infinite s, finite t _ => infinite (s != t)
  | finite s _, infinite t => ofOrdinal (s != t) 0
  | finite s m, finite t n =>
    if n.val = 0 then
      if m.val = 0 then nan else infinite (s != t)
    else ofUnits (s != t) (units m * unitsPerOne) (units n)

/-! ## The square root -/

/-- The square root in units is the root of the magnitude times `unitsPerOne`. An
    inexact root is replaced by the half above its floor: no midpoint between two
    magnitudes of this size is a half, so both lie on the same side of each. -/
def rootOfUnits (magnitude : Nat) : Binary64 :=
  let square := magnitude * unitsPerOne
  let root := floorRoot square
  ofUnits false (2 * root + if root * root = square then 0 else 1) 2

/-- The square root. Each zero is its own root, a negative number has none. -/
def sqrt : Binary64 → Binary64
  | nan => nan
  | infinite s => if s then nan else infinite false
  | finite s n =>
    if n.val = 0 then finite s n
    else if s then nan
    else rootOfUnits (units n)

end InfixArithmetic.Binary64
