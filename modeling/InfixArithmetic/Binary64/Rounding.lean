/-
  InfixArithmetic.Binary64.Rounding

  From exact magnitudes to floating-point values.

  Every finite magnitude is a whole number of units of 2^-1074, the least positive
  value. `units` gives that number for an ordinal, and `nearestOrdinal` goes back:
  from any quotient of natural numbers, taken in units, to the ordinal of the
  nearest magnitude. A half goes to the even ordinal, and a quotient too large
  for the finite ordinals gives one at or beyond `overflow`.
-/

import InfixArithmetic.Binary64.Basic
import InfixArithmetic.Exact

namespace InfixArithmetic.Binary64

open Exact (roundHalfEven)

-- The powers are the core ones, whatever algebra is in scope.
attribute [local instance (high)] instPowNat

/-- How many units of 2^-1074 make one. -/
abbrev unitsPerOne : Nat := 2 ^ (1074 : Nat)

/-- The magnitude with the given ordinal, in units. Below 2^52 the ordinals are
    the units themselves; above, each next 2^52 ordinals lie twice as far apart. -/
def units (ordinal : Nat) : Nat :=
  if ordinal < 2 ^ (52 : Nat) then ordinal
  else (2 ^ (52 : Nat) + ordinal % 2 ^ (52 : Nat)) * 2 ^ (ordinal / 2 ^ (52 : Nat) - 1)

/-- The ordinal of the magnitude nearest to `num / den` units. The spacing of the
    magnitudes around the quotient is `2 ^ shift` units, and a significand that
    rounds up to 2^53 is the first one of the next spacing. -/
def nearestOrdinal (num den : Nat) : Nat :=
  let shift := Nat.log2 (num / den) - 52
  roundHalfEven num (den * 2 ^ shift) + shift * 2 ^ (52 : Nat)

/-- The value nearest to `± num / den` units. -/
def ofUnits (negative : Bool) (num den : Nat) : Binary64 :=
  ofOrdinal negative (nearestOrdinal num den)

/-- The value nearest to `± num / den`. -/
def ofRatio (negative : Bool) (num den : Nat) : Binary64 :=
  ofUnits negative (num * unitsPerOne) den

/-- The value nearest to an integer, unless that is infinite. -/
def ofInt? (i : Int) : Option Binary64 :=
  let x := ofRatio (i < 0) i.natAbs 1
  if x.isFinite then some x else none

/-- The integer part of a finite value, cut off toward zero. -/
def truncate? : Binary64 → Option Int
  | finite s n =>
    let whole : Int := (units n / unitsPerOne : Nat)
    some (if s then -whole else whole)
  | _ => none

end InfixArithmetic.Binary64
