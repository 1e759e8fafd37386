/-
  InfixArithmetic.Number

  Operands of the floating-point operations: floating-point values, and integers
  of any size, which are rounded to one when an operation uses them.
-/

import InfixArithmetic.Binary64.Arithmetic

namespace InfixArithmetic

/-- An integer or a floating-point value. -/
inductive Number where
  | int (i : Int)
  | double (x : Binary64)
deriving DecidableEq, Repr

namespace Number

open Binary64 (unitsPerOne signedUnits)

/-- The floating-point value of a number, none if an integer is too large. -/
def toBinary64? : Number → Option Binary64
  | int i => Binary64.ofInt? i
  | double x => some x

/-- Exact comparison; false when one side is NaN. -/
def lt : Number → Number → Bool
  | int a, int b => a < b
  | double x, double y => x.lt y
  | int a, double y =>
    match y with
    | .nan => false
    | .infinite s => !s
    | .finite s n => a * unitsPerOne < signedUnits s n
  | double x, int b =>
    match x with
    | .nan => false
    | .infinite s => s
    | .finite s n => signedUnits s n < b * unitsPerOne

/-- True of the integer zero and both floating-point zeros. -/
def isZero : Number → Bool
  | int i => i == 0
  | double x => x.isZero

/-- True of the numbers below zero; negative zero and NaN are not. -/
def isBelowZero (n : Number) : Bool := n.lt (int 0)

/-- True of everything but the infinities and NaN. -/
def isFinite : Number → Bool
  | int _ => true
  | double x => x.isFinite

/-- The integer part of a finite number, cut off toward zero. -/
def truncate? : Number → Option Int
  | int i => some i
  | double x => x.truncate?

end Number

end InfixArithmetic
