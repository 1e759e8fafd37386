/-
  InfixArithmetic.Decimal.Layout

  How floating-point values are written. Every layout uses the shortest digits that
  read back; a layout decides which magnitudes are written positionally and how
  the others, the infinities and NaN look.
-/

import InfixArithmetic.Decimal.Shortest

namespace InfixArithmetic

/-- The decisions of one way of writing numbers. -/
structure Layout where
  /-- The least positive magnitude written positionally. -/
  positionalFrom : Binary64
  /-- The least magnitude above it that is not. -/
  positionalBelow : Binary64
  /-- What follows a positional number without a fraction. -/
  wholeMark : String
  /-- The mark before the exponent of the other magnitudes. -/
  exponentMark : Char
  /-- The least number of digits of that exponent. -/
  exponentDigits : Nat
  positiveInfinity : String
  negativeInfinity : String
  nan : String
deriving DecidableEq, Repr

namespace Layout

open Decimal (shortest)

/-- Digits whose first one stands for `10 ^ first`, with the point in its place. -/
def positional (l : Layout) (digits : List Char) (first : Int) : List Char :=
  if first < 0 then
    '0' :: '.' :: (List.replicate (-first - 1).toNat '0' ++ digits)
  else
    let whole := first.toNat + 1
    if digits.length ≤ whole then
      digits ++ List.replicate (whole - digits.length) '0' ++ l.wholeMark.toList
    else digits.take whole ++ '.' :: digits.drop whole

/-- Digits with the point after the first one, and an exponent. -/
def scientific (l : Layout) (digits : List Char) (first : Int) : List Char :=
  let fraction := digits.drop 1
  digits.take 1 ++ (if fraction = [] then [] else '.' :: fraction) ++
    l.exponentMark :: (if first < 0 then '-' else '+') ::
      (Nat.toDigits 10 first.natAbs).leftpad l.exponentDigits '0'

/-- True of the finite magnitudes that are written positionally. -/
def isPositional (l : Layout) (x : Binary64) : Bool :=
  x.isZero || (l.positionalFrom.le x.abs && x.abs.lt l.positionalBelow)

/-- A finite magnitude without its sign. -/
def magnitude (l : Layout) (x : Binary64) (ordinal : Nat) : List Char :=
  let d : Decimal := if ordinal = 0 then ⟨0, 0⟩ else shortest ordinal
  let digits := Nat.toDigits 10 d.digits
  let first := d.exponent + digits.length - 1
  if l.isPositional x then l.positional digits first else l.scientific digits first

/-- The written form of a value. -/
def render (l : Layout) (x : Binary64) : String :=
  match x with
  | .nan => l.nan
  | .infinite s => if s then l.negativeInfinity else l.positiveInfinity
  | .finite s ordinal =>
    String.ofList ((if s then ['-'] else []) ++ l.magnitude x ordinal)

/-- The layout of messages and tables: a fraction is always shown, and the
    positional range ends at 10^16. -/
def displayed : Layout where
  positionalFrom := .ofOrdinal false 0x3F1A36E2EB1C432D
  positionalBelow := .ofOrdinal false 0x4341C37937E08000
  wholeMark := ".0"
  exponentMark := 'e'
  exponentDigits := 2
  positiveInfinity := "inf"
  negativeInfinity := "-inf"
  nan := "nan"

/-- The layout of results: no fraction that is zero, and the positional range
    ends at 10^15. -/
def plain : Layout where
  positionalFrom := .ofOrdinal false 0x3F1A36E2EB1C432D
  positionalBelow := .ofOrdinal false 0x430C6BF526340000
  wholeMark := ""
  exponentMark := 'E'
  exponentDigits := 2
  positiveInfinity := "Infinity"
  negativeInfinity := "-Infinity"
  nan := "NaN"

end Layout

end InfixArithmetic
