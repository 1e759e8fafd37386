/-
  InfixArithmetic.Decimal.Numeral

  Written numbers: an optional sign, then decimal digits of any script with at
  most one point and an optional exponent, or one of the words for infinity and
  NaN. A numeral is read completely or not at all.
-/

import InfixArithmetic.Decimal.Basic
import InfixArithmetic.Text.DecimalDigit
import InfixArithmetic.Text.Whitespace

namespace InfixArithmetic

/-- What a written number denotes. -/
inductive Numeral where
  | nan
  | infinite (negative : Bool)
  | decimal (negative : Bool) (magnitude : Decimal)
deriving DecidableEq, Repr

namespace Numeral

open Text (digitValue? trim)

/-- The floating-point value nearest to a numeral. -/
def toBinary64 : Numeral → Binary64
  | nan => .nan
  | infinite s => .infinite s
  | decimal s d => d.toBinary64 s

/-! ## Reading -/

/-- An optional sign, true if it is a minus, and the rest. -/
def takeSign : List Char → Bool × List Char
  | '-' :: cs => (true, cs)
  | '+' :: cs => (false, cs)
  | cs => (false, cs)

/-- The values of the digits at the start, and the rest. -/
def takeDigits : List Char → List Nat × List Char
  | [] => ([], [])
  | c :: cs =>
    match digitValue? c with
    | some d => let (ds, rest) := takeDigits cs; (d :: ds, rest)
    | none => ([], c :: cs)

/-- The number written with the given digits. -/
def ofDigits (ds : List Nat) : Nat := ds.foldl (fun n d => 10 * n + d) 0

/-- The exponent at the end of a numeral; an empty text is exponent zero. -/
def readExponent? : List Char → Option Int
  | [] => some 0
  | c :: cs =>
    if c = 'e' ∨ c = 'E' then
      let (negative, cs) := takeSign cs
      match takeDigits cs with
      | ([], _) => none
      | (ds, []) => some (if negative then -(ofDigits ds : Int) else ofDigits ds)
      | _ => none
    else none

/-- The fraction part after a point, and the rest; no point is no fraction. -/
def takeFraction : List Char → List Nat × List Char
  | '.' :: cs => takeDigits cs
  | cs => ([], cs)

/-- The digits, point and exponent of a numeral. -/
def readDecimal? (cs : List Char) : Option Decimal :=
  let (whole, cs) := takeDigits cs
  let (fraction, cs) := takeFraction cs
  if whole ++ fraction = [] then none
  else (readExponent? cs).map fun e => ⟨ofDigits (whole ++ fraction), e - fraction.length⟩

/-- The words for infinity, in lower case. -/
def infinityWords : List (List Char) := ["inf".toList, "infinity".toList]

/-- A complete numeral, with nothing before or after it. -/
def read? (cs : List Char) : Option Numeral :=
  let (negative, cs) := takeSign cs
  let word := cs.map Char.toLower
  if word ∈ infinityWords then some (infinite negative)
  else if word = "nan".toList then some nan
  else (readDecimal? cs).map (decimal negative)

/-- The value of a text that is a numeral between blanks. -/
def parse? (s : String) : Option Binary64 := (read? (trim s.toList)).map toBinary64

end Numeral

end InfixArithmetic
