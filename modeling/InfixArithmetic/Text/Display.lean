/-
  InfixArithmetic.Text.Display

  Integers and texts as they are displayed in a message: integers in decimal, texts
  between quotes, with the characters that cannot be seen escaped.
-/

import InfixArithmetic.Text.Printable

namespace InfixArithmetic.Text

/-! ## Integers -/

/-- The decimal digits of an integer, after a minus if it is negative. -/
def integerDigits (i : Int) : List Char :=
  (if i < 0 then ['-'] else []) ++ Nat.toDigits 10 i.natAbs

/-- An integer in decimal. -/
def integer (i : Int) : String := String.ofList (integerDigits i)

/-- A natural number in decimal. -/
def natural (n : Nat) : String := String.ofList (Nat.toDigits 10 n)

/-! ## Texts in quotes -/

/-- The hexadecimal digits of `n`, filled up with zeros to `width`. -/
def hexDigits (width n : Nat) : List Char :=
  (Nat.toDigits 16 n).leftpad width '0'

/-- One character inside quotes. -/
def escape (quote c : Char) : List Char :=
  if c = quote ∨ c = '\\' then ['\\', c]
  else if c = '\n' then ['\\', 'n']
  else if c = '\r' then ['\\', 'r']
  else if c = '\t' then ['\\', 't']
  else if isPrintable c then [c]
  else if c.toNat < 0x100 then '\\' :: 'x' :: hexDigits 2 c.toNat
  else if c.toNat < 0x10000 then '\\' :: 'u' :: hexDigits 4 c.toNat
  else '\\' :: 'U' :: hexDigits 8 c.toNat

/-- The apostrophe, unless the text holds one and no double quote. -/
def quoteFor (cs : List Char) : Char :=
  if '\'' ∈ cs ∧ '"' ∉ cs then '"' else '\''

/-- A text in quotes. -/
def quoted (s : String) : String :=
  let cs := s.toList
  let quote := quoteFor cs
  String.ofList (quote :: cs.flatMap (escape quote) ++ [quote])

end InfixArithmetic.Text
