/-
  InfixArithmetic.Operation.NumberText

  The operations on texts that hold numbers: the operands are read, the left one
  first, and the result of the floating-point operation is written as a text.
-/

import InfixArithmetic.Operation.Double

namespace InfixArithmetic.NumberText

/-- The number that an operand holds as a text. -/
def parse (v : Value) : Except Fault Binary64 :=
  match v with
  | .text s =>
    match Numeral.parse? s with
    | some x => .ok x
    | none => .error (.format (.notNumeric v))
  | _ => .error (.format (.notNumeric v))

/-- A number as a result is written. -/
def format (x : Binary64) : String := Layout.plain.render x

/-- A binary floating-point operation on the numbers that two texts hold. -/
def both (f : Number → Number → Except Fault Binary64) (a b : Value) :
    Except Fault Binary64 := do
  let x ← parse a
  let y ← parse b
  f (.double x) (.double y)

def add (a b : Value) : Except Fault String := format <$> both DoubleOperation.add a b

def subtract (a b : Value) : Except Fault String :=
  format <$> both DoubleOperation.subtract a b

def multiply (a b : Value) : Except Fault String :=
  format <$> both DoubleOperation.multiply a b

def divide (a b : Value) : Except Fault String :=
  format <$> both DoubleOperation.divide a b

def power (a b : Value) : Except Fault String :=
  format <$> both DoubleOperation.power a b

def squareRoot (a : Value) : Except Fault String := do
  return format (← DoubleOperation.squareRoot (.double (← parse a)))

def abs (a : Value) : Except Fault String := do
  return format (← DoubleOperation.abs (.double (← parse a)))

/-- The joined number, which stays a number. -/
def superSum (a b : Value) : Except Fault Binary64 := both DoubleOperation.superSum a b

end InfixArithmetic.NumberText
