/-
  InfixArithmetic.Operation.Apply

  A named operation on operands of a chosen type, and runs of such operations on a
  state.
-/

import InfixArithmetic.Operation.Basic
import InfixArithmetic.Operation.Int32
import InfixArithmetic.Operation.NumberText

namespace InfixArithmetic.Operation

/-- The fault of a wrong number of operands. -/
def countFault (o : Operation) (given : Nat) : Fault :=
  .format (.operandCount o.name o.arity given)

/-- An operand of a floating-point operation. -/
def numberOperand (v : Value) : Except Fault Number :=
  match v.number? with
  | some n => .ok n
  | none => .error (.format (.notNumeric v))

/-- A binary operation on numbers, on operands of any type. -/
def onNumbers (f : Number → Number → Except Fault Binary64) (a b : Value) :
    Except Fault Value := do
  let x ← numberOperand a
  let y ← numberOperand b
  return .double (← f x y)

/-- An operation on floating-point values. -/
def applyDouble : Operation → List Value → Except Fault Value
  | add, [a, b] => onNumbers DoubleOperation.add a b
  | subtract, [a, b] => onNumbers DoubleOperation.subtract a b
  | multiply, [a, b] => onNumbers DoubleOperation.multiply a b
  | divide, [a, b] => onNumbers DoubleOperation.divide a b
  | power, [a, b] => onNumbers DoubleOperation.power a b
  | superSum, [a, b] => onNumbers DoubleOperation.superSum a b
  | squareRoot, [a] => return .double (← DoubleOperation.squareRoot (← numberOperand a))
  | abs, [a] => return .double (← DoubleOperation.abs (← numberOperand a))
  | o, operands => .error (o.countFault operands.length)

/-- An operation on 32-bit integers. -/
def applyInt32 : Operation → List Value → Except Fault Value
  | add, [a, b] => .int <$> Int32.add a b
  | subtract, [a, b] => .int <$> Int32.subtract a b
  | multiply, [a, b] => .int <$> Int32.multiply a b
  | divide, [a, b] => .int <$> Int32.divide a b
  | power, [a, b] => .int <$> Int32.power a b
  | superSum, [a, b] => .double <$> Int32.superSum a b
  | squareRoot, [a] => .int <$> Int32.squareRoot a
  | abs, [a] => .int <$> Int32.abs a
  | o, operands => .error (o.countFault operands.length)

/-- An operation on texts that hold numbers. -/
def applyText : Operation → List Value → Except Fault Value
  | add, [a, b] => .text <$> NumberText.add a b
  | subtract, [a, b] => .text <$> NumberText.subtract a b
  | multiply, [a, b] => .text <$> NumberText.multiply a b
  | divide, [a, b] => .text <$> NumberText.divide a b
  | power, [a, b] => .text <$> NumberText.power a b
  | superSum, [a, b] => .double <$> NumberText.superSum a b
  | squareRoot, [a] => .text <$> NumberText.squareRoot a
  | abs, [a] => .text <$> NumberText.abs a
  | o, operands => .error (o.countFault operands.length)

/-- An operation on operands of a type. -/
def apply : OperandType → Operation → List Value → Except Fault Value
  | .float => applyDouble
  | .int => applyInt32
  | .string => applyText

/-! ## Runs -/

/-- An operation on a state, with the other operands it takes. -/
structure Step where
  operation : Operation
  operands : List Value
deriving DecidableEq

/-- The state after a step; a step that fails leaves it as it was. -/
def next (state : Value) : Except Fault Value → Value
  | .ok v => v
  | .error _ => state

/-- The outcome of every step of a run, each on the state that the steps before
    have left. -/
def run (t : OperandType) : Value → List Step → List (Except Fault Value)
  | _, [] => []
  | state, step :: steps =>
    let outcome := apply t step.operation (state :: step.operands)
    outcome :: run t (next state outcome) steps

end InfixArithmetic.Operation
