/-
  InfixArithmetic.Expression.Evaluate

  The value of an expression.

  Numbers with operators between them are reduced in two passes: the first one
  applies every multiplication and division to the numbers next to it, the second
  one adds and subtracts what is left, both from left to right.
-/

import InfixArithmetic.Expression.Scan
import InfixArithmetic.Operation.Double

namespace InfixArithmetic.Expression

/-! ## Numbers and operators -/

section Passes

variable {ν : Type} (apply : Operator → ν → ν → Except Fault ν)

/-- The first pass on a number and what follows it. -/
def multiplyOut : ν → List (String × ν) → Except Fault (Chain String ν)
  | x, [] => .ok ⟨x, []⟩
  | x, (s, y) :: links =>
    match (Operator.ofText? s).filter Operator.isHigh with
    | some o => do multiplyOut (← apply o x y) links
    | none => do return (← multiplyOut y links).cons x s

/-- The second pass; operators other than plus and minus are unknown to it. -/
def addUp : ν → List (String × ν) → Except Fault ν
  | x, [] => .ok x
  | x, (s, y) :: links =>
    match (Operator.ofText? s).filter (!·.isHigh) with
    | some o => do addUp (← apply o x y) links
    | none => .error (.format (.unknownOperator s))

/-- Both passes. -/
def reduceChain (c : Chain String ν) : Except Fault ν := do
  let sums ← multiplyOut apply c.first c.links
  addUp apply sums.first sums.links

end Passes

/-- An operator on numbers. -/
def applyOperator (o : Operator) (a b : Number) : Except Fault Number :=
  .double <$> DoubleOperation.ofOperator o a b

/-- The value of numbers with operators between them. Integers that no operator
    has used are rounded at the end. -/
def reduce (numbers : List Number) (operators : List String) : Except Fault Binary64 :=
  match Chain.ofLists? numbers operators with
  | none => .error (.format .unbalanced)
  | some c => do DoubleOperation.rounded (← reduceChain applyOperator c)

/-! ## Texts -/

/-- The value of an expression that has been read. -/
def evaluateScanned (c : Scanned) : Except Fault Binary64 :=
  reduce (c.values.map .double) (c.symbols.map Operator.text)

/-- The value of an expression. -/
def evaluate (s : String) : Except Fault Binary64 := do
  let c ← (scan s).mapError .format
  evaluateScanned c

/-- The value of an operand as an expression; only texts have one. -/
def evaluateValue : Value → Except Fault Binary64
  | .text s => evaluate s
  | _ => .error (.format .emptyExpression)

end InfixArithmetic.Expression
