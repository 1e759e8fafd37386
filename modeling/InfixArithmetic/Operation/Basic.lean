/-
  InfixArithmetic.Operation.Basic

  The names of the operations and how many operands each takes.
-/

namespace InfixArithmetic

/-- A named operation. -/
inductive Operation where
  | add
  | subtract
  | multiply
  | divide
  | power
  | squareRoot
  | abs
  | superSum
deriving DecidableEq, Repr

namespace Operation

/-- All operations, in the order in which a table lists them. -/
def all : List Operation :=
  [add, subtract, multiply, divide, power, squareRoot, abs, superSum]

/-- The name an operation is asked for by. -/
def name : Operation → String
  | add => "add"
  | subtract => "subtract"
  | multiply => "multiply"
  | divide => "divide"
  | power => "power"
  | squareRoot => "square_root"
  | abs => "abs"
  | superSum => "super_sum"

/-- The number of operands. -/
def arity : Operation → Nat
  | squareRoot | abs => 1
  | _ => 2

/-- The operation with a name. -/
def ofName? (s : String) : Option Operation := all.find? (·.name == s)

@[simp] theorem ofName?_name (o : Operation) : ofName? o.name = some o := by
  cases o <;> decide

/-- An operation is found under its own name only. -/
theorem name_of_ofName? {s : String} {o : Operation} (h : ofName? s = some o) :
    o.name = s := by
  simpa using List.find?_some h

end Operation

/-- The type of operands an operation works on. -/
inductive OperandType where
  | float
  | int
  | string
deriving DecidableEq, Repr

namespace OperandType

/-- All operand types, in the order of their names. -/
def all : List OperandType := [float, int, string]

/-- The name an operand type is asked for by. -/
def name : OperandType → String
  | float => "float"
  | int => "int"
  | string => "string"

/-- The operand type with a name. -/
def ofName? (s : String) : Option OperandType := all.find? (·.name == s)

@[simp] theorem ofName?_name (t : OperandType) : ofName? t.name = some t := by
  cases t <;> decide

end OperandType

end InfixArithmetic
