/-
  InfixArithmetic.Operation.Request

  Operations asked for by name, with operands given as texts.
-/

import InfixArithmetic.Operation.Apply

namespace InfixArithmetic

/-! ## Decimal integers -/

namespace IntegerText

open Text (digitValue?)

/-- The digits of an integer. One underscore may stand between two of them;
    `afterDigit` tells whether a digit comes just before. -/
def readDigits? : Bool → List Char → Option (List Nat)
  | afterDigit, [] => if afterDigit then some [] else none
  | afterDigit, c :: cs =>
    if c = '_' then if afterDigit then readDigits? false cs else none
    else
      match digitValue? c with
      | some d => (readDigits? true cs).map (d :: ·)
      | none => none

/-- The most digits that are read. -/
def maxDigits : Nat := 4300

/-- True of the blanks that may stand around an integer: all but the ASCII
    information separators. -/
def isMargin (c : Char) : Bool :=
  Text.isBlank c && !(0x1C ≤ c.toNat && c.toNat ≤ 0x1F)

/-- The integer that a text holds between blanks. -/
def parse? (s : String) : Option Int :=
  let (negative, cs) := Numeral.takeSign (Text.trimBy isMargin s.toList)
  match readDigits? false cs with
  | some ds =>
    if ds.length ≤ maxDigits then
      some (if negative then -(Numeral.ofDigits ds : Int) else Numeral.ofDigits ds)
    else none
  | none => none

end IntegerText

/-! ## Requests -/

/-- Why a request has no answer. -/
inductive RequestFault where
  /-- There is no operation or operand type with the name. -/
  | unknownName (name : String)
  | fault (fault : Fault)
deriving DecidableEq

namespace Operation

/-- An operand given as a text, as a value of the operand type. -/
def convert (t : OperandType) (s : String) : Except Fault Value :=
  match t with
  | .float => .double <$> NumberText.parse (.text s)
  | .int =>
    match IntegerText.parse? s with
    | some i => .ok (.int i)
    | none => .error (.format (.invalidInteger s))
  | .string => .ok (.text s)

/-- An operation on operands given as texts: their number is checked first, then
    all are converted in order. -/
def applyTexts (o : Operation) (t : OperandType) (operands : List String) :
    Except Fault Value :=
  if operands.length = o.arity then do
    apply t o (← operands.mapM (convert t))
  else .error (o.countFault operands.length)

/-- The operation with a name on operands of the type with a name. The names are
    looked up before and after the operands are counted. -/
def request (operation operandType : String) (operands : List String) :
    Except RequestFault Value :=
  match ofName? operation with
  | none => .error (.unknownName operation)
  | some o =>
    match OperandType.ofName? operandType with
    | some t => (o.applyTexts t operands).mapError .fault
    | none =>
      -- The type is first needed to convert an operand.
      if operands.length = o.arity then .error (.unknownName operandType)
      else .error (.fault (o.countFault operands.length))

end Operation

/-- A result as it is printed. -/
def Value.printed : Value → String
  | .text s => s
  | .double x => Layout.plain.render x
  | v => v.shown

end InfixArithmetic
