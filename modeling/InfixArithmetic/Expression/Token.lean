/-
  InfixArithmetic.Expression.Token

  The numbers and operators of an expression as one list, each with its place.
-/

import InfixArithmetic.Expression.Scan

namespace InfixArithmetic

/-- What a token stands for. -/
inductive TokenKind where
  | number (value : Binary64)
  | operator (o : Operator)
deriving DecidableEq, Repr

/-- A number or operator. One that is read from a text has a position. -/
structure Token where
  kind : TokenKind
  position : Option Nat
deriving DecidableEq, Repr

namespace Token

def ofNumber (x : Located Binary64) : Token := ⟨.number x.value, some x.position⟩

def ofOperator (o : Located Operator) : Token := ⟨.operator o.value, some o.position⟩

/-- An operator by itself, not read from a text. -/
def definition (o : Operator) : Token := ⟨.operator o, none⟩

/-- Numbers and operators in the order in which they were read. -/
def ofScanned (c : Expression.Scanned) : List Token :=
  ofNumber c.first :: c.links.flatMap fun (o, x) => [ofOperator o, ofNumber x]

def typeName (t : Token) : String :=
  match t.kind with
  | .number _ => "number"
  | .operator _ => "operator"

def name (t : Token) : String :=
  match t.kind with
  | .number _ => "number"
  | .operator o => o.name

def symbol? (t : Token) : Option String :=
  match t.kind with
  | .number _ => none
  | .operator o => some o.text

def value? (t : Token) : Option Binary64 :=
  match t.kind with
  | .number x => some x
  | .operator _ => none

/-- The precedence of an operator; a number has precedence zero. -/
def precedence (t : Token) : Nat :=
  match t.kind with
  | .number _ => 0
  | .operator o => o.precedence

/-- A token as it is shown in a listing. -/
def shown (t : Token) : String :=
  let place := match t.position with
    | some n => Text.natural n
    | none => "None"
  let what := match t.kind with
    | .number x => "NUMBER, " ++ Layout.displayed.render x
    | .operator o => "OPERATOR, " ++ Text.quoted o.text
  "Token(" ++ what ++ ", pos=" ++ place ++ ")"

end Token

namespace Expression

/-- The tokens of a text. -/
def tokenize (s : String) : Except FormatFault (List Token) := Token.ofScanned <$> scan s

/-- The tokens of a value, which has to be a text. -/
def tokenizeValue (v : Value) : Except FormatFault (List Token) :=
  Token.ofScanned <$> scanValue v

end Expression

end InfixArithmetic
