/-
  InfixArithmetic.Expression.Scan

  Reading an expression: its blanks are dropped, and what is left has to be
  literals with an operator between each two neighbours. A literal is an optional
  minus and then the longest run of digits and points, and it has to be a numeral.
  Positions count the characters that are left.
-/

import InfixArithmetic.Decimal.Numeral
import InfixArithmetic.Expression.Chain
import InfixArithmetic.Expression.Operator

namespace InfixArithmetic

/-- Something read from an expression, and where it starts. -/
structure Located (α : Type) where
  value : α
  position : Nat
deriving DecidableEq, Repr

namespace Expression

open Text (squeeze)

/-- What an expression is read as. -/
abbrev Scanned := Chain (Located Operator) (Located Binary64)

/-! ## Literals -/

/-- True of the characters that continue a literal. -/
def isLiteralChar (c : Char) : Bool := ('0' ≤ c && c ≤ '9') || c == '.'

/-- A run of digits and points, and the rest. -/
def takeRun : List Char → List Char × List Char
  | [] => ([], [])
  | c :: cs =>
    if isLiteralChar c then let (run, rest) := takeRun cs; (c :: run, rest)
    else ([], c :: cs)

/-- The literal at the start of a text, which may turn out to be no numeral, and
    the rest. -/
def takeLiteral : List Char → List Char × List Char
  | [] => ([], [])
  | c :: cs =>
    if c = '-' then let (run, rest) := takeRun cs; (c :: run, rest)
    else takeRun (c :: cs)

theorem takeRun_append (cs : List Char) : (takeRun cs).1 ++ (takeRun cs).2 = cs := by
  induction cs with
  | nil => rfl
  | cons c cs ih =>
    simp only [takeRun]
    split
    · simp [ih]
    · rfl

/-- Nothing is lost between a literal and the rest. -/
theorem takeLiteral_append (cs : List Char) :
    (takeLiteral cs).1 ++ (takeLiteral cs).2 = cs := by
  cases cs with
  | nil => rfl
  | cons c cs =>
    simp only [takeLiteral]
    split
    · simp [takeRun_append]
    · exact takeRun_append (c :: cs)

/-- The value of a literal. -/
def literalValue? (literal : List Char) : Option Binary64 :=
  (Numeral.read? literal).map Numeral.toBinary64

/-! ## Expressions -/

/-- Reads literals and operators in turn from a text whose first character has the
    given position. -/
def scanFrom (position : Nat) (cs : List Char) : Except FormatFault Scanned :=
  let literal := (takeLiteral cs).1
  match literalValue? literal with
  | none => .error (.invalidNumber position)
  | some x =>
    match _hrest : (takeLiteral cs).2 with
    | [] => .ok ⟨⟨x, position⟩, []⟩
    | c :: after =>
      let next := position + literal.length
      match Operator.ofSymbol? c with
      | none => .error (.invalidOperator next)
      | some o =>
        -- An operator at the very end is wanting a number, but no number is wrong.
        if after = [] then .error .unbalanced
        else (scanFrom (next + 1) after).map (Chain.cons ⟨x, position⟩ ⟨o, next⟩)
termination_by cs.length
decreasing_by
  have := congrArg List.length (takeLiteral_append cs)
  rw [_hrest] at this
  simp only [List.length_append, List.length_cons] at this
  omega

/-- What a text is read as. -/
def scan (s : String) : Except FormatFault Scanned :=
  match squeeze s.toList with
  | [] => .error .emptyExpression
  | cs => scanFrom 0 cs

/-- The characters of a text that count. -/
def significant (s : String) : String := String.ofList (squeeze s.toList)

/-- Only texts are read. -/
def scanValue : Value → Except FormatFault Scanned
  | .text s => scan s
  | _ => .error .emptyExpression

end Expression

namespace Chain

/-- The numbers of a scanned expression. -/
def values (c : Expression.Scanned) : List Binary64 := c.numbers.map Located.value

/-- The operators of a scanned expression. -/
def symbols (c : Expression.Scanned) : List Operator := c.operators.map Located.value

end Chain

end InfixArithmetic
