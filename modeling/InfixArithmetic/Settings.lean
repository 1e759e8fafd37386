/-
  InfixArithmetic.Settings

  The settings in one record, their usual values, and the conditions under which
  they agree with each other.
-/

import InfixArithmetic.Decimal.Layout
import InfixArithmetic.Number

namespace InfixArithmetic

/-- The characters of expressions. -/
structure EvaluatorSettings where
  operators : String
  highPrecedence : String
  lowPrecedence : String
  unaryMinus : String
  decimalPoint : String
deriving DecidableEq, Repr

/-- The range of integer results. -/
structure Int32Settings where
  minValue : Int
  maxValue : Int
  modulus : Int
deriving DecidableEq, Repr

/-- How results are written. -/
structure FormatSettings where
  positionalMin : Number
  positionalMax : Number
  exponentDigits : Int
  positiveInfinity : String
  negativeInfinity : String
  nan : String
deriving DecidableEq, Repr

/-- What is logged, and the form of a log line. -/
structure LoggingSettings where
  level : String
  format : String
deriving DecidableEq, Repr

/-- The columns of tables, and where a table is saved. -/
structure DataSettings where
  expressionColumn : String
  resultColumn : String
  errorColumn : String
  defaultOutputPath : String
deriving DecidableEq, Repr

/-- All settings. -/
structure Settings where
  evaluator : EvaluatorSettings
  int32 : Int32Settings
  format : FormatSettings
  logging : LoggingSettings
  data : DataSettings
deriving DecidableEq, Repr

namespace Settings

/-- The usual settings. -/
def standard : Settings where
  evaluator := {
    operators := "+-*/"
    highPrecedence := "*/"
    lowPrecedence := "+-"
    unaryMinus := "-"
    decimalPoint := "." }
  int32 := {
    minValue := -2147483648
    maxValue := 2147483647
    modulus := 4294967296 }
  format := {
    positionalMin := .double Layout.plain.positionalFrom
    positionalMax := .double Layout.plain.positionalBelow
    exponentDigits := Layout.plain.exponentDigits
    positiveInfinity := Layout.plain.positiveInfinity
    negativeInfinity := Layout.plain.negativeInfinity
    nan := Layout.plain.nan }
  logging := {
    level := "INFO"
    format := "%(asctime)s - %(name)s - %(levelname)s - %(message)s" }
  data := {
    expressionColumn := "expression"
    resultColumn := "result"
    errorColumn := "error"
    defaultOutputPath := "evaluated_expressions.csv" }

/-! ## Agreement -/

/-- A condition that the settings do not meet. -/
inductive Violation where
  /-- The two precedences do not hold every operator exactly once. -/
  | precedences
  /-- The sign is not among the operators of low precedence. -/
  | unaryMinus
  /-- The point is among the operators. -/
  | decimalPoint
  /-- The range has not as many integers as the modulus says. -/
  | modulus
  /-- The positional range is empty. -/
  | positionalRange
  /-- The exponent has no digit. -/
  | exponentDigits
deriving DecidableEq, Repr

def Violation.message : Violation → String
  | precedences => "每个操作符必须恰好属于一个优先级"
  | unaryMinus => "一元负号必须同时是减法操作符"
  | _ => ""

/-- True if the first text occurs in the second. -/
def occursIn (part : List Char) : List Char → Bool
  | [] => part.isEmpty
  | c :: cs => part.isPrefixOf (c :: cs) || occursIn part cs

/-- The first condition that the settings do not meet, in a fixed order. The
    operators are the characters of a text, and so are those of each precedence. -/
def validate (s : Settings) : Except Violation Unit := do
  unless (s.evaluator.highPrecedence.toList ++ s.evaluator.lowPrecedence.toList).isPerm
      s.evaluator.operators.toList do
    throw .precedences
  unless occursIn s.evaluator.unaryMinus.toList s.evaluator.lowPrecedence.toList do
    throw .unaryMinus
  if occursIn s.evaluator.decimalPoint.toList s.evaluator.operators.toList then
    throw .decimalPoint
  unless s.int32.maxValue - s.int32.minValue + 1 = s.int32.modulus do
    throw .modulus
  unless s.format.positionalMin.lt s.format.positionalMax do
    throw .positionalRange
  unless 1 ≤ s.format.exponentDigits do
    throw .exponentDigits

/-- The usual settings agree with each other. -/
theorem validate_standard : validate standard = .ok () := by
  rfl

end Settings

end InfixArithmetic
