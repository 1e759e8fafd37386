/-
  InfixArithmetic.Expression.Operator

  The four binary operators of an expression and their two precedences.
-/

import InfixArithmetic.Fault

namespace InfixArithmetic

/-- A binary operator. -/
inductive Operator where
  | add
  | subtract
  | multiply
  | divide
deriving DecidableEq, Repr

namespace Operator

/-- All operators, in the order of their settings. -/
def all : List Operator := [add, subtract, multiply, divide]

/-- The character an operator is written with. -/
def symbol : Operator → Char
  | add => '+'
  | subtract => '-'
  | multiply => '*'
  | divide => '/'

/-- The name of the operation an operator stands for. -/
def name : Operator → String
  | add => "add"
  | subtract => "subtract"
  | multiply => "multiply"
  | divide => "divide"

/-- Multiplication and division bind more tightly. -/
def precedence : Operator → Nat
  | add | subtract => 1
  | multiply | divide => 2

/-- True of the operators that are applied first. -/
def isHigh (o : Operator) : Bool := o.precedence == 2

theorem isHigh_iff {o : Operator} : o.isHigh = true ↔ o = multiply ∨ o = divide := by
  cases o <;> decide

theorem isHigh_eq_false_iff {o : Operator} : o.isHigh = false ↔ o = add ∨ o = subtract := by
  cases o <;> decide

/-- The operator written with a character. -/
def ofSymbol? : Char → Option Operator
  | '+' => some add
  | '-' => some subtract
  | '*' => some multiply
  | '/' => some divide
  | _ => none

/-- The operator written as a text, which is one character. -/
def ofText? (s : String) : Option Operator :=
  match s.toList with
  | [c] => ofSymbol? c
  | _ => none

/-- True of the texts that are one of the operators. -/
def isOperator (s : String) : Bool := (ofText? s).isSome

/-- An operator as a text. -/
def text (o : Operator) : String := String.ofList [o.symbol]

@[simp] theorem ofSymbol?_symbol (o : Operator) : ofSymbol? o.symbol = some o := by
  cases o <;> rfl

/-- A character is read as the operator that is written with it. -/
theorem symbol_of_ofSymbol? {c : Char} {o : Operator} (h : ofSymbol? c = some o) :
    o.symbol = c := by
  revert h
  unfold ofSymbol?
  split <;> rintro ⟨⟩ <;> rfl

/-- No two operators are written with the same character. -/
theorem eq_of_symbol_eq {o p : Operator} (h : o.symbol = p.symbol) : o = p := by
  rw [← Option.some.injEq, ← ofSymbol?_symbol o, h, ofSymbol?_symbol]

@[simp] theorem ofText?_text (o : Operator) : ofText? o.text = some o := by
  simp [ofText?, text]

/-- A text is read as the operator that it is. -/
theorem text_of_ofText? {s : String} {o : Operator} (h : ofText? s = some o) :
    o.text = s := by
  unfold ofText? at h
  split at h
  next c hc => rw [text, symbol_of_ofSymbol? h, ← hc, String.ofList_toList]
  next => cases h

end Operator

end InfixArithmetic
