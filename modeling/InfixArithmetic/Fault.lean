/-
  InfixArithmetic.Fault

  Why an expression or an operation has no value, one constructor for every cause,
  and the message of each.
-/

import InfixArithmetic.Value

namespace InfixArithmetic

/-- What is wrong with an expression or an operand. -/
inductive FormatFault where
  /-- The expression is no text, or a text of blanks. -/
  | emptyExpression
  /-- No number can be read at a place that needs one. -/
  | invalidNumber (position : Nat)
  /-- A number is followed by something that is no operator. -/
  | invalidOperator (position : Nat)
  /-- There is not exactly one number more than there are operators. -/
  | unbalanced
  | unknownOperator (symbol : String)
  /-- The operand is not a text that holds a number. -/
  | notNumeric (operand : Value)
  | negativeRadicand
  /-- The operand is not an integer. -/
  | notInteger (operand : Value)
  | outsideInt32 (value : Int)
  /-- Two numbers written after each other do not give a floating-point number. -/
  | joinedNotDouble
  /-- Two integers written after each other do not give a number. -/
  | joinedNotInteger
  | operandCount (operation : String) (expected given : Nat)
  /-- The text is not a decimal integer. -/
  | invalidInteger (text : String)
deriving DecidableEq

/-- Which undefined division or power was asked for. -/
inductive DivisionFault where
  | zeroDivisor
  | zeroToNegativePower
  | negativeIntegerPower
deriving DecidableEq

/-- Why there is no value. -/
inductive Fault where
  | format (fault : FormatFault)
  | division (fault : DivisionFault)
  /-- An integer is too large for a floating-point operation. -/
  | tooLarge
deriving DecidableEq

namespace FormatFault

def message : FormatFault → String
  | emptyExpression => "Input string cannot be empty or null."
  | invalidNumber position => "Invalid number at position " ++ Text.natural position
  | invalidOperator position => "Invalid operator at position " ++ Text.natural position
  | unbalanced => "Invalid expression format"
  | unknownOperator symbol => "Unknown operator: " ++ Text.quoted symbol
  | notNumeric operand => "Strings must contain valid numbers: " ++ operand.shown
  | negativeRadicand => "Square root of negative number is not defined"
  | notInteger operand => "Expected an int32 value, got " ++ operand.shown
  | outsideInt32 value => "Value " ++ Text.integer value ++ " is outside the int32 range"
  | joinedNotDouble => "Concatenated value is not a valid double."
  | joinedNotInteger => "Concatenated value is not a valid integer."
  | operandCount operation expected given =>
    "Operation '" ++ operation ++ "' expects " ++ Text.natural expected ++
      " operand(s), got " ++ Text.natural given
  | invalidInteger text => "Invalid int32 operand: " ++ Text.quoted text

end FormatFault

namespace DivisionFault

def message : DivisionFault → String
  | zeroDivisor => "Division by zero"
  | zeroToNegativePower => "Zero cannot be raised to a negative power"
  | negativeIntegerPower => "Integer power doesn't support negative exponents"

end DivisionFault

namespace Fault

def message : Fault → String
  | format fault => fault.message
  | division fault => fault.message
  | tooLarge => "int too large to convert to float"

/-- The kind of a fault as it is named in a table of results. -/
def kind : Fault → String
  | format _ => "FormatError"
  | division _ => "DivisionByZero"
  | tooLarge => "OverflowError"

end Fault

end InfixArithmetic
