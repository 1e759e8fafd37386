/-
  InfixArithmetic.CommandLine.Flag

  The flags of the command line.
-/

import InfixArithmetic.CommandLine.Log
import InfixArithmetic.Operation.Basic

namespace InfixArithmetic

/-- A flag. -/
inductive Flag where
  | help
  | showTokens
  | operation
  | operandType
  | operands
  | inputPath
  | expressionColumn
  | outputPath
  | logLevel
deriving DecidableEq, Repr

namespace Flag

/-- How many values follow a flag. -/
inductive Arity where
  | none
  | one
  | many
deriving DecidableEq, Repr

/-- All flags, in the order in which they are declared. -/
def all : List Flag :=
  [help, showTokens, operation, operandType, operands, inputPath, expressionColumn,
    outputPath, logLevel]

/-- The long name of a flag. -/
def name : Flag → String
  | help => "--help"
  | showTokens => "--show_tokens"
  | operation => "--operation"
  | operandType => "--operand_type"
  | operands => "--operands"
  | inputPath => "--input_path"
  | expressionColumn => "--expression_column"
  | outputPath => "--output_path"
  | logLevel => "--log_level"

/-- The short name of the only flag that has one. -/
def shortHelp : String := "-h"

/-- All names of a flag, as a message gives them. -/
def label : Flag → String
  | help => shortHelp ++ "/" ++ help.name
  | f => f.name

def arity : Flag → Arity
  | help | showTokens => .none
  | operands => .many
  | _ => .one

/-- The names of the operations in alphabetical order. -/
def operationNames : List String :=
  ["abs", "add", "divide", "multiply", "power", "square_root", "subtract", "super_sum"]

/-- The values that a flag is restricted to; no value is no restriction. -/
def choices : Flag → List String
  | operation => operationNames
  | operandType => OperandType.all.map OperandType.name
  | logLevel => Level.all.map Level.name
  | _ => []

/-- The flag with a long name. -/
def ofName? (s : List Char) : Option Flag := all.find? (·.name.toList == s)

/-- The flags with a long name that starts with the given text. -/
def startingWith (s : List Char) : List Flag :=
  all.filter fun f => s.isPrefixOf f.name.toList

@[simp] theorem ofName?_name (f : Flag) : ofName? f.name.toList = some f := by
  cases f <;> decide

end Flag

end InfixArithmetic
