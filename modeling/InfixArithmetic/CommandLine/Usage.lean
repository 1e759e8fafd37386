/-
  InfixArithmetic.CommandLine.Usage

  The usage and the help of the program, and the messages for a command line that
  cannot be understood.
-/

import InfixArithmetic.CommandLine.Flag
import InfixArithmetic.Text.Display

namespace InfixArithmetic

namespace Usage

/-- Lines as a text. -/
def unlines (ls : List String) : String := String.join (ls.map (· ++ "\n"))

/-- Choices as they stand in the usage. -/
def choiceSet (names : List String) : String := "\x7b" ++ ",".intercalate names ++ "\x7d"

def usage : String := unlines [
  "usage: main.py [-h] [--show_tokens]",
  "               [--operation " ++ choiceSet (Flag.choices .operation) ++ "]",
  "               [--operand_type " ++ choiceSet (Flag.choices .operandType) ++ "]",
  "               [--operands OPERANDS [OPERANDS ...]] [--input_path INPUT_PATH]",
  "               [--expression_column EXPRESSION_COLUMN]",
  "               [--output_path OUTPUT_PATH]",
  "               [--log_level " ++ choiceSet (Flag.choices .logLevel) ++ "]",
  "               [expressions ...]"]

def help : String := usage ++ unlines [
  "",
  "Arithmetic expression evaluator",
  "",
  "positional arguments:",
  "  expressions           Infix expressions to evaluate, e.g. \"2+3*4\"",
  "",
  "options:",
  "  -h, --help            show this help message and exit",
  "  --show_tokens         Print the scanned tokens of each expression",
  "  --operation " ++ choiceSet (Flag.choices .operation),
  "                        Run a single arithmetic operation",
  "  --operand_type " ++ choiceSet (Flag.choices .operandType),
  "                        Operand type for --operation (default: float)",
  "  --operands OPERANDS [OPERANDS ...]",
  "                        Operands for --operation",
  "  --input_path INPUT_PATH",
  "                        CSV file or text file (one expression per line) to",
  "                        evaluate",
  "  --expression_column EXPRESSION_COLUMN",
  "                        Name of the expression column in a CSV input",
  "  --output_path OUTPUT_PATH",
  "                        Path to save the batch results as CSV",
  "  --log_level " ++ choiceSet (Flag.choices .logLevel),
  "                        Logging level"]

end Usage

/-- Why a command line cannot be understood. -/
inductive UsageFault where
  /-- The argument is the start of several flags. -/
  | ambiguous (argument : String) (candidates : List Flag)
  | missingValue (flag : Flag)
  /-- A value is attached to a flag that takes none. -/
  | unwantedValue (flag : Flag) (value : String)
  | invalidChoice (flag : Flag) (value : String)
  | unrecognized (arguments : List String)
deriving DecidableEq, Repr

namespace UsageFault

/-- A message about a flag. -/
def about (flag : Flag) (text : String) : String := "argument " ++ flag.label ++ ": " ++ text

def message : UsageFault → String
  | ambiguous argument candidates =>
    "ambiguous option: " ++ argument ++ " could match " ++
      ", ".intercalate (candidates.map Flag.name)
  | missingValue flag =>
    about flag (if flag.arity = .many then "expected at least one argument"
      else "expected one argument")
  | unwantedValue flag value => about flag ("ignored explicit argument " ++ Text.quoted value)
  | invalidChoice flag value =>
    about flag ("invalid choice: " ++ Text.quoted value ++ " (choose from " ++
      ", ".intercalate (flag.choices.map Text.quoted) ++ ")")
  | unrecognized arguments => "unrecognized arguments: " ++ " ".intercalate arguments

/-- Everything that is said about a fault. -/
def report (f : UsageFault) : String :=
  Usage.usage ++ "main.py: error: " ++ f.message ++ "\n"

end UsageFault

end InfixArithmetic
