/-
  InfixArithmetic.Table.Dataset

  The expressions of a file: a column of a table if its name ends in `.csv`, and
  otherwise its lines, without the blanks around them and without the lines that
  hold nothing else.
-/

import InfixArithmetic.Settings
import InfixArithmetic.Table.Csv.Table
import InfixArithmetic.Table.Files
import InfixArithmetic.Text.Whitespace

namespace InfixArithmetic.Dataset

/-- Why a file gives no expressions. -/
inductive Fault where
  | file (fault : FileFault)
  | undecodable (fault : Text.Utf8.Fault)
  | table (fault : Csv.Fault)
  | missingColumn (name : String)
deriving DecidableEq, Repr

def Fault.message : Fault → String
  | file fault => fault.message
  | undecodable fault => fault.message
  | table fault => fault.message
  | missingColumn name => "Expression column '" ++ name ++ "' not found in dataset."

/-- True of the names of files that hold tables. -/
def isTable (path : String) : Bool := ".csv".toList.isSuffixOf path.toList

/-- The number of bytes in which lines are read. -/
def lineBlock : Nat := 8192

/-- The expressions of a text, one on a line. -/
def expressionLines (cs : List Char) : List (List Char) :=
  ((Text.lines cs).map Text.trim).filter (· ≠ [])

/-- The given text, or another one if it is empty or not given. -/
def orDefault (text? : Option String) (default : String) : String :=
  match text? with
  | some text => if text = "" then default else text
  | none => default

/-- The column that a table's expressions are in. -/
def column (name? : Option String) : String :=
  orDefault name? Settings.standard.data.expressionColumn

/-- The expressions in a column of a table. -/
def columnExpressions (name : String) (bytes : List UInt8) :
    Except Fault (List (List Char)) :=
  match Csv.parse bytes with
  | .error fault => .error (.table fault)
  | .ok table =>
    match table.column? name.toList with
    | some fields => .ok fields
    | none => .error (.missingColumn name)

/-- The expressions in the bytes of a file. -/
def expressions (path : String) (column? : Option String) (bytes : List UInt8) :
    Except Fault (List (List Char)) :=
  if isTable path then columnExpressions (column column?) bytes
  else
    match Text.Utf8.decode (some lineBlock) bytes with
    | .error fault => .error (.undecodable fault)
    | .ok cs => .ok (expressionLines cs)

/-- The expressions of a file. -/
def load (files : Files) (path : String) (column? : Option String) :
    Except Fault (List String) :=
  match files.read path with
  | .error fault => .error (.file fault)
  | .ok bytes => (expressions path column? bytes).map (·.map String.ofList)

end InfixArithmetic.Dataset
