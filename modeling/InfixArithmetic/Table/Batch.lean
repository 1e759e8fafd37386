/-
  InfixArithmetic.Table.Batch

  Many expressions evaluated one by one: a table with a row for each, a summary of
  it, and the file it is saved to.

  A table is saved as the bytes of its text whatever the file is called. The names that
  ask for a compressed file (those that end in `.gz`, `.bz2`, `.zip`, `.xz`, `.zst` or
  `.tar`) are not told from others here, so `save` describes the files with other names
  only; the names of tables, which end in `.csv`, are among those.
-/

import InfixArithmetic.Expression.Evaluate
import InfixArithmetic.Table.Csv.Record
import InfixArithmetic.Table.Dataset

namespace InfixArithmetic.Batch

/-- An expression with its value and no error, or with NaN and the fault that it
    has instead. -/
structure Row where
  expression : String
  result : Binary64
  error : String
deriving DecidableEq, Repr

/-- A fault as it stands in a table. -/
def faultText (f : Fault) : String := f.kind ++ ": " ++ f.message

/-- The row of an expression with the given outcome. -/
def Row.ofOutcome (expression : String) : Except Fault Binary64 → Row
  | .ok x => ⟨expression, x, ""⟩
  | .error f => ⟨expression, .nan, faultText f⟩

/-- The row of an expression. -/
def Row.ofExpression (s : String) : Row := .ofOutcome s (Expression.evaluate s)

/-- The rows of expressions. -/
def evaluateAll (expressions : List String) : List Row := expressions.map Row.ofExpression

/-- The names of the columns. -/
def columns : List String :=
  [Settings.standard.data.expressionColumn, Settings.standard.data.resultColumn,
    Settings.standard.data.errorColumn]

/-- How many rows there are, and how many of them have a value. -/
structure Summary where
  total : Nat
  succeeded : Nat
  failed : Nat
deriving DecidableEq, Repr

/-- The summary of rows. A row has failed if it has an error. -/
def summarize (rows : List Row) : Summary :=
  let failed := rows.countP (·.error ≠ "")
  ⟨rows.length, rows.length - failed, failed⟩

/-! ## Saving -/

/-- A result as it is saved: NaN is an empty field. -/
def resultField (x : Binary64) : String :=
  if x.isNaN then "" else Layout.displayed.render x

/-- The fields of a row as they are saved. -/
def Row.fields (r : Row) : List String := [r.expression, resultField r.result, r.error]

/-- The bytes of a field. -/
def fieldBytes (s : String) : List UInt8 := Text.Utf8.encode s.toList

/-- The bytes of the file that rows are saved to. -/
def toCsv (rows : List Row) : List UInt8 :=
  Csv.write ((columns :: rows.map Row.fields).map (·.map fieldBytes))

/-- The path that rows are saved to. -/
def outputPath (path? : Option String) : String :=
  Dataset.orDefault path? Settings.standard.data.defaultOutputPath

/-- A file with its whole content. -/
structure Written where
  path : String
  content : List UInt8
deriving DecidableEq, Repr

/-- The file that saving rows writes. -/
def save (files : Files) (rows : List Row) (path? : Option String) :
    Except FileFault Written :=
  let path := outputPath path?
  (files.checkWritable path).map fun _ => ⟨path, toCsv rows⟩

end InfixArithmetic.Batch
