/-
  InfixArithmetic.Table.Csv.Table

  The table that a comma-separated text holds.

  The first record names the columns. Those that it leaves empty get a placeholder,
  and a name that has been used before gets a number. The wider one of the first two
  records tells how many columns there are; if there are more than names, the names
  are those of the last columns. Shorter records are filled up with empty fields, and
  longer ones are refused. Every field is a text by itself, and is kept as it is.
-/

import InfixArithmetic.Table.Csv.Record
import InfixArithmetic.Text.Utf8

namespace InfixArithmetic.Csv

/-! ## The names of the columns -/

/-- The name of a column that is given none. -/
def placeholder (index : Nat) : List Char := ("Unnamed: " ++ Text.natural index).toList

/-- A name with a number after it. -/
def suffixed (name : List Char) (n : Nat) : List Char := name ++ '.' :: Nat.toDigits 10 n

/-- How often a name has been used. -/
def uses (used : List (List Char × Nat)) (name : List Char) : Nat :=
  (used.lookup name).getD 0

/-- Gives a name that has been used before its first free number. The names that
    are taken are at most as many as the columns, so one of the numbers tried is
    free. -/
def distinguish (state : List (List Char) × List (List Char × Nat)) (index : Nat) :
    List (List Char) × List (List Char × Nat) :=
  let (names, used) := state
  let name := names.getD index []
  match uses used name with
  | 0 => (names, (name, 1) :: used)
  | n =>
    let free := (List.range' n (names.length + 1)).find? fun k => !names.contains (suffixed name k)
    let k := free.getD n
    (names.set index (suffixed name k), (suffixed name k, 1) :: (name, k + 1) :: used)

/-- The names of the columns: empty ones are replaced, and then all are made
    different, those that were given before the others. -/
def columnNames (header : List (List Char)) : List (List Char) :=
  let indices := List.range header.length
  let isGiven (i : Nat) : Bool := header.getD i [] ≠ []
  let names := indices.map fun i => if isGiven i then header.getD i [] else placeholder i
  ((indices.filter isGiven ++ indices.filter (!isGiven ·)).foldl distinguish (names, [])).1

/-! ## Tables -/

/-- A table. The names are those of the last columns. -/
structure Table where
  names : List (List Char)
  columns : List (List (List Char))
deriving DecidableEq, Repr

/-- Why a text is no table. -/
inductive Fault where
  /-- There is no record. -/
  | noColumns
  | tooManyFields (expected line found : Nat)
  /-- The quotes of a record are not closed; so many lines come before it. -/
  | unclosedQuote (row : Nat)
  /-- A field is no text. -/
  | undecodable (fault : Text.Utf8.Fault)
deriving DecidableEq, Repr

def Fault.message : Fault → String
  | noColumns => "No columns to parse from file"
  | tooManyFields expected line found =>
    "Error tokenizing data. C error: Expected " ++ Text.natural expected ++
      " fields in line " ++ Text.natural line ++ ", saw " ++ Text.natural found ++ "\n"
  | unclosedQuote row =>
    "Error tokenizing data. C error: EOF inside string starting at row " ++
      Text.natural row
  | undecodable fault => fault.message

/-- The bytes without the mark that may stand before a text. -/
def dropMark : List UInt8 → List UInt8
  | 0xEF :: 0xBB :: 0xBF :: bs => bs
  | bs => bs

/-- The text in a field. -/
def fieldText (field : List UInt8) : Except Fault (List Char) :=
  (Text.Utf8.decode none field).mapError .undecodable

/-- The number of columns: the greater one of the numbers of fields in the first two
    records. -/
def width (all : List Record) : Nat :=
  ((all.take 2).map fun r => r.fields.length).foldl max 0

/-- The names of the columns. They are read as soon as the first two records have been
    taken. -/
def readNames (all : List Record) (unclosed : Option Nat) :
    Except Fault (List (List Char)) :=
  match all, unclosed with
  | [], none => .error .noColumns
  | [], some row | [_], some row => .error (.unclosedQuote row)
  | header :: _, _ => columnNames <$> header.fields.mapM fieldText

/-- Refuses a record that is too wide, or else one that is not closed. The first two
    records are never too wide. -/
def checkRecords (all : List Record) (unclosed : Option Nat) : Except Fault Unit :=
  match (all.drop 2).find? fun r => width all < r.fields.length, unclosed with
  | some r, _ => .error (.tooManyFields (width all) r.line r.fields.length)
  | none, some row => .error (.unclosedQuote row)
  | none, none => .ok ()

/-- The texts in a column, from the first record after the header to the last one. -/
def readColumn (body : List Record) (index : Nat) : Except Fault (List (List Char)) :=
  body.mapM fun r => fieldText (r.fields.getD index [])

/-- The table in a text. Its columns are read one after the other. -/
def parse (bs : List UInt8) : Except Fault Table := do
  let (all, unclosed) := records (dropMark bs)
  let names ← readNames all unclosed
  checkRecords all unclosed
  let columns ← (List.range (width all)).mapM (readColumn (all.drop 1))
  return ⟨names, columns⟩

/-- The column with a name. -/
def Table.column? (t : Table) (name : List Char) : Option (List (List Char)) :=
  (t.names.idxOf? name).map fun i => t.columns.getD (t.columns.length - t.names.length + i) []

end InfixArithmetic.Csv
