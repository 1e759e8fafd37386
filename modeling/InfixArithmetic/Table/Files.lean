/-
  InfixArithmetic.Table.Files

  The files that a program can see: their names, what reading one gives, and which
  directories there are.
-/

import InfixArithmetic.Text.Display

namespace InfixArithmetic

/-! ## Names of files -/

namespace Path

/-- The parts of a path between slashes, without the empty ones and those that mean
    the same directory. -/
def parts (path : String) : List (List Char) :=
  (path.toList.splitOn '/').filter fun part => part ≠ [] ∧ part ≠ ['.']

/-- True of the paths that start at the root. -/
def isAbsolute (path : String) : Bool := path.toList.head? == some '/'

/-- A path with the given parts. -/
def ofParts (absolute : Bool) (parts : List (List Char)) : String :=
  let joined := ['/'].intercalate parts
  String.ofList (if absolute then '/' :: joined else if parts = [] then ['.'] else joined)

/-- A path without its redundant parts. -/
def normalize (path : String) : String := ofParts (isAbsolute path) (parts path)

/-- The directory that a file lies in. -/
def parent (path : String) : String := ofParts (isAbsolute path) (parts path).dropLast

/-- All directories on the way to a file. -/
def ancestors (path : String) : List String :=
  let ps := parts path
  (List.range' 1 (ps.length - 1)).map fun n => ofParts (isAbsolute path) (ps.take n)

/-- True of the paths that can only name a directory: the last slash is followed by
    nothing but a single point. -/
def namesDirectory (path : String) : Bool :=
  let last := (path.toList.splitOn '/').getLast?
  last == some [] || last == some ['.']

end Path

/-! ## Files -/

/-- Why a file cannot be read or written. -/
inductive FileFault where
  | missing (path : String)
  | isDirectory (path : String)
  /-- Something on the way is a file. -/
  | notDirectory (path : String)
  /-- The directory that the file should lie in does not exist. -/
  | noParent (parent : String)
deriving DecidableEq, Repr

def FileFault.message : FileFault → String
  | missing path => "[Errno 2] No such file or directory: " ++ Text.quoted path
  | isDirectory path => "[Errno 21] Is a directory: " ++ Text.quoted path
  | notDirectory path => "[Errno 20] Not a directory: " ++ Text.quoted path
  | noParent parent => "Cannot save file into a non-existent directory: '" ++ parent ++ "'"

/-- The files and directories around a program, looked up by path. -/
structure Files where
  bytes? : String → Option (List UInt8)
  isDirectory : String → Bool

namespace Files

/-- The given files, with the directories that they lie in, around an otherwise
    empty current directory. -/
def ofList (files : List (String × List UInt8)) : Files where
  bytes? path :=
    (files.find? fun file => Path.normalize file.1 == Path.normalize path).map Prod.snd
  isDirectory path :=
    let parts := Path.parts path
    parts.all (· == ['.', '.']) ||
      (!Path.isAbsolute path &&
        files.any fun file => parts.isPrefixOf (Path.parts file.1).dropLast)

/-- The bytes of a file. -/
def read (files : Files) (path : String) : Except FileFault (List UInt8) :=
  if files.isDirectory path then .error (.isDirectory path)
  else
    match files.bytes? path with
    | some bytes => if Path.namesDirectory path then .error (.notDirectory path) else .ok bytes
    | none =>
      if (Path.ancestors path).any fun p => (files.bytes? p).isSome then
        .error (.notDirectory path)
      else .error (.missing path)

/-- Whether a file can be written. -/
def checkWritable (files : Files) (path : String) : Except FileFault Unit :=
  if !files.isDirectory (Path.parent path) then .error (.noParent (Path.parent path))
  else if files.isDirectory path || Path.namesDirectory path then
    .error (.isDirectory path)
  else .ok ()

end Files

end InfixArithmetic
