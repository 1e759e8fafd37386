/-
  InfixArithmetic.Main

  The command line program: looks up the files that the arguments name, runs, and
  passes on what the run prints, logs and writes.
-/

import InfixArithmetic.CommandLine.Program
import Std.Time.Format

namespace InfixArithmetic.Main

/-- The bytes of a file that can be read. -/
def bytes? (path : String) : IO (Option (List UInt8)) :=
  try
    return some (← IO.FS.readBinFile path).toList
  catch _ => return none

/-- Whether a path names a directory, which is when it can be entered. -/
def isDirectory (path : String) : IO Bool :=
  try
    let _ ← IO.FS.Handle.mk (path ++ "/.") .read
    return true
  catch _ => return false

/-- The files that a request can reach. -/
def lookUp (r : Request) : IO Files := do
  let input := r.inputPath.getD ""
  let output := r.outputPath.getD ""
  let contents ← (input :: Path.ancestors input).mapM fun path => do
    return (path, ← bytes? path)
  let directories ← [input, output, Path.parent output].filterM isDirectory
  return {
    bytes? := fun path => (contents.lookup path).join
    isDirectory := fun path => path ∈ directories }

/-- The current time as it stands before a log entry. -/
def timestamp : IO String := do
  return (← Std.Time.PlainDateTime.now).format "uuuu-MM-dd HH:mm:ss,SSS"

/-- Runs the program on the arguments of the command line. -/
def run (args : List String) : IO UInt32 := do
  let request := match Request.parse args with
    | .ok r => r
    | .error _ => {}
  let files ← lookUp request
  let transcript := Program.main (← timestamp) files args
  IO.print transcript.output
  IO.eprint transcript.errors
  for file in transcript.written do
    IO.FS.writeBinFile file.path ⟨file.content.toArray⟩
  match transcript.ending with
  | .ok status => return status.toUInt32
  | .error fault =>
    IO.eprintln fault.message
    return 1

end InfixArithmetic.Main

def main (args : List String) : IO UInt32 := InfixArithmetic.Main.run args
