/-
  InfixArithmetic.CommandLine.Program

  A whole run of the program: from its arguments and the files around it to what it
  prints, logs and writes, and how it ends.
-/

import InfixArithmetic.CommandLine.Arguments
import InfixArithmetic.Expression.Token
import InfixArithmetic.Operation.Request
import InfixArithmetic.Table.Batch

namespace InfixArithmetic.Program

/-! ## Parts of a run -/

/-- What a part of a run prints and logs, and whether all went well in it. -/
structure Part where
  printed : List String
  log : List LogEntry
  success : Bool
deriving DecidableEq, Repr

namespace Part

/-- A part in which nothing happens. -/
def empty : Part := ⟨[], [], true⟩

/-- One part after the other. -/
def append (p q : Part) : Part :=
  ⟨p.printed ++ q.printed, p.log ++ q.log, p.success && q.success⟩

instance : Append Part := ⟨append⟩

/-- Parts in order. -/
def concat (ps : List Part) : Part := ps.foldr append empty

end Part

/-- A list as it is shown in a log entry. -/
def shownList (items : List String) : String := "[" ++ ", ".intercalate items ++ "]"

/-! ## Expressions -/

/-- What is logged when an expression is read. -/
def scanLog (s : String) : List LogEntry :=
  match Expression.scan s with
  | .error _ => []
  | .ok c =>
    [⟨.scanner, .debug, "Scanned " ++ Text.natural c.numbers.length ++ " numbers and " ++
      Text.natural c.operators.length ++ " operators from " ++
      Text.quoted (Expression.significant s)⟩]

/-- What is logged when an expression is evaluated. -/
def evaluationLog (s : String) : List LogEntry :=
  match Expression.scan s with
  | .error _ => []
  | .ok c =>
    scanLog s ++
      ⟨.evaluator, .debug, "Scanned " ++ Text.quoted s ++ ": numbers=" ++
        shownList (c.values.map Layout.displayed.render) ++ ", operators=" ++
        shownList (c.symbols.map fun o => Text.quoted o.text)⟩ ::
      match Expression.evaluateScanned c with
      | .error _ => []
      | .ok x =>
        [⟨.evaluator, .debug,
          "Result of " ++ Text.quoted s ++ ": " ++ Layout.displayed.render x⟩]

/-- The entry for an expression without a value. -/
def evaluationFailure (source : Source) (level : Level) (s : String) (f : Fault) :
    LogEntry :=
  ⟨source, level, "Failed to evaluate " ++ Text.quoted s ++ ": " ++ f.message⟩

/-- The listing of the tokens of an expression. It is empty for an expression that
    cannot be read, whose evaluation reports that. -/
def tokensPart (s : String) : Part :=
  match Expression.tokenize s with
  | .error _ => .empty
  | .ok ts =>
    let shown := ts.map Token.shown
    ⟨[" ".intercalate shown ++ "\n"],
      scanLog s ++ [⟨.scanner, .debug, "Tokens: " ++ shownList shown⟩], true⟩

/-- The evaluation of an expression. -/
def valuePart (s : String) : Part :=
  match Expression.evaluate s with
  | .ok x => ⟨[s ++ " = " ++ NumberText.format x ++ "\n"], evaluationLog s, true⟩
  | .error f =>
    ⟨[], evaluationLog s ++ [evaluationFailure .program .error s f], false⟩

/-- An expression of the command line. -/
def expressionPart (showTokens : Bool) (s : String) : Part :=
  (if showTokens then tokensPart s else .empty) ++ valuePart s

/-! ## A single operation -/

/-- The operation of the command line. -/
def operationPart (o : Operation) (t : OperandType) (operands : List String) : Part :=
  match o.applyTexts t operands with
  | .ok v =>
    ⟨[o.name ++ "(" ++ ", ".intercalate operands ++ ") = " ++ v.printed ++ "\n"], [], true⟩
  | .error f =>
    ⟨[], [⟨.program, .error, "Operation " ++ o.name ++ " failed: " ++ f.message⟩], false⟩

/-! ## A file of expressions -/

/-- The evaluation of an expression of a file. -/
def rowLog (s : String) : List LogEntry :=
  evaluationLog s ++
    match Expression.evaluate s with
    | .ok _ => []
    | .error f => [evaluationFailure .loader .warning s f]

/-- The line that sums up a file. -/
def summaryLine (s : Batch.Summary) : String :=
  "total=" ++ Text.natural s.total ++ " succeeded=" ++ Text.natural s.succeeded ++
    " failed=" ++ Text.natural s.failed ++ "\n"

/-- The entry that sums up a file. -/
def summaryEntry (s : Batch.Summary) : LogEntry :=
  ⟨.program, .info, "Evaluated " ++ Text.natural s.total ++ " expressions: " ++
    Text.natural s.succeeded ++ " succeeded, " ++ Text.natural s.failed ++ " failed"⟩

/-- The rows of a file that has been loaded. -/
def rowsPart (expressions : List String) : Part :=
  let summary := Batch.summarize (Batch.evaluateAll expressions)
  ⟨[summaryLine summary],
    ⟨.loader, .info, "Loaded " ++ Text.natural expressions.length ++ " expressions"⟩ ::
      (expressions.flatMap rowLog ++ [summaryEntry summary]),
    summary.failed = 0⟩

/-- What is logged before a file is loaded. -/
def loadingPart (path : String) : Part :=
  ⟨[], [⟨.loader, .info, "Loading expressions from " ++ path⟩], true⟩

/-- What is logged when a file cannot be loaded. -/
def loadFailurePart (path : String) (f : Dataset.Fault) : Part :=
  ⟨[], [⟨.program, .error, "Failed to load " ++ path ++ ": " ++ f.message⟩], false⟩

/-- What is logged before a file is saved. -/
def savingPart (path : String) : Part :=
  ⟨[], [⟨.loader, .info, "Saving results to " ++ path⟩], true⟩

/-! ## The whole run -/

/-- What a run prints, logs and writes. It ends with a status, or with the fault
    of a file that could not be written. -/
structure Outcome where
  printed : List String
  log : List LogEntry
  written : List Batch.Written
  ending : Except FileFault Nat

/-- The end of a run after the given parts: status 0 if all went well. -/
def Outcome.ofPart (p : Part) (written : List Batch.Written) : Outcome :=
  ⟨p.printed, p.log, written, .ok (if p.success then 0 else 1)⟩

/-- A path that is given and not empty. -/
def givenPath? (path? : Option String) : Option String := path?.filter (· ≠ "")

/-- The file of the command line, after everything before it. -/
def runFile (files : Files) (r : Request) (before : Part) (path : String) : Outcome :=
  let started := before ++ loadingPart path
  match Dataset.load files path (some r.expressionColumn) with
  | .error f => .ofPart (started ++ loadFailurePart path f) []
  | .ok expressions =>
    let evaluated := started ++ rowsPart expressions
    match givenPath? r.outputPath with
    | none => .ofPart evaluated []
    | some output =>
      -- What has been printed and logged stays so if the file cannot be written.
      let saved := evaluated ++ savingPart output
      match Batch.save files (Batch.evaluateAll expressions) (some output) with
      | .ok written => .ofPart saved [written]
      | .error f => ⟨saved.printed, saved.log, [], .error f⟩

/-- The parts before any file. -/
def runTexts (r : Request) : Part :=
  Part.concat (r.expressions.map (expressionPart r.showTokens)) ++
    match r.operation with
    | some o => operationPart o r.operandType r.operands
    | none => .empty

/-- A run on a request. -/
def run (files : Files) (r : Request) : Outcome :=
  match givenPath? r.inputPath with
  | none => .ofPart (runTexts r) []
  | some path => runFile files r (runTexts r) path

/-! ## The command line -/

/-- A run as it is seen from outside. -/
structure Transcript where
  output : String
  errors : String
  written : List Batch.Written
  ending : Except FileFault Nat

/-- The log lines of a run at a level. -/
def logText (time : String) (threshold : Level) (log : List LogEntry) : String :=
  String.join ((LogEntry.select threshold log).map (LogEntry.line time))

/-- A run on the arguments of a command line, its log lines with the given time. -/
def main (time : String) (files : Files) (args : List String) : Transcript :=
  match Request.parse args with
  | .error .help => ⟨Usage.help, "", [], .ok 0⟩
  | .error (.fault f) => ⟨"", f.report, [], .ok 2⟩
  | .ok r =>
    if r.isEmpty then ⟨Usage.help, "", [], .ok 2⟩
    else
      let o := run files r
      ⟨String.join o.printed, logText time r.logLevel o.log, o.written, o.ending⟩

end InfixArithmetic.Program
