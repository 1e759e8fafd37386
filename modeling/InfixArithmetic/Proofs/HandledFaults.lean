/-
  InfixArithmetic.Proofs.HandledFaults

  A run stage by stage, with the faults that every stage handles.

  `Program.run` tells what becomes of every expression, of the operation and of the file.
  Here the same run is written down the way it goes: an action prints, logs and writes until
  something is raised, which ends all actions around it up to a handler for its kind.
  Expressions, rows and the operation have a handler for faults of evaluation, loading has
  one for files and values, and saving has none.

  Both come to the same (`stagedRun_eq`), which takes that no stage raises anything that its
  handler does not know.  The only such fault is an integer that is too large for a
  floating-point operation: an expression has none (`BatchRows.isReported_of_evaluate`), and
  neither has an operation on texts, since no text is converted to an integer on the way to
  such an operation (`reported_applyTexts`).
-/

import InfixArithmetic.Proofs.OperationFaults
import InfixArithmetic.Proofs.ProgramRuns

namespace InfixArithmetic

@[simp] theorem Program.Part.log_append (p q : Part) : (p ++ q).log = p.log ++ q.log := rfl

namespace HandledFaults

open BatchRows (isReported isReported_of_evaluate)
open EvaluationOutcomes (evaluate_eq_of_not_scan)
open OperationFaults (reported_applyTexts)
open Expression (evaluate scan tokenize)
open Program (Part Outcome evaluationLog expressionPart givenPath? operationPart rowLog rowsPart
  run runFile runTexts summaryEntry summaryLine tokensPart valuePart)

/-! ## What is raised -/

/-- Something raised in a run. -/
inductive Raised where
  | evaluation (fault : Fault)
  | loading (fault : Dataset.Fault)
  | saving (fault : FileFault)
deriving DecidableEq

/-- The kinds that a handler can name. -/
inductive Kind where
  | evaluation
  | arithmetic
  | value
  | file
deriving DecidableEq, Repr

namespace Raised

def message : Raised → String
  | evaluation fault => fault.message
  | loading fault => fault.message
  | saving fault => fault.message

/-- The kinds that something raised is of. -/
def kinds : Raised → List Kind
  | evaluation (.format _) => [.evaluation, .value]
  | evaluation (.division _) => [.evaluation, .arithmetic]
  | evaluation .tooLarge => [.arithmetic]
  | loading (.file _) => [.file]
  | loading (.undecodable _) | loading (.table _) | loading (.missingColumn _) => [.value]
  | saving _ => [.file]

/-- True if a handler for the given kinds knows it. -/
def isKnown (handled : List Kind) (e : Raised) : Bool := e.kinds.any (· ∈ handled)

end Raised

/-! ## Actions -/

/-- What an action prints, logs and writes, and the value that it comes to or what it
    raises. -/
structure Action (α : Type) where
  printed : List String
  log : List LogEntry
  written : List Batch.Written
  result : Except Raised α

namespace Action

variable {α β : Type}

/-- What has been done before something is raised stays done. -/
def andThen (x : Action α) (next : α → Action β) : Action β :=
  match x.result with
  | .ok a =>
    ⟨x.printed ++ (next a).printed, x.log ++ (next a).log, x.written ++ (next a).written,
      (next a).result⟩
  | .error e => ⟨x.printed, x.log, x.written, .error e⟩

instance : Monad Action where
  pure a := ⟨[], [], [], .ok a⟩
  bind := andThen

def print (line : String) : Action Unit := ⟨[line], [], [], .ok ()⟩

def enter (entries : List LogEntry) : Action Unit := ⟨[], entries, [], .ok ()⟩

def write (file : Batch.Written) : Action Unit := ⟨[], [], [file], .ok ()⟩

/-- Nothing but a result, whose fault is raised. -/
def ofExcept {ε : Type} (raised : ε → Raised) (result : Except ε α) : Action α :=
  ⟨[], [], [], result.mapError raised⟩

/-- An action under a handler for some kinds. Anything else goes on being raised. -/
def handling (handled : List Kind) (x : Action α) (handler : Raised → Action α) : Action α :=
  match x.result with
  | .ok _ => x
  | .error e =>
    if e.isKnown handled then
      ⟨x.printed ++ (handler e).printed, x.log ++ (handler e).log,
        x.written ++ (handler e).written, (handler e).result⟩
    else x

/-- Actions in order, and whether all of them have gone well. -/
def inOrder : List (Action Bool) → Action Bool
  | [] => return true
  | x :: xs => do
    let first ← x
    let others ← inOrder xs
    return first && others

/-- A part of a run, which raises nothing. -/
def ofPart (p : Part) : Action Bool := ⟨p.printed, p.log, [], .ok p.success⟩

/-- A whole run. Its status is a value, and a file that could not be written is raised. -/
def ofOutcome (o : Outcome) : Action Nat :=
  ⟨o.printed, o.log, o.written, o.ending.mapError .saving⟩

end Action

open HandledFaults.Action (enter handling inOrder ofExcept ofOutcome ofPart print write)

/-! ## Stages -/

/-- Evaluates an expression. -/
def evaluating (s : String) : Action Binary64 :=
  ⟨[], evaluationLog s, [], (evaluate s).mapError .evaluation⟩

/-- Lists the tokens of an expression, which are read for that a first time. -/
def listing (s : String) : Action Unit := do
  let ts ← ofExcept (fun f => .evaluation (.format f)) (tokenize s)
  enter (tokensPart s).log
  print (" ".intercalate (ts.map Token.shown) ++ "\n")

/-- An expression of the command line, and whether it has a value. -/
def expressionStage (showTokens : Bool) (s : String) : Action Bool :=
  handling [.evaluation]
    (do
      if showTokens then listing s
      let x ← evaluating s
      print (s ++ " = " ++ NumberText.format x ++ "\n")
      return true)
    fun e => do
      enter [⟨.program, .error, "Failed to evaluate " ++ Text.quoted s ++ ": " ++ e.message⟩]
      return false

/-- The operation of the command line, and whether it has a value. -/
def operationStage (o : Operation) (t : OperandType) (operands : List String) : Action Bool :=
  handling [.evaluation]
    (do
      let v ← ofExcept .evaluation (o.applyTexts t operands)
      print (o.name ++ "(" ++ ", ".intercalate operands ++ ") = " ++ v.printed ++ "\n")
      return true)
    fun e => do
      enter [⟨.program, .error, "Operation " ++ o.name ++ " failed: " ++ e.message⟩]
      return false

/-- The operation of the command line if there is one. -/
def requestedStage (r : Request) : Action Bool :=
  match r.operation with
  | some o => operationStage o r.operandType r.operands
  | none => return true

/-- The expressions of the file, none if it cannot be loaded. -/
def loadStage (files : Files) (path column : String) : Action (Option (List String)) :=
  handling [.file, .value]
    (do
      enter [⟨.loader, .info, "Loading expressions from " ++ path⟩]
      let expressions ← ofExcept .loading (Dataset.load files path (some column))
      enter [⟨.loader, .info,
        "Loaded " ++ Text.natural expressions.length ++ " expressions"⟩]
      return some expressions)
    fun e => do
      enter [⟨.program, .error, "Failed to load " ++ path ++ ": " ++ e.message⟩]
      return none

/-- The row of an expression of the file. -/
def rowStage (s : String) : Action Batch.Row :=
  handling [.evaluation]
    (do
      let x ← evaluating s
      return .ofOutcome s (.ok x))
    fun e => do
      enter [⟨.loader, .warning, "Failed to evaluate " ++ Text.quoted s ++ ": " ++ e.message⟩]
      return .ofExpression s

/-- All rows of the file. -/
def rowStages : List String → Action (List Batch.Row)
  | [] => return []
  | s :: expressions => do
    let row ← rowStage s
    let rows ← rowStages expressions
    return row :: rows

/-- Saves the rows where a path for that is given. -/
def saveStage (files : Files) (rows : List Batch.Row) (path? : Option String) : Action Unit :=
  match givenPath? path? with
  | none => return ()
  | some path => do
    enter [⟨.loader, .info, "Saving results to " ++ path⟩]
    let file ← ofExcept .saving (Batch.save files rows (some path))
    write file

/-- The status by whether all has gone well. -/
def status (success : Bool) : Nat := if success then 0 else 1

/-- The stages before any file. -/
def textStages (r : Request) : Action Bool := do
  let expressions ← inOrder (r.expressions.map (expressionStage r.showTokens))
  let operation ← requestedStage r
  return expressions && operation

/-- The stages of a file, by whether all has gone well before. A run ends early where the
    file cannot be loaded. -/
def fileStages (files : Files) (r : Request) (path : String) (before : Bool) : Action Nat := do
  match ← loadStage files path r.expressionColumn with
  | none => return 1
  | some L => do
    let rows ← rowStages L
    let summary := Batch.summarize rows
    enter [summaryEntry summary]
    print (summaryLine summary)
    saveStage files rows r.outputPath
    return status (before && summary.failed = 0)

/-- All stages of a run. -/
def stagedRun (files : Files) (r : Request) : Action Nat := do
  let texts ← textStages r
  match givenPath? r.inputPath with
  | none => return status texts
  | some path => fileStages files r path texts

/-! ## No stage raises what its handler does not know -/

/-- The handlers for evaluation know every fault that is reported. -/
theorem isKnown_evaluation {f : Fault} (h : isReported f = true) :
    (Raised.evaluation f).isKnown [.evaluation] = true := by
  cases f with
  | format g => rfl
  | division g => rfl
  | tooLarge => exact absurd h (by decide)

theorem isKnown_loading (f : Dataset.Fault) :
    (Raised.loading f).isKnown [.file, .value] = true := by
  cases f <;> rfl

namespace Action

variable {α β : Type} {printed : List String} {log : List LogEntry} {written : List Batch.Written}

@[simp] theorem pure_eq (a : α) : (pure a : Action α) = ⟨[], [], [], .ok a⟩ := rfl

@[simp] theorem ok_bind (a : α) (next : α → Action β) :
    (⟨printed, log, written, .ok a⟩ >>= next : Action β) =
      ⟨printed ++ (next a).printed, log ++ (next a).log, written ++ (next a).written,
        (next a).result⟩ :=
  rfl

@[simp] theorem error_bind (e : Raised) (next : α → Action β) :
    (⟨printed, log, written, .error e⟩ >>= next : Action β) =
      ⟨printed, log, written, .error e⟩ :=
  rfl

@[simp] theorem handling_ok (handled : List Kind) (a : α) (handler : Raised → Action α) :
    handling handled ⟨printed, log, written, .ok a⟩ handler = ⟨printed, log, written, .ok a⟩ :=
  rfl

theorem handling_known {handled : List Kind} {e : Raised} (h : e.isKnown handled = true)
    (handler : Raised → Action α) :
    handling handled ⟨printed, log, written, .error e⟩ handler =
      ⟨printed ++ (handler e).printed, log ++ (handler e).log, written ++ (handler e).written,
        (handler e).result⟩ :=
  if_pos h

@[simp] theorem ofExcept_ok {ε : Type} (raised : ε → Raised) (a : α) :
    ofExcept raised (.ok a) = ⟨[], [], [], .ok a⟩ :=
  rfl

@[simp] theorem ofExcept_error {ε : Type} (raised : ε → Raised) (e : ε) :
    ofExcept (α := α) raised (.error e) = ⟨[], [], [], .error (raised e)⟩ :=
  rfl

end Action

/-- An expression that cannot be read fails where its tokens are listed, and otherwise
    where it is evaluated, with the same fault. -/
theorem expressionStage_eq (showTokens : Bool) (s : String) :
    expressionStage showTokens s = ofPart (expressionPart showTokens s) := by
  cases hscan : scan s with
  | error f =>
    have htokens : tokenize s = .error f := by
      rw [tokenize, hscan]
      rfl
    have hevaluate := evaluate_eq_of_not_scan hscan
    have hlog : evaluationLog s = [] := by rw [evaluationLog, hscan]
    simp only [expressionStage, listing, evaluating, expressionPart, tokensPart, valuePart,
      htokens, hevaluate, hlog]
    cases showTokens <;> rfl
  | ok c =>
    have htokens : tokenize s = .ok (Token.ofScanned c) := by
      rw [tokenize, hscan]
      rfl
    simp only [expressionStage, listing, evaluating, expressionPart, tokensPart, valuePart,
      htokens]
    cases hevaluate : evaluate s with
    | ok x =>
      cases showTokens <;> simp [Except.mapError, print, enter, ofPart, Part.empty]
    | error f =>
      have hknown := isKnown_evaluation (isReported_of_evaluate hevaluate)
      cases showTokens <;>
        simp [Except.mapError, print, enter, ofPart, Part.empty, Action.handling_known hknown,
          Program.evaluationFailure, Raised.message]

theorem operationStage_eq (o : Operation) (t : OperandType) (operands : List String) :
    operationStage o t operands = ofPart (operationPart o t operands) := by
  rw [operationStage, operationPart]
  cases happly : o.applyTexts t operands with
  | ok v => rfl
  | error f =>
    have hknown := isKnown_evaluation (reported_applyTexts o t operands f happly)
    exact Action.handling_known hknown _

/-- Parts one after the other, as actions and as parts. -/
theorem inOrder_ofPart (ps : List Part) : inOrder (ps.map ofPart) = ofPart (Part.concat ps) := by
  induction ps with
  | nil => rfl
  | cons p ps ih =>
    rw [List.map_cons, inOrder, ih]
    show _ = ofPart (p ++ Part.concat ps)
    simp [ofPart]

theorem textStages_eq (r : Request) : textStages r = ofPart (runTexts r) := by
  have hexpressions : inOrder (r.expressions.map (expressionStage r.showTokens)) =
      ofPart (Part.concat (r.expressions.map (expressionPart r.showTokens))) := by
    rw [← inOrder_ofPart, List.map_map]
    exact congrArg inOrder (List.map_congr_left fun s _ => expressionStage_eq r.showTokens s)
  have hoperation : requestedStage r = ofPart (match r.operation with
      | some o => operationPart o r.operandType r.operands
      | none => .empty) := by
    rw [requestedStage]
    cases r.operation with
    | none => rfl
    | some o => exact operationStage_eq o r.operandType r.operands
  rw [textStages, hexpressions, hoperation, runTexts]
  simp only [ofPart, Action.pure_eq, Action.ok_bind, List.append_nil]
  rfl

theorem loadStage_ok {files : Files} {path column : String} {L : List String}
    (h : Dataset.load files path (some column) = .ok L) :
    loadStage files path column =
      ⟨[], (Program.loadingPart path).log ++
        [⟨.loader, .info, "Loaded " ++ Text.natural L.length ++ " expressions"⟩], [],
        .ok (some L)⟩ := by
  rw [loadStage, h]
  rfl

theorem loadStage_error {files : Files} {path column : String} {f : Dataset.Fault}
    (h : Dataset.load files path (some column) = .error f) :
    loadStage files path column =
      ⟨[], (Program.loadingPart path ++ Program.loadFailurePart path f).log, [], .ok none⟩ := by
  rw [loadStage, h]
  exact Action.handling_known (isKnown_loading f) _

theorem rowStage_eq (s : String) : rowStage s = ⟨[], rowLog s, [], .ok (.ofExpression s)⟩ := by
  rw [rowStage, evaluating, rowLog, Batch.Row.ofExpression]
  cases hevaluate : evaluate s with
  | ok x => simp [Except.mapError]
  | error f =>
    have hknown := isKnown_evaluation (isReported_of_evaluate hevaluate)
    exact Action.handling_known hknown _

theorem rowStages_eq (L : List String) :
    rowStages L = ⟨[], L.flatMap rowLog, [], .ok (Batch.evaluateAll L)⟩ := by
  induction L with
  | nil => rfl
  | cons s L ih =>
    rw [rowStages, rowStage_eq, ih]
    simp [Batch.evaluateAll]

/-- The stages of a file that is loaded, up to the rows, print and log what its part does. -/
theorem fileStages_ok {files : Files} {r : Request} {path : String} {L : List String}
    (h : Dataset.load files path (some r.expressionColumn) = .ok L) (before : Bool) :
    fileStages files r path before = (do
      let rows ← ofPart (Program.loadingPart path ++ rowsPart L)
      saveStage files (Batch.evaluateAll L) r.outputPath
      return status (before && rows)) := by
  rw [fileStages, loadStage_ok h, Action.ok_bind]
  simp [rowStages_eq, ofPart, rowsPart, enter, print, Program.loadingPart]

/-- Saving has no handler: its fault is that of the whole action. -/
theorem saveStage_some {path? : Option String} {path : String} (h : givenPath? path? = some path)
    (files : Files) (rows : List Batch.Row) :
    saveStage files rows path? =
      ⟨[], (Program.savingPart path).log, (Batch.save files rows (some path)).toOption.toList,
        ((Batch.save files rows (some path)).map fun _ => ()).mapError .saving⟩ := by
  simp only [saveStage, h]
  cases Batch.save files rows (some path) with
  | ok file => rfl
  | error f => rfl

theorem fileStages_eq (files : Files) (r : Request) (before : Part) (path : String) :
    (ofPart before >>= fileStages files r path) = ofOutcome (runFile files r before path) := by
  rw [ofPart, Action.ok_bind, runFile]
  cases hload : Dataset.load files path (some r.expressionColumn) with
  | error f =>
    simp [fileStages, loadStage_error hload, ofOutcome, Outcome.ofPart, Except.mapError,
      Program.loadingPart, Program.loadFailurePart]
  | ok L =>
    rw [fileStages_ok hload]
    cases houtput : givenPath? r.outputPath with
    | none =>
      simp [saveStage, houtput, ofPart, ofOutcome, Outcome.ofPart, Except.mapError, status,
        Program.loadingPart]
    | some output =>
      cases hsave : Batch.save files (Batch.evaluateAll L) (some output) with
      | ok file =>
        simp [saveStage_some houtput, hsave, ofPart, ofOutcome, Outcome.ofPart, Except.mapError,
          Except.map, Except.toOption, status, Program.loadingPart, Program.savingPart]
      | error f =>
        simp [saveStage_some houtput, hsave, ofPart, ofOutcome, Except.mapError, Except.map,
          Except.toOption, Program.loadingPart, Program.savingPart]

/-- Every stage handles all that is raised in it, apart from saving. -/
theorem stagedRun_eq (files : Files) (r : Request) :
    stagedRun files r = ofOutcome (run files r) := by
  rw [stagedRun, textStages_eq, run]
  cases givenPath? r.inputPath with
  | none => simp [ofPart, ofOutcome, Outcome.ofPart, status, Except.mapError]
  | some path => exact fileStages_eq files r (runTexts r) path

end HandledFaults

end InfixArithmetic
