/-
  InfixArithmetic.Proofs.ReportedFailures

  What becomes of everything that goes wrong in a run.

  The log of a run holds entries of four levels, and of those that are warnings or errors
  there is exactly one for each expression, operation, file and row that fails
  (`select_run`): all that is logged on the way is of a lower level (`select_eq_nil`).  A
  run without such an entry goes well (`succeeds_iff`), so a run that has a status tells by
  it whether something has failed.

  A file that cannot be written is the exception.  It is not logged, it makes no status,
  and as no stage handles it (`HandledFaults.stagedRun_eq`) it ends the program.
-/

import InfixArithmetic.Proofs.HandledFaults

namespace InfixArithmetic.ReportedFailures

open Expression (evaluate scan tokenize)
open HandledFaults (stagedRun)
open HandledFaults.Action (ofOutcome)
open LogEntry (select)
open Program (Part Outcome Transcript evaluationFailure evaluationLog expressionPart givenPath?
  loadFailurePart operationPart rowLog rowsPart run runFile runTexts scanLog tokensPart valuePart)
open ProgramRuns (Succeeds status_run)

/-! ## Failures -/

/-- The entry for an expression without a value. -/
def expressionFailures (source : Source) (level : Level) (s : String) : List LogEntry :=
  match evaluate s with
  | .ok _ => []
  | .error f => [evaluationFailure source level s f]

/-- The entry for an operation without a value. -/
def operationFailures (r : Request) : List LogEntry :=
  match r.operation with
  | none => []
  | some o =>
    match o.applyTexts r.operandType r.operands with
    | .ok _ => []
    | .error f => [⟨.program, .error, "Operation " ++ o.name ++ " failed: " ++ f.message⟩]

/-- The entry for a file that cannot be loaded, or else those for its rows. -/
def fileFailures (files : Files) (r : Request) : List LogEntry :=
  match givenPath? r.inputPath with
  | none => []
  | some path =>
    match Dataset.load files path (some r.expressionColumn) with
    | .error f => [⟨.program, .error, "Failed to load " ++ path ++ ": " ++ f.message⟩]
    | .ok L => L.flatMap (expressionFailures .loader .warning)

/-- The entries for all that fails in a run, in order. -/
def failures (files : Files) (r : Request) : List LogEntry :=
  r.expressions.flatMap (expressionFailures .program .error) ++ operationFailures r ++
    fileFailures files r

/-- The results are to be saved where no file can be written. -/
def SaveFails (files : Files) (r : Request) (f : FileFault) : Prop :=
  ∃ input output, givenPath? r.inputPath = some input ∧
    (∃ L, Dataset.load files input (some r.expressionColumn) = .ok L) ∧
    givenPath? r.outputPath = some output ∧ files.checkWritable output = .error f

/-! ## Entries by level -/

theorem select_append (threshold : Level) (log more : List LogEntry) :
    select threshold (log ++ more) = select threshold log ++ select threshold more :=
  List.filter_append ..

theorem select_flatMap (threshold : Level) {α : Type} (f : α → List LogEntry) (as : List α) :
    select threshold (as.flatMap f) = as.flatMap fun a => select threshold (f a) :=
  List.filter_flatMap ..

/-- Entries below a level are not shown at it. -/
theorem select_eq_nil {threshold : Level} {log : List LogEntry}
    (h : ∀ e ∈ log, e.level.rank < threshold.rank) : select threshold log = [] := by
  refine List.filter_eq_nil_iff.2 fun e he => ?_
  rw [decide_eq_true_iff]
  exact Nat.not_le_of_lt (h e he)

theorem level_scanLog {s : String} {e : LogEntry} (h : e ∈ scanLog s) : e.level = .debug := by
  rw [scanLog] at h
  cases hscan : scan s with
  | error f => simp [hscan] at h
  | ok c =>
    simp only [hscan, List.mem_singleton] at h
    rw [h]

theorem level_evaluationLog {s : String} {e : LogEntry} (h : e ∈ evaluationLog s) :
    e.level = .debug := by
  rw [evaluationLog] at h
  cases hscan : scan s with
  | error f => simp [hscan] at h
  | ok c =>
    simp only [hscan, List.mem_append, List.mem_cons] at h
    rcases h with h | rfl | h
    · exact level_scanLog h
    · rfl
    · cases hvalue : Expression.evaluateScanned c with
      | error f => simp [hvalue] at h
      | ok x =>
        simp only [hvalue, List.mem_singleton] at h
        rw [h]

theorem level_tokensPart {s : String} {e : LogEntry} (h : e ∈ (tokensPart s).log) :
    e.level = .debug := by
  rw [tokensPart] at h
  cases htokens : tokenize s with
  | error f => simp [htokens, Part.empty] at h
  | ok ts =>
    simp only [htokens, List.mem_append, List.mem_singleton] at h
    rcases h with h | rfl
    · exact level_scanLog h
    · rfl

/-- What is only of interest for a search of faults in the program is not shown unless it is
    asked for. -/
theorem select_of_debug {threshold : Level} (hthreshold : threshold ≠ .debug)
    {log : List LogEntry} (h : ∀ e ∈ log, e.level = .debug) : select threshold log = [] := by
  refine select_eq_nil fun e he => ?_
  rw [h e he]
  cases threshold with
  | debug => exact absurd rfl hthreshold
  | info | warning | error => decide

theorem select_valuePart {threshold : Level} (h : threshold ≠ .debug) (s : String) :
    select threshold (valuePart s).log = expressionFailures .program .error s := by
  have hlog := select_of_debug h fun e he => level_evaluationLog (s := s) he
  rw [valuePart, expressionFailures]
  cases evaluate s with
  | ok x => exact hlog
  | error f =>
    dsimp only
    rw [select_append, hlog]
    cases threshold with
    | debug => exact absurd rfl h
    | info | warning | error => rfl

/-- Tokens leave no entry beyond those for a search. -/
theorem select_expressionPart {threshold : Level} (h : threshold ≠ .debug) (showTokens : Bool)
    (s : String) :
    select threshold (expressionPart showTokens s).log =
      expressionFailures .program .error s := by
  rw [expressionPart, Part.log_append, select_append, select_valuePart h]
  cases showTokens with
  | false => rfl
  | true =>
    have hlog := select_of_debug h fun e he => level_tokensPart (s := s) he
    exact congrArg (· ++ _) hlog

theorem log_concat (ps : List Part) : (Part.concat ps).log = ps.flatMap Part.log := by
  induction ps with
  | nil => rfl
  | cons p ps ih =>
    show p.log ++ (Part.concat ps).log = _
    rw [ih, List.flatMap_cons]

theorem select_runTexts {threshold : Level} (h : threshold ≠ .debug) (r : Request) :
    select threshold (runTexts r).log =
      r.expressions.flatMap (expressionFailures .program .error) ++ operationFailures r := by
  rw [runTexts, Part.log_append, select_append, log_concat, List.flatMap_map, select_flatMap]
  congr 1
  · exact List.flatMap_congr fun s _ => select_expressionPart h r.showTokens s
  · rw [operationFailures]
    cases r.operation with
    | none => rfl
    | some o =>
      dsimp only
      rw [operationPart]
      cases o.applyTexts r.operandType r.operands with
      | ok v => rfl
      | error f =>
        cases threshold with
        | debug => exact absurd rfl h
        | info | warning | error => rfl

/-! ## The file -/

theorem select_rowLog (s : String) :
    select .warning (rowLog s) = expressionFailures .loader .warning s := by
  rw [rowLog, select_append,
    select_of_debug (by decide) fun e he => level_evaluationLog (s := s) he, expressionFailures]
  cases evaluate s with
  | ok x => rfl
  | error f => rfl

theorem select_rowsPart (L : List String) :
    select .warning (rowsPart L).log = L.flatMap (expressionFailures .loader .warning) := by
  -- What is said about the file as a whole is no warning.
  have hrows : select .warning (rowsPart L).log = select .warning (L.flatMap rowLog) ++ [] :=
    select_append .warning (L.flatMap rowLog) [Program.summaryEntry _]
  rw [hrows, select_flatMap, List.append_nil]
  exact List.flatMap_congr fun s _ => select_rowLog s

theorem select_runFile {files : Files} {r : Request} {path : String}
    (h : givenPath? r.inputPath = some path) (before : Part) :
    select .warning (runFile files r before path).log =
      select .warning before.log ++ fileFailures files r := by
  have hloading : select .warning (Program.loadingPart path).log = [] := rfl
  simp only [runFile, fileFailures, h]
  cases Dataset.load files path (some r.expressionColumn) with
  | error f =>
    simp only [Outcome.ofPart, Part.log_append, select_append, hloading, List.append_nil]
    rfl
  | ok L =>
    have hrows : select .warning (before ++ Program.loadingPart path ++ rowsPart L).log =
        select .warning before.log ++ L.flatMap (expressionFailures .loader .warning) := by
      rw [Part.log_append, Part.log_append, select_append, select_append, hloading,
        List.append_nil, select_rowsPart]
    cases givenPath? r.outputPath with
    | none => exact hrows
    | some output =>
      have hsaving : select .warning (before ++ Program.loadingPart path ++ rowsPart L ++
          Program.savingPart output).log =
            select .warning before.log ++ L.flatMap (expressionFailures .loader .warning) := by
        rw [Part.log_append, select_append, hrows]
        exact List.append_nil _
      dsimp only
      cases Batch.save files (Batch.evaluateAll L) (some output) with
      | ok file => exact hsaving
      | error f => exact hsaving

/-- Warnings and errors are the failures, one after the other. -/
theorem select_run (files : Files) (r : Request) :
    select .warning (run files r).log = failures files r := by
  have htexts := select_runTexts (show Level.warning ≠ .debug by decide) r
  rw [run, failures, ← htexts]
  cases hpath : givenPath? r.inputPath with
  | none =>
    rw [fileFailures, hpath]
    exact (List.append_nil _).symm
  | some path => exact select_runFile hpath (runTexts r)

/-! ## Endings -/

theorem expressionFailures_eq_nil (source : Source) (level : Level) (s : String) :
    expressionFailures source level s = [] ↔ ∃ x, evaluate s = .ok x := by
  rw [expressionFailures]
  cases evaluate s with
  | ok x => exact iff_of_true rfl ⟨x, rfl⟩
  | error f => exact iff_of_false (List.cons_ne_nil _ _) (by rintro ⟨x, ⟨⟩⟩)

theorem operationFailures_eq_nil (r : Request) :
    operationFailures r = [] ↔
      ∀ o, r.operation = some o → ∃ v, o.applyTexts r.operandType r.operands = .ok v := by
  rw [operationFailures]
  cases r.operation with
  | none => exact iff_of_true rfl (by rintro o ⟨⟩)
  | some o =>
    dsimp only
    cases happly : o.applyTexts r.operandType r.operands with
    | ok v =>
      refine iff_of_true rfl ?_
      rintro _ ⟨⟩
      exact ⟨v, happly⟩
    | error f =>
      refine iff_of_false (List.cons_ne_nil _ _) fun hall => ?_
      obtain ⟨v, hv⟩ := hall o rfl
      rw [happly] at hv
      cases hv

theorem fileFailures_eq_nil (files : Files) (r : Request) :
    fileFailures files r = [] ↔
      ∀ path, givenPath? r.inputPath = some path →
        ∃ L, Dataset.load files path (some r.expressionColumn) = .ok L ∧
          ∀ s ∈ L, ∃ x, evaluate s = .ok x := by
  rw [fileFailures]
  cases givenPath? r.inputPath with
  | none => exact iff_of_true rfl (by rintro path ⟨⟩)
  | some path =>
    dsimp only
    cases hload : Dataset.load files path (some r.expressionColumn) with
    | error f =>
      refine iff_of_false (List.cons_ne_nil _ _) fun hall => ?_
      obtain ⟨L, hL, -⟩ := hall path rfl
      rw [hload] at hL
      cases hL
    | ok L =>
      simp only [List.flatMap_eq_nil_iff, expressionFailures_eq_nil]
      constructor
      · rintro hrows _ ⟨⟩
        exact ⟨L, hload, hrows⟩
      · intro hall
        obtain ⟨L', hL', hrows⟩ := hall path rfl
        rw [hload, Except.ok.injEq] at hL'
        exact hL' ▸ hrows

/-- A run goes well if nothing in it fails. -/
theorem succeeds_iff (files : Files) (r : Request) : Succeeds files r ↔ failures files r = [] := by
  rw [failures, List.append_eq_nil_iff, List.append_eq_nil_iff, List.flatMap_eq_nil_iff,
    operationFailures_eq_nil, fileFailures_eq_nil]
  simp only [expressionFailures_eq_nil]
  exact ⟨fun h => ⟨⟨h.expressions, h.operation⟩, h.file⟩, fun h => ⟨h.1.1, h.1.2, h.2⟩⟩

/-- Rows are saved to the path that is given for that. -/
theorem save_eq_error {path? : Option String} {path : String} (h : givenPath? path? = some path)
    (files : Files) (rows : List Batch.Row) (f : FileFault) :
    Batch.save files rows (some path) = .error f ↔ files.checkWritable path = .error f := by
  obtain ⟨-, hne⟩ := Option.filter_eq_some_iff.1 h
  have hpath : Batch.outputPath (some path) = path := if_neg (by simpa using hne)
  rw [Batch.save, hpath]
  cases files.checkWritable path with
  | ok _ => exact iff_of_false (by rintro ⟨⟩) (by rintro ⟨⟩)
  | error g => simp [Except.map]

/-- A run has no status exactly if its results cannot be saved. -/
theorem ending_eq_error (files : Files) (r : Request) (f : FileFault) :
    (run files r).ending = .error f ↔ SaveFails files r f := by
  rw [run, SaveFails]
  cases hinput : givenPath? r.inputPath with
  | none => exact iff_of_false (by rintro ⟨⟩) (by rintro ⟨_, _, ⟨⟩, -⟩)
  | some input =>
    dsimp only
    rw [runFile]
    cases hload : Dataset.load files input (some r.expressionColumn) with
    | error g =>
      refine iff_of_false (by rintro ⟨⟩) ?_
      rintro ⟨_, _, ⟨⟩, ⟨L, hL⟩, -⟩
      rw [hload] at hL
      cases hL
    | ok L =>
      cases houtput : givenPath? r.outputPath with
      | none => exact iff_of_false (by rintro ⟨⟩) (by rintro ⟨_, _, -, -, ⟨⟩, -⟩)
      | some output =>
        have hsave := save_eq_error houtput files (Batch.evaluateAll L) f
        have hfails : (∃ input' output', some input = some input' ∧
            (∃ L, Dataset.load files input' (some r.expressionColumn) = .ok L) ∧
            some output = some output' ∧ files.checkWritable output' = .error f) ↔
              files.checkWritable output = .error f := by
          constructor
          · rintro ⟨_, _, ⟨⟩, -, ⟨⟩, hf⟩
            exact hf
          · exact fun hf => ⟨input, output, rfl, ⟨L, hload⟩, rfl, hf⟩
        rw [hfails, ← hsave]
        dsimp only
        cases Batch.save files (Batch.evaluateAll L) (some output) with
        | ok file => exact iff_of_false (by rintro ⟨⟩) (by rintro ⟨⟩)
        | error g => simp only [Except.error.injEq]

/-! ## Runs from the command line -/

/-- The status of a run whose results can be saved tells whether anything has failed. -/
theorem ending_run {files : Files} {r : Request} (h : ∀ f, ¬ SaveFails files r f) :
    (run files r).ending = .ok (if failures files r = [] then 0 else 1) := by
  cases hending : (run files r).ending with
  | error f => exact absurd ((ending_eq_error files r f).1 hending) (h f)
  | ok n =>
    obtain ⟨hzero, hstatus⟩ := status_run hending
    rw [succeeds_iff] at hzero
    by_cases hfailures : failures files r = []
    · rw [if_pos hfailures, hzero.2 hfailures]
    · rw [if_neg hfailures, hstatus.resolve_left fun hn => hfailures (hzero.1 hn)]

/-- The line of an entry is somewhere in the log at its level. -/
theorem line_logText {time : String} {threshold : Level} {log : List LogEntry} {e : LogEntry}
    (he : e ∈ log) (hlevel : threshold.rank ≤ e.level.rank) :
    ∃ before after, Program.logText time threshold log = before ++ e.line time ++ after := by
  have hselected : e ∈ select threshold log := List.mem_filter.2 ⟨he, decide_eq_true hlevel⟩
  obtain ⟨front, back, hsplit⟩ := List.append_of_mem hselected
  refine ⟨String.join (front.map (LogEntry.line time)), String.join (back.map (LogEntry.line time)),
    ?_⟩
  rw [Program.logText, hsplit, List.map_append, List.map_cons, String.join_append,
    String.join_cons, String.append_assoc]

/-- A command line that asks for nothing is answered with the help. -/
theorem main_of_empty {args : List String} {r : Request} (hparse : Request.parse args = .ok r)
    (hempty : r.isEmpty = true) (time : String) (files : Files) :
    Program.main time files args = ⟨Usage.help, "", [], .ok 2⟩ := by
  rw [Program.main, hparse]
  exact if_pos hempty

theorem main_of_asked {args : List String} {r : Request} (hparse : Request.parse args = .ok r)
    (hasked : r.isEmpty = false) (time : String) (files : Files) :
    Program.main time files args =
      ⟨String.join (run files r).printed, Program.logText time r.logLevel (run files r).log,
        (run files r).written, (run files r).ending⟩ := by
  rw [Program.main, hparse]
  exact if_neg (by rw [hasked]; exact Bool.false_ne_true)

/-- A command line that is understood and asks for something is run to a status, which is 0
    if nothing fails and 1 otherwise, unless the results of a file cannot be saved: that
    fault is handled nowhere and ends the program.  All other faults are handled by the
    stage that they are raised in.  Whatever fails is in the log, with its line among the
    errors if its level is shown, and a warning or an error in the log is always that of
    something that fails, so that a failed saving is not logged. -/
theorem failures_reported_unless_unsaved (time : String) (files : Files) {args : List String}
    {r : Request} (hparse : Request.parse args = .ok r) :
    (r.isEmpty = true → (Program.main time files args).ending = .ok 2) ∧
    (r.isEmpty = false →
      stagedRun files r = ofOutcome (run files r) ∧
      (∀ f, (Program.main time files args).ending = .error f ↔ SaveFails files r f) ∧
      ((∀ f, ¬ SaveFails files r f) →
        (Program.main time files args).ending = .ok (if failures files r = [] then 0 else 1)) ∧
      select .warning (run files r).log = failures files r ∧
      ∀ e ∈ failures files r, r.logLevel.rank ≤ e.level.rank →
        ∃ before after, (Program.main time files args).errors =
          before ++ e.line time ++ after) := by
  constructor
  · intro hempty
    rw [main_of_empty hparse hempty]
  · intro hasked
    rw [main_of_asked hparse hasked]
    refine ⟨HandledFaults.stagedRun_eq files r, ending_eq_error files r, ending_run,
      select_run files r, ?_⟩
    intro e he hlevel
    rw [← select_run] at he
    exact line_logText (List.mem_of_mem_filter he) hlevel

/-- A division by zero is reported beside a file that cannot be loaded. -/
theorem failures_reported_unless_unsaved_missing_file :
    (Program.main "TIME" (.ofList []) ["1/0", "--input_path", "in.txt"]).ending = .ok 1 ∧
      ∃ before after,
        (Program.main "TIME" (.ofList []) ["1/0", "--input_path", "in.txt"]).errors =
          before ++ "TIME - __main__ - ERROR - Failed to evaluate '1/0': Division by zero\n" ++
            after := by
  have hparse : Request.parse ["1/0", "--input_path", "in.txt"] =
      .ok { expressions := ["1/0"], inputPath := some "in.txt" } := by decide +kernel
  obtain ⟨-, hasked⟩ := failures_reported_unless_unsaved "TIME" (.ofList []) hparse
  obtain ⟨-, -, hending, -, hline⟩ := hasked rfl
  constructor
  · rw [hending fun f => by rintro ⟨input, output, -, -, ⟨⟩, -⟩]
    decide +kernel
  · exact hline (evaluationFailure .program .error "1/0" (.division .zeroDivisor))
      (by decide +kernel) (by decide)

/-- The directory of the output is missing: the run neither has a status nor says so in the
    log. -/
theorem unsaved_results_escape :
    Request.parse ["--input_path", "in.txt", "--output_path", "no/out.csv"] =
        .ok { inputPath := some "in.txt", outputPath := some "no/out.csv" } ∧
      (Program.main "TIME" (.ofList [("in.txt", Batch.fieldBytes "1+1\n")])
        ["--input_path", "in.txt", "--output_path", "no/out.csv"]).ending =
          .error (.noParent "no") ∧
      failures (.ofList [("in.txt", Batch.fieldBytes "1+1\n")])
        { inputPath := some "in.txt", outputPath := some "no/out.csv" } = [] := by
  decide +kernel

end InfixArithmetic.ReportedFailures
