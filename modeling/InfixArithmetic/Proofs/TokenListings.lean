/-
  InfixArithmetic.Proofs.TokenListings

  What a listing of tokens and another level of the log change in a run.

  The file comes after the expressions and the operation, and of these it knows nothing but
  whether they have gone well (`run_eq`).  Tokens are listed if an expression can be read,
  and no expression fails for that, so a listing makes no difference to that
  (`success_runTexts_tokens`): from there on both runs are the same.  Before that they
  differ by the line of tokens that stands before the one of the value
  (`printed_runTexts_tokens`), and by entries that are not shown unless they are asked for.
-/

import InfixArithmetic.Proofs.ReportedFailures

namespace InfixArithmetic.TokenListings

open Expression (evaluate tokenize)
open HandledFaults (stagedRun)
open HandledFaults.Action (ofOutcome)
open LogEntry (select)
open Program (Part Outcome expressionPart givenPath? operationPart run runFile runTexts tokensPart
  valuePart)
open ProgramRuns (operationLine? printed_runTexts_append printed_valuePart success_runTexts
  valueLine?)
open ReportedFailures (main_of_asked main_of_empty select_append select_runTexts)

/-! ## Lines -/

/-- The line with the tokens of an expression that can be read. -/
def tokenLine? (s : String) : Option String :=
  match tokenize s with
  | .ok ts => some (" ".intercalate (ts.map Token.shown) ++ "\n")
  | .error _ => none

/-- The lines of an expression. -/
def expressionLines (showTokens : Bool) (s : String) : List String :=
  (if showTokens then (tokenLine? s).toList else []) ++ (valueLine? s).toList

/-- The request with tokens listed or not. -/
def listing (showTokens : Bool) (r : Request) : Request := { r with showTokens }

/-- The request with another level of the log. -/
def logging (level : Level) (r : Request) : Request := { r with logLevel := level }

theorem printed_expressionPart (showTokens : Bool) (s : String) :
    (expressionPart showTokens s).printed = expressionLines showTokens s := by
  rw [expressionPart, expressionLines, Part.printed_append, printed_valuePart]
  cases showTokens with
  | false => rfl
  | true =>
    simp only [if_true]
    rw [tokensPart, tokenLine?]
    cases tokenize s <;> rfl

/-- The lines of the expressions come first, with those of their tokens or without. -/
theorem printed_runTexts_tokens (showTokens : Bool) (r : Request) :
    (runTexts (listing showTokens r)).printed =
      r.expressions.flatMap (expressionLines showTokens) ++ (operationLine? r).toList := by
  rw [printed_runTexts_append]
  simp only [printed_expressionPart]
  rfl

/-- Nothing fails for a listing. -/
theorem success_runTexts_tokens (showTokens : Bool) (r : Request) :
    (runTexts (listing showTokens r)).success = (runTexts r).success := by
  rw [Bool.eq_iff_iff, success_runTexts, success_runTexts]
  rfl

/-! ## After the texts -/

/-- A run after its texts, by whether they have gone well. -/
def afterTexts (files : Files) (r : Request) (success : Bool) : Outcome :=
  match givenPath? r.inputPath with
  | none => .ofPart ⟨[], [], success⟩ []
  | some path => runFile files r ⟨[], [], success⟩ path

/-- What has been printed and logged before a file only stands before the rest. -/
theorem runFile_eq (files : Files) (r : Request) (before : Part) (path : String) :
    runFile files r before path =
      ⟨before.printed ++ (runFile files r ⟨[], [], before.success⟩ path).printed,
        before.log ++ (runFile files r ⟨[], [], before.success⟩ path).log,
        (runFile files r ⟨[], [], before.success⟩ path).written,
        (runFile files r ⟨[], [], before.success⟩ path).ending⟩ := by
  simp only [runFile]
  cases Dataset.load files path (some r.expressionColumn) with
  | error f => simp [Outcome.ofPart]
  | ok L =>
    dsimp only
    cases givenPath? r.outputPath with
    | none => simp [Outcome.ofPart]
    | some output =>
      dsimp only
      cases Batch.save files (Batch.evaluateAll L) (some output) with
      | ok file => simp [Outcome.ofPart]
      | error f => simp

theorem run_eq (files : Files) (r : Request) :
    run files r =
      ⟨(runTexts r).printed ++ (afterTexts files r (runTexts r).success).printed,
        (runTexts r).log ++ (afterTexts files r (runTexts r).success).log,
        (afterTexts files r (runTexts r).success).written,
        (afterTexts files r (runTexts r).success).ending⟩ := by
  rw [run, afterTexts]
  cases givenPath? r.inputPath with
  | none => simp [Outcome.ofPart]
  | some path => exact runFile_eq files r (runTexts r) path

/-! ## Two runs -/

/-- A run with tokens listed differs from one without in what it prints and logs for its
    expressions. -/
theorem run_listing (files : Files) (r : Request) (showTokens : Bool) :
    (run files (listing showTokens r)).ending = (run files r).ending ∧
      (run files (listing showTokens r)).written = (run files r).written ∧
      (run files (listing showTokens r)).printed =
        r.expressions.flatMap (expressionLines showTokens) ++
          ((operationLine? r).toList ++ (afterTexts files r (runTexts r).success).printed) ∧
      ∀ threshold, threshold ≠ .debug →
        select threshold (run files (listing showTokens r)).log =
          select threshold (run files r).log := by
  have hafter : afterTexts files (listing showTokens r) (runTexts r).success =
      afterTexts files r (runTexts r).success := rfl
  rw [run_eq files r, run_eq files (listing showTokens r), success_runTexts_tokens, hafter,
    printed_runTexts_tokens, List.append_assoc]
  refine ⟨rfl, rfl, rfl, fun threshold hthreshold => ?_⟩
  rw [select_append, select_append, select_runTexts hthreshold, select_runTexts hthreshold]
  rfl

/-- Only an expression that can be read has a line of tokens. -/
theorem isSome_tokenLine? (s : String) :
    (tokenLine? s).isSome = true ↔ ∃ c, Expression.scan s = .ok c := by
  rw [tokenLine?, tokenize]
  cases Expression.scan s with
  | ok c => exact iff_of_true rfl ⟨c, rfl⟩
  | error f => exact iff_of_false Bool.false_ne_true (by rintro ⟨c, ⟨⟩⟩)

/-- Two command lines that ask for the same apart from the level of the log have the same
    output, write the same files and end in the same way.  If one of them asks for tokens
    and the other does not, they still write the same files and end in the same way.  The
    output then has one line more for each expression that can be read, directly before
    the place of its value, and no other difference, and the same is logged above the
    level of a search for faults in the program. -/
theorem level_and_tokens_only_show_more (time : String) (files : Files) {args : List String}
    {r : Request} (hparse : Request.parse args = .ok r) :
    (∀ level others, Request.parse others = .ok (logging level r) →
      (Program.main time files others).output = (Program.main time files args).output ∧
      (Program.main time files others).written = (Program.main time files args).written ∧
      (Program.main time files others).ending = (Program.main time files args).ending) ∧
    (r.showTokens = false → ∀ others, Request.parse others = .ok (listing true r) →
      (Program.main time files others).ending = (Program.main time files args).ending ∧
      (Program.main time files others).written = (Program.main time files args).written ∧
      (∃ rest,
        (Program.main time files args).output =
          String.join (r.expressions.flatMap (expressionLines false)) ++ rest ∧
        (Program.main time files others).output =
          String.join (r.expressions.flatMap (expressionLines true)) ++ rest) ∧
      (∀ threshold, threshold ≠ .debug →
        select threshold (run files (listing true r)).log =
          select threshold (run files r).log) ∧
      (r.logLevel ≠ .debug →
        (Program.main time files others).errors = (Program.main time files args).errors)) ∧
    (∀ s, (tokenLine? s).isSome = true ↔ ∃ c, Expression.scan s = .ok c) ∧
    ∀ showTokens, stagedRun files (listing showTokens r) =
      ofOutcome (run files (listing showTokens r)) := by
  refine ⟨?_, ?_, isSome_tokenLine?, fun showTokens => HandledFaults.stagedRun_eq files _⟩
  · intro level others hothers
    cases hasked : r.isEmpty with
    | true =>
      rw [main_of_empty hparse hasked, main_of_empty hothers hasked]
      exact ⟨rfl, rfl, rfl⟩
    | false =>
      rw [main_of_asked hparse hasked, main_of_asked hothers hasked]
      exact ⟨rfl, rfl, rfl⟩
  · intro hquiet others hothers
    obtain ⟨hending, hwritten, hprinted, hselect⟩ := run_listing files r true
    have hr : listing false r = r := by
      rw [listing, ← hquiet]
    have hprintedQuiet := (run_listing files r false).2.2.1
    rw [hr] at hprintedQuiet
    cases hasked : r.isEmpty with
    | true =>
      rw [main_of_empty hparse hasked, main_of_empty hothers hasked]
      have hnone : r.expressions = [] := by
        simp only [Request.isEmpty, Bool.and_eq_true, List.isEmpty_iff] at hasked
        exact hasked.1.1
      refine ⟨rfl, rfl, ⟨Usage.help, ?_, ?_⟩, hselect, fun _ => rfl⟩
      · rw [hnone]
        simp
      · rw [hnone]
        simp
    | false =>
      rw [main_of_asked hparse hasked, main_of_asked hothers hasked]
      let rest := (operationLine? r).toList ++ (afterTexts files r (runTexts r).success).printed
      refine ⟨hending, hwritten, ⟨String.join rest, ?_, ?_⟩, hselect, fun hlevel => ?_⟩
      · rw [hprintedQuiet, String.join_append]
      · rw [hprinted, String.join_append]
      · exact congrArg (fun log => String.join (log.map (LogEntry.line time)))
          (hselect r.logLevel hlevel)

/-- The tokens of the division by zero are listed, those of the text that ends in a plus are
    not. -/
theorem level_and_tokens_only_show_more_zero_divisor :
    (Program.main "TIME" (.ofList []) ["1/0", "1+", "2", "--log_level", "ERROR"]).output =
        (Program.main "TIME" (.ofList []) ["1/0", "1+", "2"]).output ∧
      ∃ rest,
        (Program.main "TIME" (.ofList []) ["1/0", "1+", "2"]).output = "2 = 2\n" ++ rest ∧
        (Program.main "TIME" (.ofList []) ["--show_tokens", "1/0", "1+", "2"]).output =
          "Token(NUMBER, 1.0, pos=0) Token(OPERATOR, '/', pos=1) Token(NUMBER, 0.0, pos=2)\n" ++
            "Token(NUMBER, 2.0, pos=0)\n2 = 2\n" ++ rest := by
  have hparse : Request.parse ["1/0", "1+", "2"] =
      .ok { expressions := ["1/0", "1+", "2"] } := by decide +kernel
  obtain ⟨hlevel, htokens, -, -⟩ :=
    level_and_tokens_only_show_more "TIME" (.ofList []) hparse
  obtain ⟨-, -, ⟨rest, hquiet, hlisted⟩, -⟩ :=
    htokens rfl ["--show_tokens", "1/0", "1+", "2"] (by decide +kernel)
  refine ⟨(hlevel .error _ (by decide +kernel)).1, rest, ?_, ?_⟩
  · rw [hquiet]
    congr 1
    decide +kernel
  · rw [hlisted]
    congr 1
    decide +kernel

end InfixArithmetic.TokenListings
