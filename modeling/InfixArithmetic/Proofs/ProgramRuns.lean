/-
  InfixArithmetic.Proofs.ProgramRuns

  The status of a run, and what it prints.

  A run is a row of parts: one for every expression, one for the operation and those of
  the file.  Printed lines are put one after the other, and a part that has failed cannot
  be made good by another one (`Part.success_append`), so a run goes well exactly if each
  of its parts does (`Part.success_concat`).  What is left is to say of every part when it
  goes well and what it prints.  A file is the only part that ends a run early: if it
  cannot be loaded there is nothing after it, and if its results cannot be written the run
  has no status at all.
-/

import InfixArithmetic.CommandLine.Program
import InfixArithmetic.Proofs.BatchRows

namespace InfixArithmetic

/-! ## Rows of parts -/

namespace Program.Part

@[simp] theorem printed_append (p q : Part) : (p ++ q).printed = p.printed ++ q.printed := rfl

@[simp] theorem success_append (p q : Part) : (p ++ q).success = (p.success && q.success) := rfl

theorem printed_concat (ps : List Part) : (concat ps).printed = ps.flatMap Part.printed := by
  induction ps with
  | nil => rfl
  | cons p ps ih =>
    show p.printed ++ (concat ps).printed = _
    rw [ih, List.flatMap_cons]

theorem success_concat (ps : List Part) :
    (concat ps).success = true ↔ ∀ p ∈ ps, p.success = true := by
  induction ps with
  | nil => exact iff_of_true rfl (by simp)
  | cons p ps ih =>
    show (p.success && (concat ps).success) = true ↔ _
    rw [Bool.and_eq_true, ih, List.forall_mem_cons]

end Program.Part

namespace ProgramRuns

open Batch (evaluateAll summarize)
open Expression (evaluate)
open Program (Part Outcome expressionPart givenPath? operationPart rowsPart run runFile runTexts
  summaryLine tokensPart valuePart)

/-! ## Lines -/

/-- The line of an expression that has a value. -/
def valueLine? (s : String) : Option String :=
  match evaluate s with
  | .ok x => some (s ++ " = " ++ NumberText.format x ++ "\n")
  | .error _ => none

/-- The line of the operation, if there is one and it has a value. -/
def operationLine? (r : Request) : Option String :=
  match r.operation with
  | none => none
  | some o =>
    match o.applyTexts r.operandType r.operands with
    | .ok v => some (o.name ++ "(" ++ ", ".intercalate r.operands ++ ") = " ++ v.printed ++ "\n")
    | .error _ => none

/-- The line that sums up the file, if there is one and it can be loaded. -/
def fileLine? (files : Files) (r : Request) : Option String :=
  match givenPath? r.inputPath with
  | none => none
  | some path =>
    match Dataset.load files path (some r.expressionColumn) with
    | .ok L => some (summaryLine (summarize (evaluateAll L)))
    | .error _ => none

/-- All lines of a run that shows no tokens. -/
def lines (files : Files) (r : Request) : List String :=
  r.expressions.filterMap valueLine? ++ (operationLine? r).toList ++ (fileLine? files r).toList

/-! ## Expressions and the operation -/

theorem printed_valuePart (s : String) : (valuePart s).printed = (valueLine? s).toList := by
  rw [valuePart, valueLine?]
  cases evaluate s <;> rfl

theorem success_valuePart (s : String) :
    (valuePart s).success = true ↔ ∃ x, evaluate s = .ok x := by
  rw [valuePart]
  cases evaluate s with
  | ok x => exact iff_of_true rfl ⟨x, rfl⟩
  | error f => exact iff_of_false Bool.false_ne_true (by rintro ⟨x, ⟨⟩⟩)

/-- The listing of tokens never fails: what cannot be read is left to the evaluation. -/
theorem success_tokensPart (s : String) : (tokensPart s).success = true := by
  rw [tokensPart]
  cases Expression.tokenize s <;> rfl

theorem success_expressionPart (showTokens : Bool) (s : String) :
    (expressionPart showTokens s).success = true ↔ ∃ x, evaluate s = .ok x := by
  rw [expressionPart, Part.success_append, Bool.and_eq_true, success_valuePart]
  cases showTokens with
  | false => exact and_iff_right rfl
  | true => exact and_iff_right (success_tokensPart s)

theorem success_operationPart (o : Operation) (t : OperandType) (operands : List String) :
    (operationPart o t operands).success = true ↔ ∃ v, o.applyTexts t operands = .ok v := by
  rw [operationPart]
  cases o.applyTexts t operands with
  | ok v => exact iff_of_true rfl ⟨v, rfl⟩
  | error f => exact iff_of_false Bool.false_ne_true (by rintro ⟨v, ⟨⟩⟩)

/-- The parts before any file go well if every expression and the operation have a
    value. -/
theorem success_runTexts (r : Request) :
    (runTexts r).success = true ↔
      (∀ s ∈ r.expressions, ∃ x, evaluate s = .ok x) ∧
      ∀ o, r.operation = some o → ∃ v, o.applyTexts r.operandType r.operands = .ok v := by
  rw [runTexts, Part.success_append, Bool.and_eq_true, Part.success_concat,
    List.forall_mem_map]
  simp only [success_expressionPart]
  refine and_congr_right fun _ => ?_
  cases r.operation with
  | none => exact iff_of_true rfl (by rintro o ⟨⟩)
  | some o =>
    show (operationPart o r.operandType r.operands).success = true ↔ _
    rw [success_operationPart]
    simp

/-- The lines of the expressions come first, and then the one of the operation. -/
theorem printed_runTexts_append (r : Request) :
    (runTexts r).printed =
      (r.expressions.flatMap fun s => (expressionPart r.showTokens s).printed) ++
        (operationLine? r).toList := by
  rw [runTexts, Part.printed_append, Part.printed_concat, List.flatMap_map]
  congr 1
  rw [operationLine?]
  cases r.operation with
  | none => rfl
  | some o =>
    dsimp only
    rw [operationPart]
    cases o.applyTexts r.operandType r.operands <;> rfl

theorem printed_runTexts {r : Request} (h : r.showTokens = false) :
    (runTexts r).printed = r.expressions.filterMap valueLine? ++ (operationLine? r).toList := by
  have hexpression (s : String) : (expressionPart r.showTokens s).printed
      = (valueLine? s).toList := by
    rw [h, ← printed_valuePart]
    rfl
  rw [printed_runTexts_append]
  simp only [hexpression, ← List.filterMap_eq_flatMap_toList]

/-! ## The file -/

/-- The rows of a file go well if all of its expressions have a value. -/
theorem success_rowsPart (L : List String) :
    (rowsPart L).success = true ↔ ∀ s ∈ L, ∃ x, evaluate s = .ok x := by
  have hfails (s : String) : ¬ BatchRows.fails s = true ↔ ∃ x, evaluate s = .ok x := by
    rw [BatchRows.fails]
    cases evaluate s with
    | ok x => exact iff_of_true Bool.false_ne_true ⟨x, rfl⟩
    | error f => exact iff_of_false (not_not_intro rfl) (by rintro ⟨x, ⟨⟩⟩)
  show decide ((summarize (evaluateAll L)).failed = 0) = true ↔ _
  rw [decide_eq_true_iff, BatchRows.failed_evaluateAll, List.countP_eq_zero]
  simp only [hfails]

theorem status_ofPart {p : Part} {written : List Batch.Written} {n : Nat}
    (h : (Outcome.ofPart p written).ending = .ok n) :
    (n = 0 ↔ p.success = true) ∧ (n = 0 ∨ n = 1) := by
  obtain rfl := Except.ok.inj h
  cases p.success with
  | false => exact ⟨by decide, .inr rfl⟩
  | true => exact ⟨by decide, .inl rfl⟩

/-- A file goes well if it can be loaded and all of its rows go well, whether its results
    are written or not. -/
theorem status_runFile {files : Files} {r : Request} {before : Part} {path : String} {n : Nat}
    (h : (runFile files r before path).ending = .ok n) :
    (n = 0 ↔ before.success = true ∧
      ∃ L, Dataset.load files path (some r.expressionColumn) = .ok L ∧
        ∀ s ∈ L, ∃ x, evaluate s = .ok x) ∧ (n = 0 ∨ n = 1) := by
  rw [runFile] at h
  cases hload : Dataset.load files path (some r.expressionColumn) with
  | error f =>
    rw [hload] at h
    obtain ⟨hzero, hstatus⟩ := status_ofPart h
    refine ⟨hzero.trans (iff_of_false ?_ (by rintro ⟨-, L, ⟨⟩, -⟩)), hstatus⟩
    -- The last part is that of the failure.
    rw [Part.success_append]
    exact fun hsuccess => Bool.false_ne_true (Bool.and_eq_true _ _ ▸ hsuccess).2
  | ok L =>
    rw [hload] at h
    have hrows : (before ++ Program.loadingPart path ++ rowsPart L).success = true ↔
        before.success = true ∧ ∃ L', Except.ok (ε := Dataset.Fault) L = .ok L' ∧
          ∀ s ∈ L', ∃ x, evaluate s = .ok x := by
      rw [Part.success_append, Part.success_append, Bool.and_eq_true, success_rowsPart]
      simp [Program.loadingPart]
    cases houtput : givenPath? r.outputPath with
    | none =>
      simp only [houtput] at h
      obtain ⟨hzero, hstatus⟩ := status_ofPart h
      exact ⟨hzero.trans hrows, hstatus⟩
    | some output =>
      simp only [houtput] at h
      cases hsave : Batch.save files (evaluateAll L) (some output) with
      | error f =>
        -- There is no status if the results cannot be written.
        simp only [hsave] at h
        cases h
      | ok written =>
        simp only [hsave] at h
        obtain ⟨hzero, hstatus⟩ := status_ofPart h
        rw [Part.success_append] at hzero
        have hsaving : (Program.savingPart output).success = true := rfl
        rw [hsaving, Bool.and_true] at hzero
        exact ⟨hzero.trans hrows, hstatus⟩

theorem printed_runFile (files : Files) (r : Request) (before : Part) {path : String}
    (hpath : givenPath? r.inputPath = some path) :
    (runFile files r before path).printed = before.printed ++ (fileLine? files r).toList := by
  have hloading : (before ++ Program.loadingPart path).printed = before.printed := by
    rw [Part.printed_append]
    exact List.append_nil _
  simp only [runFile, fileLine?, hpath]
  cases Dataset.load files path (some r.expressionColumn) with
  | error f =>
    show (before ++ Program.loadingPart path).printed ++ [] = _
    rw [hloading]
    rfl
  | ok L =>
    dsimp only
    have hrows : (before ++ Program.loadingPart path ++ rowsPart L).printed
        = before.printed ++ [summaryLine (summarize (evaluateAll L))] := by
      rw [Part.printed_append, hloading]
      rfl
    cases givenPath? r.outputPath with
    | none => exact hrows
    | some output =>
      have hsaved : (before ++ Program.loadingPart path ++ rowsPart L
          ++ Program.savingPart output).printed
            = before.printed ++ [summaryLine (summarize (evaluateAll L))] := by
        rw [Part.printed_append, hrows]
        exact List.append_nil _
      -- Whether the results can be written makes no difference to what has been printed.
      dsimp only
      cases Batch.save files (evaluateAll L) (some output) with
      | ok written => exact hsaved
      | error f => exact hsaved

/-! ## Whole runs -/

/-- All that is asked for goes well: every expression and the operation have a value, and
    the file can be loaded and every expression in it has a value. -/
structure Succeeds (files : Files) (r : Request) : Prop where
  expressions : ∀ s ∈ r.expressions, ∃ x, evaluate s = .ok x
  operation : ∀ o, r.operation = some o → ∃ v, o.applyTexts r.operandType r.operands = .ok v
  file : ∀ path, givenPath? r.inputPath = some path →
    ∃ L, Dataset.load files path (some r.expressionColumn) = .ok L ∧
      ∀ s ∈ L, ∃ x, evaluate s = .ok x

/-- The request for what comes first in another one: some of its expressions, or all of
    them and the operation; and no file. -/
structure IsStart (start r : Request) : Prop where
  expressions : start.expressions <+: r.expressions
  operation : start.operation = none ∨ start.operation = r.operation ∧
    start.operandType = r.operandType ∧ start.operands = r.operands
  file : givenPath? start.inputPath = none

theorem status_run {files : Files} {r : Request} {n : Nat} (h : (run files r).ending = .ok n) :
    (n = 0 ↔ Succeeds files r) ∧ (n = 0 ∨ n = 1) := by
  rw [run] at h
  cases hpath : givenPath? r.inputPath with
  | none =>
    rw [hpath] at h
    obtain ⟨hzero, hstatus⟩ := status_ofPart h
    rw [success_runTexts] at hzero
    refine ⟨hzero.trans ⟨?_, ?_⟩, hstatus⟩
    · rintro ⟨hexpressions, hoperation⟩
      exact ⟨hexpressions, hoperation, by rw [hpath]; rintro path ⟨⟩⟩
    · exact fun hall => ⟨hall.expressions, hall.operation⟩
  | some path =>
    rw [hpath] at h
    obtain ⟨hzero, hstatus⟩ := status_runFile h
    rw [success_runTexts] at hzero
    refine ⟨hzero.trans ⟨?_, ?_⟩, hstatus⟩
    · rintro ⟨⟨hexpressions, hoperation⟩, hfile⟩
      refine ⟨hexpressions, hoperation, ?_⟩
      intro path' hpath'
      rw [hpath, Option.some.injEq] at hpath'
      exact hpath' ▸ hfile
    · exact fun hall => ⟨⟨hall.expressions, hall.operation⟩, hall.file path hpath⟩

theorem printed_run {files : Files} {r : Request} (h : r.showTokens = false) :
    (run files r).printed = lines files r := by
  rw [run, lines, ← printed_runTexts h]
  cases hpath : givenPath? r.inputPath with
  | none =>
    rw [fileLine?, hpath]
    exact (List.append_nil _).symm
  | some path => exact printed_runFile files r (runTexts r) hpath

/-- The start of a request goes well if the whole of it does. -/
theorem IsStart.succeeds {files : Files} {start r : Request} (hstart : IsStart start r)
    (h : Succeeds files r) : Succeeds files start where
  expressions s hs := h.expressions s (hstart.expressions.subset hs)
  operation o ho := by
    rcases hstart.operation with hnone | ⟨hoperation, htype, hoperands⟩
    · rw [hnone] at ho
      cases ho
    · rw [htype, hoperands]
      exact h.operation o (hoperation ▸ ho)
  file path hpath := by
    rw [hstart.file] at hpath
    cases hpath

/-- A run that has a status has 0 exactly if all that is asked for goes well, and 1
    otherwise; what comes later does not make a run good that has failed at its start.  It
    prints a line for every expression that has a value, in their order, then one for the
    operation and one for the file, as far as these go well, and nothing else unless
    tokens are asked for. -/
theorem run_status_and_lines {files : Files} {r : Request} {n : Nat}
    (h : (run files r).ending = .ok n) :
    (n = 0 ↔ Succeeds files r) ∧ (n = 0 ∨ n = 1) ∧
    (∀ start, IsStart start r → (run files start).ending = .ok 1 → n = 1) ∧
    (r.showTokens = false → (run files r).printed = lines files r) := by
  obtain ⟨hzero, hstatus⟩ := status_run h
  refine ⟨hzero, hstatus, ?_, printed_run⟩
  intro start hstart hfailed
  refine hstatus.resolve_left fun hn => ?_
  -- The start would have gone well too.
  have hgood := (status_run hfailed).1.2 (hstart.succeeds (hzero.1 hn))
  exact absurd hgood (by decide)

/-- The second expression fails and so does a row of the file; all the rest is printed. -/
theorem run_status_and_lines_mixed :
    (run (.ofList [("in.txt", Batch.fieldBytes "1+1\n1/0\n")])
        { expressions := ["2*3", "2&3"], operation := some .add, operands := ["1", "2"],
          inputPath := some "in.txt" }).ending = .ok 1 ∧
      (run (.ofList [("in.txt", Batch.fieldBytes "1+1\n1/0\n")])
        { expressions := ["2*3", "2&3"], operation := some .add, operands := ["1", "2"],
          inputPath := some "in.txt" }).printed =
        ["2*3 = 6\n", "add(1, 2) = 3\n", "total=2 succeeded=1 failed=1\n"] := by
  have hending : (run (.ofList [("in.txt", Batch.fieldBytes "1+1\n1/0\n")])
      { expressions := ["2*3", "2&3"], operation := some .add, operands := ["1", "2"],
        inputPath := some "in.txt" }).ending = .ok 1 := by decide +kernel
  refine ⟨hending, ((run_status_and_lines hending).2.2.2 rfl).trans ?_⟩
  decide +kernel

end ProgramRuns

end InfixArithmetic
