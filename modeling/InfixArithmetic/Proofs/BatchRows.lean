/-
  InfixArithmetic.Proofs.BatchRows

  The table of a list of expressions.

  A table can be filled by a loop that puts results and errors into two columns, which are
  laid beside the expressions in the end.  Such a loop could stop at a fault that it does
  not expect, and its columns could come out of step.  The invariant is that both columns
  hold what the rows of the expressions so far hold (`foldlM_add`): a round adds one entry
  to each, since the faults of an expression are all expected (`isReported_of_evaluate`).
  So the loop always comes to its end, and gives `Batch.evaluateAll`.

  A fault never has an empty text (`faultText_ne_empty`), so the rows with an error are
  those of the expressions without a value, and NaN is a value like any other.
-/

import InfixArithmetic.Proofs.EvaluationOutcomes
import InfixArithmetic.Table.Batch
import Mathlib.Data.List.Forall2

namespace InfixArithmetic.BatchRows

open Batch (Row Summary evaluateAll faultText summarize)
open EvaluationOutcomes (evaluate_fault)
open Expression (evaluate)

/-! ## Two columns -/

/-- The results and the errors of the expressions so far. -/
structure Columns where
  results : List Binary64
  errors : List String

/-- True of the faults that become the error of a row. Any other one ends the loop. -/
def isReported : Fault → Bool
  | .format _ | .division _ => true
  | .tooLarge => false

/-- One round: an entry for each column, by what becomes of the expression. -/
def Columns.add (c : Columns) (s : String) : Except Fault Columns :=
  match evaluate s with
  | .ok x => .ok ⟨c.results ++ [x], c.errors ++ [""]⟩
  | .error f =>
    if isReported f then .ok ⟨c.results ++ [.nan], c.errors ++ [faultText f]⟩ else .error f

/-- The columns of a list of expressions, filled one after the other. -/
def fillColumns (expressions : List String) : Except Fault Columns :=
  expressions.foldlM Columns.add ⟨[], []⟩

/-- The rows of columns beside each other, none if they do not have the same length. -/
def rows? (expressions : List String) (c : Columns) : Option (List Row) :=
  if c.results.length = expressions.length ∧ c.errors.length = expressions.length then
    some ((expressions.zip (c.results.zip c.errors)).map fun (s, x, e) => ⟨s, x, e⟩)
  else none

/-! ## One round -/

/-- An expression never has a fault that would end the loop. -/
theorem isReported_of_evaluate {s : String} {f : Fault} (h : evaluate s = .error f) :
    isReported f = true := by
  rcases evaluate_fault h with ⟨g, -, rfl⟩ | rfl
  · rfl
  · rfl

theorem ofExpression_ok {s : String} {x : Binary64} (h : evaluate s = .ok x) :
    Row.ofExpression s = ⟨s, x, ""⟩ := by
  rw [Row.ofExpression, h]
  rfl

theorem ofExpression_error {s : String} {f : Fault} (h : evaluate s = .error f) :
    Row.ofExpression s = ⟨s, .nan, faultText f⟩ := by
  rw [Row.ofExpression, h]
  rfl

@[simp] theorem ofExpression_expression (s : String) : (Row.ofExpression s).expression = s := by
  cases h : evaluate s with
  | ok x => rw [ofExpression_ok h]
  | error f => rw [ofExpression_error h]

theorem add_eq (c : Columns) (s : String) :
    c.add s = .ok ⟨c.results ++ [(Row.ofExpression s).result],
      c.errors ++ [(Row.ofExpression s).error]⟩ := by
  rw [Columns.add]
  cases h : evaluate s with
  | ok x => rw [ofExpression_ok h]
  | error f =>
    rw [ofExpression_error h]
    exact if_pos (isReported_of_evaluate h)

/-! ## The whole loop -/

theorem foldlM_add (c : Columns) (L : List String) :
    L.foldlM Columns.add c = .ok ⟨c.results ++ (evaluateAll L).map Row.result,
      c.errors ++ (evaluateAll L).map Row.error⟩ := by
  induction L generalizing c with
  | nil => simp [evaluateAll, pure, Except.pure]
  | cons s L ih =>
    rw [List.foldlM_cons, add_eq]
    -- The entries of this round come before those of the rest.
    show L.foldlM Columns.add _ = _
    rw [ih]
    simp [evaluateAll]

/-- The columns of a table, laid beside the expressions, are its rows again. -/
theorem rows?_evaluateAll (L : List String) :
    rows? L ⟨(evaluateAll L).map Row.result, (evaluateAll L).map Row.error⟩
      = some (evaluateAll L) := by
  have hlengths : ((evaluateAll L).map Row.result).length = L.length ∧
      ((evaluateAll L).map Row.error).length = L.length := by
    simp [evaluateAll]
  rw [rows?, if_pos hlengths]
  congr 1
  induction L with
  | nil => rfl
  | cons s L ih =>
    have hhead : Row.ofExpression s = ⟨(Row.ofExpression s).expression,
        (Row.ofExpression s).result, (Row.ofExpression s).error⟩ := rfl
    rw [ofExpression_expression] at hhead
    have htail := ih (by simp [evaluateAll])
    simp only [evaluateAll, List.map_cons, List.zip_cons_cons, ← hhead] at htail ⊢
    rw [htail]

/-! ## Rows -/

/-- The row of an expression: its value and no error, or NaN and the text of the fault
    that the expression has by itself. -/
def IsRowOf (s : String) (r : Row) : Prop :=
  r.expression = s ∧
    ((∃ x, evaluate s = .ok x ∧ r.result = x ∧ r.error = "") ∨
      ∃ f, evaluate s = .error f ∧ (f.kind = "FormatError" ∨ f.kind = "DivisionByZero") ∧
        r.result = .nan ∧ r.error = f.kind ++ ": " ++ f.message ∧ r.error ≠ "")

/-- There is always a colon in the text of a fault. -/
theorem faultText_ne_empty (f : Fault) : faultText f ≠ "" := by
  intro hempty
  have hlist := congrArg String.toList hempty
  simp [faultText] at hlist

theorem isRowOf_ofExpression (s : String) : IsRowOf s (Row.ofExpression s) := by
  refine ⟨ofExpression_expression s, ?_⟩
  cases h : evaluate s with
  | ok x =>
    rw [ofExpression_ok h]
    exact .inl ⟨x, rfl, rfl, rfl⟩
  | error f =>
    rw [ofExpression_error h]
    have hkind : f.kind = "FormatError" ∨ f.kind = "DivisionByZero" := by
      cases f with
      | format g => exact .inl rfl
      | division g => exact .inr rfl
      | tooLarge => exact absurd (isReported_of_evaluate h) (by decide)
    exact .inr ⟨f, rfl, hkind, rfl, rfl, faultText_ne_empty f⟩

/-! ## Summaries -/

/-- True of the expressions without a value. -/
def fails (s : String) : Bool := !(evaluate s).isOk

/-- A row has an error exactly if its expression has no value. -/
theorem error_ne_empty_iff (s : String) : (Row.ofExpression s).error ≠ "" ↔ fails s = true := by
  cases h : evaluate s with
  | ok x => simp [ofExpression_ok h, fails, h, Except.isOk, Except.toBool]
  | error f =>
    simp [ofExpression_error h, fails, h, Except.isOk, Except.toBool, faultText_ne_empty f]

theorem failed_evaluateAll (L : List String) :
    (summarize (evaluateAll L)).failed = L.countP fails := by
  show (L.map Row.ofExpression).countP (·.error ≠ "") = _
  rw [List.countP_map]
  refine List.countP_congr fun s _ => ?_
  rw [Function.comp_apply, decide_eq_true_iff]
  exact error_ne_empty_iff s

/-- Every row of a table has failed or not. -/
theorem succeeded_add_failed (rows : List Row) :
    (summarize rows).succeeded + (summarize rows).failed = (summarize rows).total := by
  have hle : rows.countP (·.error ≠ "") ≤ rows.length := List.countP_le_length
  show rows.length - rows.countP (·.error ≠ "") + rows.countP (·.error ≠ "") = rows.length
  omega

/-- The counts of two tables taken together. -/
def addSummaries (a b : Summary) : Summary :=
  ⟨a.total + b.total, a.succeeded + b.succeeded, a.failed + b.failed⟩

theorem summarize_append (rows more : List Row) :
    summarize (rows ++ more) = addSummaries (summarize rows) (summarize more) := by
  have hrows := succeeded_add_failed rows
  have hmore := succeeded_add_failed more
  have hboth := succeeded_add_failed (rows ++ more)
  have htotal : (summarize (rows ++ more)).total
      = (summarize rows).total + (summarize more).total := List.length_append
  have hfailed : (summarize (rows ++ more)).failed
      = (summarize rows).failed + (summarize more).failed := List.countP_append
  rw [addSummaries, ← htotal, ← hfailed]
  -- What is left of the total has succeeded.
  have hsucceeded : (summarize (rows ++ more)).succeeded
      = (summarize rows).succeeded + (summarize more).succeeded := by omega
  rw [← hsucceeded]

/-- A literal that is read as infinity, less itself. -/
def infiniteLessItself : List Char :=
  List.replicate 309 '9' ++ '-' :: List.replicate 309 '9'

theorem evaluate_infiniteLessItself :
    evaluate (String.ofList infiniteLessItself) = .ok .nan := by
  -- The kernel is slow on long strings, but not on their characters.
  rw [evaluate, Expression.scan, String.toList_ofList]
  decide +kernel

/-- NaN is a value, and its row has no error. -/
theorem succeeds_of_nan {s : String} (h : evaluate s = .ok .nan) :
    Row.ofExpression s = ⟨s, .nan, ""⟩ ∧ fails s = false := by
  refine ⟨ofExpression_ok h, ?_⟩
  rw [fails, h]
  rfl

/-! ## Tables -/

/-- The table of any list of expressions: the loop fills its columns without a stop, and
    there is one row for each expression, in order, which depends on this expression only.
    The summary counts the expressions without a value as failed and all others as
    succeeded, also those whose value is NaN, which there are.  The table of two lists in
    a row is that of the one and then that of the other, and the counts add up. -/
theorem table_of_expressions (L : List String) :
    (∃ c, fillColumns L = .ok c ∧ rows? L c = some (evaluateAll L)) ∧
    List.Forall₂ IsRowOf L (evaluateAll L) ∧
    (summarize (evaluateAll L)).total = L.length ∧
    (summarize (evaluateAll L)).failed = L.countP fails ∧
    (summarize (evaluateAll L)).succeeded + (summarize (evaluateAll L)).failed
      = (summarize (evaluateAll L)).total ∧
    ((∀ s, evaluate s = .ok .nan → Row.ofExpression s = ⟨s, .nan, ""⟩ ∧ fails s = false) ∧
      evaluate (String.ofList infiniteLessItself) = .ok .nan) ∧
    ∀ M, evaluateAll (L ++ M) = evaluateAll L ++ evaluateAll M ∧
      summarize (evaluateAll (L ++ M))
        = addSummaries (summarize (evaluateAll L)) (summarize (evaluateAll M)) := by
  have happend (M : List String) : evaluateAll (L ++ M) = evaluateAll L ++ evaluateAll M :=
    List.map_append
  refine ⟨⟨_, foldlM_add ⟨[], []⟩ L, ?_⟩, ?_, ?_, failed_evaluateAll L, succeeded_add_failed _,
    ⟨fun s => succeeds_of_nan, evaluate_infiniteLessItself⟩, fun M => ⟨happend M, ?_⟩⟩
  · exact rows?_evaluateAll L
  · rw [evaluateAll, List.forall₂_map_right_iff, List.forall₂_same]
    intro s _
    exact isRowOf_ofExpression s
  · show (L.map Row.ofExpression).length = L.length
    exact List.length_map _
  · rw [happend M, summarize_append]

end InfixArithmetic.BatchRows
