/-
  InfixArithmetic.Proofs.TextRuns

  A computation on texts follows the computation on numbers, step by step.

  Between two steps the text is written and read again, and `Layout` loses nothing on
  the way (`Layout.Readable.parse?_render`).  The invariant of the two runs is
  therefore not that the text is the written number, which the start text need not
  be, but that it is read as the number (`Reads`): a step keeps it (`next_reads`),
  and a step that starts from it has the same outcome on both sides
  (`TextStep.agrees`).
-/

import InfixArithmetic.Operation.Apply
import InfixArithmetic.Operation.Request
import InfixArithmetic.Proofs.RoundTrip
import Mathlib.Data.List.Forall2

namespace InfixArithmetic.Operation

open NumberText (both format parse)

/-! ## The two runs -/

/-- A step of a computation on texts: an operation whose result is a text again, with
    the texts of the operands that it takes besides the state. -/
structure TextStep where
  operation : Operation
  operands : List String
  isText : operation ≠ .superSum
  count : operands.length + 1 = operation.arity

namespace TextStep

/-- The step on a state that is a text. -/
def toStep (step : TextStep) : Step := ⟨step.operation, step.operands.map .text⟩

/-- The step on a state that is a number: the operand texts are read in order, and the
    floating-point operation is applied to what they hold. -/
def onNumber (step : TextStep) (state : Value) : Except Fault Value := do
  apply .float step.operation (state :: (← step.operands.mapM (convert .float)))

end TextStep

/-- The outcome of every step of a run on a number. -/
def numberRun : Value → List TextStep → List (Except Fault Value)
  | _, [] => []
  | state, step :: steps =>
    let outcome := step.onNumber state
    outcome :: numberRun (next state outcome) steps

/-- The outcomes of one step on a text and on a number: the same fault, or the number
    and the text that it is written as. -/
inductive Agrees : Except Fault Value → Except Fault Value → Prop
  | fault (f : Fault) : Agrees (.error f) (.error f)
  | value (y : Binary64) : Agrees (.ok (.text (format y))) (.ok (.double y))

/-- The invariant of the two runs: the text is read as the number. -/
def Reads (text number : Value) : Prop := ∃ x, number = .double x ∧ parse text = .ok x

/-! ## One step -/

/-- An operation on the number of a text, written, and the operation on the number. -/
theorem written_agrees (r : Except Fault Binary64) :
    Agrees (.text <$> (format <$> r)) (.double <$> r) := by
  cases r with
  | error f => exact .fault f
  | ok y => exact .value y

/-- A binary operation on the numbers of two texts, the first of them the state. -/
theorem both_agrees {state : Value} {x : Binary64} (h : parse state = .ok x)
    (f : Number → Number → Except Fault Binary64) (s : String) :
    Agrees (.text <$> (format <$> both f state (.text s)))
      (do onNumbers f (.double x) (← convert .float s)) := by
  -- The state is read first on the text side, and that cannot fail.
  cases hs : parse (.text s) with
  | error fault =>
    have hboth : both f state (.text s) = .error fault := by
      rw [both, h, hs]
      rfl
    have hconvert : convert .float s = .error fault := by
      rw [convert, hs]
      rfl
    rw [hboth, hconvert]
    exact .fault fault
  | ok y =>
    have hboth : both f state (.text s) = f (.double x) (.double y) := by
      rw [both, h, hs]
      rfl
    have hconvert : convert .float s = .ok (.double y) := by
      rw [convert, hs]
      rfl
    rw [hboth, hconvert]
    exact written_agrees _

/-- A unary operation on the number of the state. -/
theorem unary_agrees {state : Value} {x : Binary64} (h : parse state = .ok x)
    (f : Number → Except Fault Binary64) :
    Agrees (.text <$> (do return format (← f (.double (← parse state)))))
      (do return .double (← f (← numberOperand (.double x)))) := by
  rw [h]
  exact written_agrees (f (.double x))

/-- A step that starts from a text and from the number in it has the same outcome. -/
theorem TextStep.agrees (step : TextStep) {text number : Value} (h : Reads text number) :
    Agrees (apply .string step.operation (text :: step.toStep.operands))
      (step.onNumber number) := by
  obtain ⟨x, rfl, hx⟩ := h
  obtain ⟨operation, operands, hisText, hcount⟩ := step
  -- The five operations with two operands differ in nothing but the function.
  cases operation with
  | add | subtract | multiply | divide | power =>
    obtain ⟨s, rfl⟩ := List.length_eq_one_iff.1 (Nat.succ.inj hcount)
    simp only [onNumber, toStep, List.map_cons, List.map_nil, List.mapM_cons, List.mapM_nil,
      bind_assoc, pure_bind]
    exact both_agrees hx _ s
  | squareRoot | abs =>
    obtain rfl := List.length_eq_zero_iff.1 (Nat.succ.inj hcount)
    exact unary_agrees hx _
  | superSum => exact absurd rfl hisText

/-- A step that has the same outcome on both sides keeps the invariant. -/
theorem next_reads {text number : Value} {r s : Except Fault Value} (h : Reads text number)
    (hrs : Agrees r s) : Reads (next text r) (next number s) := by
  cases hrs with
  | fault f => exact h
  | value y =>
    exact ⟨y, rfl, NumberText.parse_text (Layout.plain_readable.parse?_render y)⟩

/-! ## Runs -/

/-- Runs from a text and from the number in it have the same outcomes. -/
theorem run_agrees {text number : Value} (h : Reads text number) (steps : List TextStep) :
    List.Forall₂ Agrees (run .string text (steps.map TextStep.toStep))
      (numberRun number steps) := by
  induction steps generalizing text number with
  | nil => exact .nil
  | cons step steps ih =>
    have hstep := step.agrees h
    exact .cons hstep (ih (next_reads h hstep))

/-- A computation on texts of any length loses nothing: started from a text that holds a
    number, every step fails with the fault with which the computation on that number
    fails there, and no other step does, or it gives the number of that computation as
    it is written. -/
theorem run_string_follows_numberRun {start : String} {x : Binary64}
    (h : parse (.text start) = .ok x) (steps : List TextStep) :
    List.Forall₂ Agrees (run .string (.text start) (steps.map TextStep.toStep))
      (numberRun (.double x) steps) :=
  run_agrees ⟨x, rfl, h⟩ steps

/-- Negative zero keeps its sign under the square root and is refused as a base. -/
theorem run_string_follows_numberRun_negative_zero :
    run .string (.text "-0") [⟨.squareRoot, []⟩, ⟨.power, [.text "-1"]⟩, ⟨.add, [.text "x"]⟩]
        = [.ok (.text "-0"), .error (.division .zeroToNegativePower),
          .error (.format (.notNumeric (.text "x")))] ∧
      List.Forall₂ Agrees
        (run .string (.text "-0") [⟨.squareRoot, []⟩, ⟨.power, [.text "-1"]⟩, ⟨.add, [.text "x"]⟩])
        (numberRun (.double (.finite true 0))
          [⟨.squareRoot, [], by decide, by decide⟩, ⟨.power, ["-1"], by decide, by decide⟩,
            ⟨.add, ["x"], by decide, by decide⟩]) :=
  have hstart : parse (.text "-0") = .ok (.finite true 0) := by decide
  ⟨by decide +kernel, run_string_follows_numberRun hstart
    [⟨.squareRoot, [], by decide, by decide⟩, ⟨.power, ["-1"], by decide, by decide⟩,
      ⟨.add, ["x"], by decide, by decide⟩]⟩

end InfixArithmetic.Operation
