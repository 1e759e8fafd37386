/-
  InfixArithmetic.Proofs.IntegerRuns

  Computations on 32-bit integers, step by step.

  The invariant is that the state is an integer in range.  Every operation gives it back
  by its own route (`IntegerStep.outcome`): sums, differences, products, quotients and
  absolute values are wrapped, powers are wrapped at every product, and a root is not
  above its radicand.  A step that fails leaves the state as it was, so the state of a run
  never leaves the range (`exists_stateAfter`) and is never what a step is refused for,
  unless a root of it is asked for.
-/

import InfixArithmetic.Operation.Apply
import InfixArithmetic.Proofs.WrappedArithmetic

namespace InfixArithmetic.Operation

/-! ## States of a run -/

/-- The state that the steps of a run leave. -/
def stateAfter (t : OperandType) (state : Value) (steps : List Step) : Value :=
  steps.foldl (fun v step => next v (apply t step.operation (v :: step.operands))) state

theorem stateAfter_append (t : OperandType) (state : Value) (before after : List Step) :
    stateAfter t state (before ++ after) = stateAfter t (stateAfter t state before) after :=
  List.foldl_append

/-- A run goes on from the state that its first steps have left. -/
theorem run_append (t : OperandType) (state : Value) (before after : List Step) :
    run t state (before ++ after)
      = run t state before ++ run t (stateAfter t state before) after := by
  induction before generalizing state with
  | nil => rfl
  | cons step before ih =>
    simp only [List.cons_append, run, ih]
    rfl

end InfixArithmetic.Operation

namespace InfixArithmetic.IntegerRuns

open InfixArithmetic.Int32 (checked checked_int inRange inRange_iff inRange_wrap)
open Operation (Step apply next run run_append stateAfter stateAfter_append)

/-! ## Steps -/

/-- A step of a computation on 32-bit integers: an operation whose result is an integer
    again, with the integers of any size that it takes besides the state. -/
structure IntegerStep where
  operation : Operation
  operands : List Int
  isInteger : operation ≠ .superSum
  count : operands.length + 1 = operation.arity

namespace IntegerStep

/-- The step on a state. -/
def toStep (step : IntegerStep) : Step := ⟨step.operation, step.operands.map .int⟩

/-- The step takes an operand that is not in range, or a root of a negative state. -/
def Refuses (step : IntegerStep) (state : Int) : Prop :=
  (∃ b ∈ step.operands, inRange b = false) ∨ step.operation = .squareRoot ∧ state < 0

/-- The step takes an operand in range and divides by it, which is zero, or raises to it,
    which is negative. -/
def IsUndefined (step : IntegerStep) : Prop :=
  (∀ b ∈ step.operands, inRange b = true) ∧
    (step.operation = .divide ∧ step.operands = [0] ∨
      step.operation = .power ∧ ∃ b ∈ step.operands, b < 0)

/-- What a step on a state in range can come to. -/
inductive Outcome (step : IntegerStep) (state : Int) : Except Fault Value → Prop
  | refused (h : step.Refuses state) (f : FormatFault) : Outcome step state (.error (.format f))
  | undefined (h : step.IsUndefined) (f : DivisionFault) :
    Outcome step state (.error (.division f))
  | value (hrefuses : ¬ step.Refuses state) (hundefined : ¬ step.IsUndefined) {j : Int}
      (hj : inRange j = true) : Outcome step state (.ok (.int j))

/-- The range is checked before anything is divided or raised, and no root is either. -/
theorem not_isUndefined_of_refuses {step : IntegerStep} {state : Int}
    (h : step.Refuses state) : ¬ step.IsUndefined := by
  rintro ⟨hrange, hoperation⟩
  rcases h with ⟨b, hb, hout⟩ | ⟨hroot, -⟩
  · rw [hrange b hb] at hout
    exact Bool.noConfusion hout
  · rw [hroot] at hoperation
    rcases hoperation with ⟨h, -⟩ | ⟨h, -⟩ <;> cases h

end IntegerStep

/-! ## Outcomes -/

theorem checked_outside {b : Int} (h : inRange b = false) :
    checked (.int b) = .error (.format (.outsideInt32 b)) := by
  rw [checked, if_neg (by simp [h])]

/-- An operation that checks the state and its operand, and then goes on with both. -/
def checkedBoth (f : Int → Int → Except Fault Int) (a b : Value) : Except Fault Int := do
  let x ← checked a
  let y ← checked b
  f x y

/-- The state passes its check, so only the operand decides. -/
theorem checkedBoth_eq (f : Int → Int → Except Fault Int) {i : Int} (hi : inRange i = true)
    (b : Int) :
    checkedBoth f (.int i) (.int b)
      = if inRange b = true then f i b else .error (.format (.outsideInt32 b)) := by
  rw [checkedBoth, checked_int hi]
  split
  next hb =>
    rw [checked_int hb]
    rfl
  next hb =>
    rw [checked_outside (by simpa using hb)]
    rfl

/-- The root of an integer in range is in range. -/
theorem inRange_floorRoot {i : Int} (hi : inRange i = true) :
    inRange (Exact.floorRoot i.toNat) = true := by
  have hsquare := (Exact.floorRoot_bounds i.toNat).1
  have hle : Exact.floorRoot i.toNat ≤ i.toNat := (Nat.le_mul_self _).trans hsquare
  rw [inRange_iff] at hi ⊢
  omega

namespace IntegerStep

/-- A step with an operand has the outcome of its operation on the state and an operand
    in range. -/
theorem outcome_checkedBoth {step : IntegerStep} {i b : Int} (hi : inRange i = true)
    (hoperands : step.operands = [b]) {f : Int → Int → Except Fault Int}
    (hf : inRange b = true → Outcome step i (.int <$> f i b)) :
    Outcome step i (.int <$> checkedBoth f (.int i) (.int b)) := by
  rw [checkedBoth_eq f hi]
  split
  next hb => exact hf hb
  next hb => exact .refused (.inl ⟨b, by simp [hoperands], by simpa using hb⟩) _

/-- A step that neither divides, raises nor takes a root has a value if its operands are in
    range. -/
theorem outcome_value {step : IntegerStep} {i j : Int}
    (hoperands : ∀ b ∈ step.operands, inRange b = true) (hdivide : step.operation ≠ .divide)
    (hpower : step.operation ≠ .power) (hroot : step.operation ≠ .squareRoot)
    (hj : inRange j = true) : Outcome step i (.ok (.int j)) := by
  refine .value ?_ ?_ hj
  · rintro (⟨b, hb, hout⟩ | ⟨h, -⟩)
    · rw [hoperands b hb] at hout
      exact Bool.noConfusion hout
    · exact hroot h
  · rintro ⟨-, ⟨h, -⟩ | ⟨h, -⟩⟩
    · exact hdivide h
    · exact hpower h

/-- A step on a state in range. -/
theorem outcome (step : IntegerStep) {i : Int} (hi : inRange i = true) :
    Outcome step i (apply .int step.operation (.int i :: step.toStep.operands)) := by
  obtain ⟨operation, operands, hisInteger, hcount⟩ := step
  cases operation with
  -- What these do after the checks has no fault, and its value is wrapped at the end.
  | add | subtract | multiply =>
    obtain ⟨b, rfl⟩ := List.length_eq_one_iff.1 (Nat.succ.inj hcount)
    refine outcome_checkedBoth (f := fun x y => .ok (Int32.wrap _)) hi rfl fun hb => ?_
    exact outcome_value (by simpa using hb) nofun nofun nofun (inRange_wrap _)
  | divide =>
    obtain ⟨b, rfl⟩ := List.length_eq_one_iff.1 (Nat.succ.inj hcount)
    refine outcome_checkedBoth hi rfl fun hb => ?_
    by_cases hzero : b = 0
    · rw [if_pos hzero]
      exact .undefined ⟨by simpa using hb, .inl ⟨rfl, by rw [hzero]⟩⟩ _
    · rw [if_neg hzero]
      refine .value ?_ ?_ (inRange_wrap _)
      · simp [Refuses, hb]
      · simp [IsUndefined, hzero]
  | power =>
    obtain ⟨b, rfl⟩ := List.length_eq_one_iff.1 (Nat.succ.inj hcount)
    refine outcome_checkedBoth hi rfl fun hb => ?_
    by_cases hnegative : b < 0
    · rw [if_pos hnegative]
      exact .undefined ⟨by simpa using hb, .inr ⟨rfl, b, by simp, hnegative⟩⟩ _
    · rw [if_neg hnegative]
      -- A power is wrapped at every product and not at the end, which comes to the same.
      have hpower : inRange (Int32.wrappedPower i b.toNat) = true := by
        rw [Int32.wrappedPower_eq_wrap]
        exact inRange_wrap _
      refine .value ?_ ?_ hpower
      · simp [Refuses, hb]
      · simp [IsUndefined, hnegative]
  | squareRoot =>
    obtain rfl := List.length_eq_zero_iff.1 (Nat.succ.inj hcount)
    show Outcome _ i (.int <$> Int32.squareRoot (.int i))
    rw [Int32.squareRoot, checked_int hi]
    by_cases hnegative : i < 0
    · simp only [bind, Except.bind, if_pos hnegative]
      exact .refused (.inr ⟨rfl, hnegative⟩) _
    · simp only [bind, Except.bind, if_neg hnegative]
      refine .value ?_ ?_ (inRange_floorRoot hi)
      · simp [Refuses, hnegative]
      · simp [IsUndefined]
  | abs =>
    obtain rfl := List.length_eq_zero_iff.1 (Nat.succ.inj hcount)
    show Outcome _ i (.int <$> Int32.abs (.int i))
    rw [Int32.abs, checked_int hi]
    exact outcome_value (by simp) nofun nofun nofun (inRange_wrap _)
  | superSum => exact absurd rfl hisInteger

/-- What a step leaves is in range again; a step that fails leaves what it was given. -/
theorem Outcome.exists_next {step : IntegerStep} {i : Int} {r : Except Fault Value}
    (h : Outcome step i r) (hi : inRange i = true) :
    ∃ j, next (.int i) r = .int j ∧ inRange j = true := by
  cases h with
  | refused _ f => exact ⟨i, rfl, hi⟩
  | undefined _ f => exact ⟨i, rfl, hi⟩
  | value _ _ hj => exact ⟨_, rfl, hj⟩

theorem Outcome.format_iff {step : IntegerStep} {i : Int} {r : Except Fault Value}
    (h : Outcome step i r) : (∃ f, r = .error (.format f)) ↔ step.Refuses i := by
  cases h with
  | refused h f => exact iff_of_true ⟨f, rfl⟩ h
  | undefined h f =>
    exact iff_of_false (by rintro ⟨_, ⟨⟩⟩) fun hrefuses => not_isUndefined_of_refuses hrefuses h
  | value hrefuses _ _ => exact iff_of_false (by rintro ⟨_, ⟨⟩⟩) hrefuses

theorem Outcome.division_iff {step : IntegerStep} {i : Int} {r : Except Fault Value}
    (h : Outcome step i r) : (∃ f, r = .error (.division f)) ↔ step.IsUndefined := by
  cases h with
  | refused h f => exact iff_of_false (by rintro ⟨_, ⟨⟩⟩) (not_isUndefined_of_refuses h)
  | undefined h f => exact iff_of_true ⟨f, rfl⟩ h
  | value _ hundefined _ => exact iff_of_false (by rintro ⟨_, ⟨⟩⟩) hundefined

end IntegerStep

/-! ## Runs -/

/-- The state of a run that starts in range is always an integer in range. -/
theorem exists_stateAfter {start : Int} (hstart : inRange start = true)
    (steps : List IntegerStep) :
    ∃ i, stateAfter .int (.int start) (steps.map IntegerStep.toStep) = .int i ∧
      inRange i = true := by
  induction steps generalizing start with
  | nil => exact ⟨start, rfl, hstart⟩
  | cons step steps ih =>
    obtain ⟨j, hnext, hj⟩ := (step.outcome hstart).exists_next hstart
    obtain ⟨i, hafter, hi⟩ := ih hj
    refine ⟨i, ?_, hi⟩
    rw [← hafter, ← hnext]
    rfl

/-- A run of operations on 32-bit integers, started in range, has an integer in range for
    its state after any number of steps, and every operation accepts it.  The next step
    has a format fault exactly if it takes an operand out of range or the root of a
    negative state, and a division fault exactly if it takes an operand in range and
    divides by zero or raises to a negative power.  It has no other fault, and a fault
    leaves the state as it was; otherwise its value, in range again, is the state. -/
theorem integer_run_stays_in_range {start : Int} (hstart : inRange start = true)
    (steps : List IntegerStep) (step : IntegerStep) :
    ∃ i r,
      stateAfter .int (.int start) (steps.map IntegerStep.toStep) = .int i ∧
      inRange i = true ∧ checked (.int i) = .ok i ∧
      run .int (.int start) ((steps ++ [step]).map IntegerStep.toStep)
        = run .int (.int start) (steps.map IntegerStep.toStep) ++ [r] ∧
      ((∃ f, r = .error (.format f)) ↔ step.Refuses i) ∧
      ((∃ f, r = .error (.division f)) ↔ step.IsUndefined) ∧
      (∀ e, r = .error e →
        ((∃ f, e = .format f) ∨ ∃ f, e = .division f) ∧
          stateAfter .int (.int start) ((steps ++ [step]).map IntegerStep.toStep) = .int i) ∧
      ∀ v, r = .ok v → ∃ j, v = .int j ∧ inRange j = true ∧
        stateAfter .int (.int start) ((steps ++ [step]).map IntegerStep.toStep) = .int j := by
  obtain ⟨i, hafter, hi⟩ := exists_stateAfter hstart steps
  have houtcome := step.outcome hi
  generalize hr : apply .int step.operation (.int i :: step.toStep.operands) = r at houtcome
  have hrun : run .int (.int start) ((steps ++ [step]).map IntegerStep.toStep)
      = run .int (.int start) (steps.map IntegerStep.toStep) ++ [r] := by
    rw [List.map_append, run_append, hafter, ← hr]
    rfl
  have hnext : stateAfter .int (.int start) ((steps ++ [step]).map IntegerStep.toStep)
      = next (.int i) r := by
    rw [List.map_append, stateAfter_append, hafter, ← hr]
    rfl
  refine ⟨i, r, hafter, hi, checked_int hi, hrun, houtcome.format_iff, houtcome.division_iff,
    ?_, ?_⟩
  · rintro e rfl
    refine ⟨?_, hnext⟩
    cases houtcome with
    | refused _ f => exact .inl ⟨f, rfl⟩
    | undefined _ f => exact .inr ⟨f, rfl⟩
  · rintro v rfl
    cases houtcome with
    | value _ _ hj => exact ⟨_, rfl, hj, hnext⟩

/-- The absolute value of the least integer is itself, and that has no root; an exponent out
    of range is refused although it is negative. -/
theorem integer_run_stays_in_range_least :
    inRange (-2147483648) = true ∧
      run .int (.int (-2147483648))
          [⟨.abs, []⟩, ⟨.squareRoot, []⟩, ⟨.power, [.int (-2147483649)]⟩]
        = [.ok (.int (-2147483648)), .error (.format .negativeRadicand),
          .error (.format (.outsideInt32 (-2147483649)))] ∧
      ∃ i r, stateAfter .int (.int (-2147483648)) [⟨.abs, []⟩, ⟨.squareRoot, []⟩] = .int i ∧
        run .int (.int (-2147483648))
            [⟨.abs, []⟩, ⟨.squareRoot, []⟩, ⟨.power, [.int (-2147483649)]⟩]
          = run .int (.int (-2147483648)) [⟨.abs, []⟩, ⟨.squareRoot, []⟩] ++ [r] ∧
        ∃ f, r = .error (.format f) := by
  refine ⟨rfl, by decide +kernel, ?_⟩
  obtain ⟨i, r, hafter, -, -, hrun, hformat, -⟩ :=
    @integer_run_stays_in_range (-2147483648) rfl
      [⟨.abs, [], by decide, rfl⟩, ⟨.squareRoot, [], by decide, rfl⟩]
      ⟨.power, [-2147483649], by decide, rfl⟩
  exact ⟨i, r, hafter, hrun, hformat.2 (.inl ⟨-2147483649, by simp, rfl⟩)⟩

end InfixArithmetic.IntegerRuns
