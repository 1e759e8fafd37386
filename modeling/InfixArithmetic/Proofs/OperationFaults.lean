/-
  InfixArithmetic.Proofs.OperationFaults

  The faults of an operation on texts.

  An operation can refuse its operands or what they would come to, and both is reported.
  The only fault that is not is an integer that is too large for a floating-point
  operation: an operation on floating-point values has none, as it has no integer to round
  (`reported_double`), nor has one on 32-bit integers or on texts, whose operands are
  checked or read first.  Texts are converted to the type of the operation before, so an
  operation on texts never has that fault (`reported_applyTexts`).
-/

import InfixArithmetic.Operation.Request
import InfixArithmetic.Proofs.BatchRows
import InfixArithmetic.Proofs.FallibleSteps

namespace InfixArithmetic.OperationFaults

open BatchRows (isReported)
open FallibleSteps (FaultsIn exists_step_of_mapM faultsIn_error faultsIn_mapM faultsIn_ok
  map_eq_ok)
open Operation (convert applyDouble applyInt32 applyText)

/-- All faults of a result are reported. -/
abbrev Reported {α : Type} (r : Except Fault α) : Prop := FaultsIn (isReported · = true) r

theorem reported_format {α : Type} (f : FormatFault) :
    Reported (.error (.format f) : Except Fault α) :=
  faultsIn_error rfl

theorem reported_division {α : Type} (f : DivisionFault) :
    Reported (.error (.division f) : Except Fault α) :=
  faultsIn_error rfl

/-! ## Floating-point values -/

theorem reported_rounded (x : Binary64) : Reported (DoubleOperation.rounded (.double x)) :=
  faultsIn_ok x

/-- A function of two floating-point values that has all its faults before it rounds. -/
theorem reported_rounded_both (x y : Binary64) (f : Binary64 → Binary64 → Binary64) :
    Reported (do
      return f (← DoubleOperation.rounded (.double x)) (← DoubleOperation.rounded (.double y))) :=
  (reported_rounded x).bind fun a _ => (reported_rounded y).bind fun b _ => faultsIn_ok (f a b)

theorem reported_superSum (x y : Binary64) :
    Reported (DoubleOperation.superSum (.double x) (.double y)) := by
  rw [DoubleOperation.superSum]
  cases (Number.double x).truncate? with
  | none => exact reported_format _
  | some whole =>
    dsimp only
    split
    · refine (reported_rounded y).bind fun b _ => ?_
      split
      · exact faultsIn_ok _
      · exact reported_format _
    · exact reported_format _

/-- The floating-point operations with two operands. -/
def binaryOperations : List (Number → Number → Except Fault Binary64) :=
  [DoubleOperation.add, DoubleOperation.subtract, DoubleOperation.multiply,
    DoubleOperation.divide, DoubleOperation.power, DoubleOperation.superSum]

/-- An operation on two floating-point values has no integer to round. -/
theorem reported_double {f : Number → Number → Except Fault Binary64}
    (hf : f ∈ binaryOperations) (x y : Binary64) : Reported (f (.double x) (.double y)) := by
  simp only [binaryOperations, List.mem_cons, List.not_mem_nil, or_false] at hf
  rcases hf with rfl | rfl | rfl | rfl | rfl | rfl
  · exact reported_rounded_both x y Binary64.add
  · exact reported_rounded_both x y Binary64.sub
  · exact reported_rounded_both x y Binary64.mul
  · rw [DoubleOperation.divide]
    split
    · exact reported_division _
    · exact reported_rounded_both x y Binary64.div
  · rw [DoubleOperation.power]
    split
    · exact reported_division _
    · exact reported_rounded_both x y Binary64.pow
  · exact reported_superSum x y

theorem reported_squareRoot (x : Binary64) :
    Reported (DoubleOperation.squareRoot (.double x)) := by
  rw [DoubleOperation.squareRoot]
  split
  · exact reported_format _
  · exact (reported_rounded x).bind fun a _ => faultsIn_ok a.sqrt

theorem reported_applyDouble (o : Operation) {vs : List Value}
    (h : ∀ v ∈ vs, ∃ x, v = .double x) : Reported (applyDouble o vs) := by
  have hbinary {f : Number → Number → Except Fault Binary64}
      (hf : f ∈ binaryOperations) {a b : Value} (h : ∀ v ∈ [a, b], ∃ x, v = .double x) :
      Reported (Operation.onNumbers f a b) := by
    obtain ⟨x, rfl⟩ := h a (by simp)
    obtain ⟨y, rfl⟩ := h b (by simp)
    exact (reported_double hf x y).bind fun z _ => faultsIn_ok (Value.double z)
  cases o with
  | add | subtract | multiply | divide | power | superSum =>
    match vs, h with
    | [], _ | [_], _ | _ :: _ :: _ :: _, _ => exact reported_format _
    | [a, b], h => exact hbinary (by simp [binaryOperations]) h
  | squareRoot =>
    match vs, h with
    | [], _ | _ :: _ :: _, _ => exact reported_format _
    | [a], h =>
      obtain ⟨x, rfl⟩ := h a (by simp)
      exact (reported_squareRoot x).bind fun z _ => faultsIn_ok (Value.double z)
  | abs =>
    match vs, h with
    | [], _ | _ :: _ :: _, _ => exact reported_format _
    | [a], h =>
      obtain ⟨x, rfl⟩ := h a (by simp)
      exact (reported_rounded x).bind fun z _ => faultsIn_ok (Value.double z.abs)

/-! ## 32-bit integers -/

theorem reported_checked (v : Value) : Reported (Int32.checked v) := by
  cases v with
  | int i =>
    rw [Int32.checked]
    split
    · exact faultsIn_ok i
    · exact reported_format _
  | none | bool _ | double _ | text _ | list _ | record _ => exact reported_format _

theorem reported_applyInt32 (o : Operation) (vs : List Value) : Reported (applyInt32 o vs) := by
  cases o with
  | add | subtract | multiply =>
    match vs with
    | [] | [_] | _ :: _ :: _ :: _ => exact reported_format _
    | [a, b] =>
      refine FaultsIn.map ?_ _
      exact (reported_checked a).bind fun _ _ => (reported_checked b).bind fun _ _ => faultsIn_ok _
  | divide | power =>
    match vs with
    | [] | [_] | _ :: _ :: _ :: _ => exact reported_format _
    | [a, b] =>
      refine FaultsIn.map ?_ _
      refine (reported_checked a).bind fun _ _ => (reported_checked b).bind fun _ _ => ?_
      split
      · exact reported_division _
      · exact faultsIn_ok _
  | superSum =>
    match vs with
    | [] | [_] | _ :: _ :: _ :: _ => exact reported_format _
    | [a, b] =>
      refine FaultsIn.map ?_ _
      refine (reported_checked a).bind fun _ _ => (reported_checked b).bind fun _ _ => ?_
      split
      · exact faultsIn_ok _
      · exact reported_format _
  | squareRoot =>
    match vs with
    | [] | _ :: _ :: _ => exact reported_format _
    | [a] =>
      refine FaultsIn.map ?_ _
      refine (reported_checked a).bind fun _ _ => ?_
      split
      · exact reported_format _
      · exact faultsIn_ok _
  | abs =>
    match vs with
    | [] | _ :: _ :: _ => exact reported_format _
    | [a] =>
      refine FaultsIn.map ?_ _
      exact (reported_checked a).bind fun _ _ => faultsIn_ok _

/-! ## Texts -/

theorem reported_parse (v : Value) : Reported (NumberText.parse v) := by
  cases v with
  | text s =>
    rw [NumberText.parse]
    cases Numeral.parse? s with
    | some x => exact faultsIn_ok x
    | none => exact reported_format _
  | none | bool _ | double _ | int _ | list _ | record _ => exact reported_format _

/-- The numbers in two texts are floating-point values. -/
theorem reported_both {f : Number → Number → Except Fault Binary64}
    (hf : f ∈ binaryOperations) (a b : Value) : Reported (NumberText.both f a b) :=
  (reported_parse a).bind fun x _ => (reported_parse b).bind fun y _ => reported_double hf x y

theorem reported_applyText (o : Operation) (vs : List Value) : Reported (applyText o vs) := by
  cases o with
  | add | subtract | multiply | divide | power =>
    match vs with
    | [] | [_] | _ :: _ :: _ :: _ => exact reported_format _
    | [a, b] => exact ((reported_both (by simp [binaryOperations]) a b).map _).map _
  | superSum =>
    match vs with
    | [] | [_] | _ :: _ :: _ :: _ => exact reported_format _
    | [a, b] => exact (reported_both (by simp [binaryOperations]) a b).map _
  | squareRoot =>
    match vs with
    | [] | _ :: _ :: _ => exact reported_format _
    | [a] =>
      refine FaultsIn.map ?_ _
      exact (reported_parse a).bind fun x _ => (reported_squareRoot x).bind fun _ _ => faultsIn_ok _
  | abs =>
    match vs with
    | [] | _ :: _ :: _ => exact reported_format _
    | [a] =>
      refine FaultsIn.map ?_ _
      exact (reported_parse a).bind fun x _ => faultsIn_ok _

theorem reported_convert (t : OperandType) (s : String) : Reported (convert t s) := by
  cases t with
  | float => exact (reported_parse _).map _
  | int =>
    rw [convert]
    split
    · exact faultsIn_ok _
    · exact reported_format _
  | string => exact faultsIn_ok _

/-- Texts are converted to floating-point values for a floating-point operation. -/
theorem double_of_mapM_convert {operands : List String} {vs : List Value}
    (h : operands.mapM (convert .float) = .ok vs) : ∀ v ∈ vs, ∃ x, v = .double x := by
  intro v hv
  obtain ⟨s, -, hs⟩ := exists_step_of_mapM h hv
  obtain ⟨x, -, rfl⟩ := map_eq_ok hs
  exact ⟨x, rfl⟩

/-- Every fault of an operation on texts is reported. -/
theorem reported_applyTexts (o : Operation) (t : OperandType) (operands : List String) :
    Reported (o.applyTexts t operands) := by
  rw [Operation.applyTexts]
  split
  · refine (faultsIn_mapM (reported_convert t) operands).bind fun vs hvs => ?_
    cases t with
    | float => exact reported_applyDouble o (double_of_mapM_convert hvs)
    | int => exact reported_applyInt32 o vs
    | string => exact reported_applyText o vs
  · exact reported_format _

end InfixArithmetic.OperationFaults
