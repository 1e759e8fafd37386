/-
  InfixArithmetic.Proofs.ReductionOrder

  Which fault is reported for numbers with any texts between them.

  The first pass leaves a text that it does not know where it is and goes on behind it, so
  every division sign is met, and at its right there is the number that was there at the
  start: only numbers at the left are replaced by results.  The second pass meets the
  unknown texts in their order.  Hence a zero divisor anywhere comes before an unknown
  text anywhere (`reduceChain_texts_outcome`).  The four cases of `Outcome` exclude each other,
  so each of them is equivalent to its own result.
-/

import InfixArithmetic.Proofs.ReductionFaults

namespace InfixArithmetic

namespace ReductionOrder

open Expression (reduce reduceChain)
open Precedence (Arithmetic reduce_double)
open ReductionFaults (DividesByZero reduceChain_texts_outcome)

variable (xs : List Binary64) (ss : List String)

/-! ## Conditions -/

/-- There are no numbers, or not exactly one more of them than operators. -/
def IsUnbalanced : Prop := xs = [] ∨ xs.length ≠ ss.length + 1

/-- The number after a division sign is a zero of either sign. -/
def HasZeroDivisor : Prop :=
  ∃ k, ss[k]? = some "/" ∧ (xs[k + 1]? = some .zero ∨ xs[k + 1]? = some (.neg .zero))

/-- The texts that are operators. -/
def known : List String := ["+", "-", "*", "/"]

theorem isOperator_iff (s : String) : Operator.isOperator s = true ↔ s ∈ known := by
  constructor
  · intro h
    obtain ⟨o, ho⟩ := Option.isSome_iff_exists.1 h
    rw [← Operator.text_of_ofText? ho]
    cases o <;> decide
  · intro h
    have hall : ∀ t ∈ known, Operator.isOperator t = true := by decide
    exact hall s h

theorem isZero_iff (x : Binary64) : x.isZero = true ↔ x = .zero ∨ x = .neg .zero := by
  constructor
  · intro h
    cases x with
    | nan | infinite s => cases h
    | finite s n =>
      obtain rfl : n = 0 := Fin.ext (eq_of_beq h)
      cases s with
      | false => exact .inl rfl
      | true => exact .inr rfl
  · rintro (rfl | rfl) <;> rfl

variable {xs ss}

/-- The links of a chain at their places in the two lists. -/
theorem dividesByZero_iff (c : Chain String Binary64) :
    DividesByZero .binary64 c.links ↔ HasZeroDivisor c.numbers c.operators := by
  have hlink (k : Nat) (y : Binary64) : c.links[k]? = some ("/", y)
      ↔ c.operators[k]? = some "/" ∧ c.numbers[k + 1]? = some y := by
    rw [Chain.operators, Chain.numbers, List.getElem?_cons_succ, List.getElem?_map,
      List.getElem?_map]
    cases c.links[k]? with
    | none => simp
    | some link => simp [Prod.ext_iff]
  constructor
  · rintro ⟨y, hy, hzero⟩
    obtain ⟨k, hk⟩ := List.mem_iff_getElem?.1 hy
    obtain ⟨hslash, hnumber⟩ := (hlink k y).1 hk
    refine ⟨k, hslash, ?_⟩
    rw [hnumber, Option.some.injEq, Option.some.injEq]
    exact (isZero_iff y).1 hzero
  · rintro ⟨k, hslash, hzero | hzero⟩
    · exact ⟨_, List.mem_of_getElem? ((hlink k _).2 ⟨hslash, hzero⟩), rfl⟩
    · exact ⟨_, List.mem_of_getElem? ((hlink k _).2 ⟨hslash, hzero⟩), rfl⟩

/-! ## Outcomes -/

/-- What the numbers and the texts between them come to. -/
inductive Outcome (xs : List Binary64) (ss : List String) : Except Fault Binary64 → Prop
  | unbalanced (h : IsUnbalanced xs ss) : Outcome xs ss (.error (.format .unbalanced))
  | zeroDivisor (hbalanced : ¬ IsUnbalanced xs ss) (h : HasZeroDivisor xs ss) :
    Outcome xs ss (.error (.division .zeroDivisor))
  | unknownOperator (hbalanced : ¬ IsUnbalanced xs ss) (hzero : ¬ HasZeroDivisor xs ss)
    {s : String} (h : ss.find? (· ∉ known) = some s) :
    Outcome xs ss (.error (.format (.unknownOperator s)))
  | value (hbalanced : ¬ IsUnbalanced xs ss) (hzero : ¬ HasZeroDivisor xs ss)
    (h : ∀ s ∈ ss, s ∈ known) (x : Binary64) : Outcome xs ss (.ok x)

theorem find?_not_isOperator (ss : List String) :
    ss.find? (!Operator.isOperator ·) = ss.find? (· ∉ known) := by
  congr 1
  funext s
  rw [Bool.eq_iff_iff, Bool.not_eq_true', decide_eq_true_iff, ← isOperator_iff,
    Bool.not_eq_true]

theorem of_find?_unknown {s : String} (h : ss.find? (· ∉ known) = some s) :
    s ∈ ss ∧ s ∉ known :=
  ⟨List.mem_of_find?_eq_some h, by simpa using List.find?_some h⟩

theorem reduce_outcome (xs : List Binary64) (ss : List String) :
    Outcome xs ss (reduce (xs.map .double) ss) := by
  cases hchain : Chain.ofLists? xs ss with
  | none =>
    have hunbalanced := Chain.ofLists?_eq_none_iff.1 hchain
    have hdouble : Chain.ofLists? (xs.map Number.double) ss = none := by
      rw [Chain.ofLists?_eq_none_iff]
      simpa using hunbalanced
    rw [reduce, hdouble]
    exact .unbalanced hunbalanced
  | some c =>
    have hbalanced : ¬ IsUnbalanced xs ss := by
      rw [IsUnbalanced, ← Chain.ofLists?_eq_none_iff, hchain]
      exact Option.some_ne_none c
    obtain ⟨rfl, rfl⟩ := Chain.ofLists?_eq_some_iff.1 hchain
    have houtcome := reduceChain_texts_outcome .binary64 c
    rw [dividesByZero_iff, find?_not_isOperator, ← reduce_double] at houtcome
    rcases houtcome with ⟨hzero, herror⟩ | ⟨hzero, hrest⟩
    · rw [herror]
      exact .zeroDivisor hbalanced hzero
    · cases hfind : c.operators.find? (· ∉ known) with
      | some s =>
        rw [hfind] at hrest
        rw [hrest]
        exact .unknownOperator hbalanced hzero hfind
      | none =>
        rw [hfind] at hrest
        obtain ⟨x, hx⟩ := hrest
        rw [hx]
        refine .value hbalanced hzero (fun s hs => ?_) x
        simpa using List.find?_eq_none.1 hfind s hs

namespace Outcome

variable {r : Except Fault Binary64} (h : Outcome xs ss r)

include h

theorem eq_unbalanced_iff : r = .error (.format .unbalanced) ↔ IsUnbalanced xs ss := by
  cases h with
  | unbalanced h => exact iff_of_true rfl h
  | zeroDivisor hbalanced _ | unknownOperator hbalanced _ _ | value hbalanced _ _ _ =>
    exact iff_of_false nofun hbalanced

theorem eq_zeroDivisor_iff : r = .error (.division .zeroDivisor) ↔
    ¬ IsUnbalanced xs ss ∧ HasZeroDivisor xs ss := by
  cases h with
  | unbalanced h => exact iff_of_false nofun fun hnot => hnot.1 h
  | zeroDivisor hbalanced h => exact iff_of_true rfl ⟨hbalanced, h⟩
  | unknownOperator _ hzero _ | value _ hzero _ _ =>
    exact iff_of_false nofun fun hnot => hzero hnot.2

theorem eq_unknownOperator_iff (s : String) : r = .error (.format (.unknownOperator s)) ↔
    ¬ IsUnbalanced xs ss ∧ ¬ HasZeroDivisor xs ss ∧ ss.find? (· ∉ known) = some s := by
  cases h with
  | unbalanced h => exact iff_of_false nofun fun hnot => hnot.1 h
  | zeroDivisor _ h => exact iff_of_false nofun fun hnot => hnot.2.1 h
  | @unknownOperator hbalanced hzero t h =>
    rw [h, Option.some.injEq, and_iff_right hbalanced, and_iff_right hzero]
    constructor
    · rintro ⟨⟩
      rfl
    · rintro rfl
      rfl
  | value _ _ h _ =>
    refine iff_of_false nofun fun hnot => ?_
    obtain ⟨hs, hunknown⟩ := of_find?_unknown hnot.2.2
    exact hunknown (h s hs)

theorem exists_value_iff : (∃ x, r = .ok x) ↔
    ¬ IsUnbalanced xs ss ∧ ¬ HasZeroDivisor xs ss ∧ ∀ s ∈ ss, s ∈ known := by
  cases h with
  | unbalanced h => exact iff_of_false nofun fun hnot => hnot.1 h
  | zeroDivisor _ h => exact iff_of_false nofun fun hnot => hnot.2.1 h
  | unknownOperator _ _ h =>
    refine iff_of_false nofun fun hnot => ?_
    obtain ⟨hs, hunknown⟩ := of_find?_unknown h
    exact hunknown (hnot.2.2 _ hs)
  | value hbalanced hzero h x => exact iff_of_true ⟨x, rfl⟩ ⟨hbalanced, hzero, h⟩

end Outcome

/-- Numbers with any texts between them have a value if and only if there is one number more
    than there are texts, no division sign is followed by a zero, and every text is an
    operator.  Of several faults the one named first in this list is reported, wherever they
    stand, and of several unknown operators the first. -/
theorem reduce_faults_in_order (xs : List Binary64) (ss : List String) :
    (reduce (xs.map .double) ss = .error (.format .unbalanced) ↔ IsUnbalanced xs ss) ∧
    (reduce (xs.map .double) ss = .error (.division .zeroDivisor) ↔
      ¬ IsUnbalanced xs ss ∧ HasZeroDivisor xs ss) ∧
    (∀ s, reduce (xs.map .double) ss = .error (.format (.unknownOperator s)) ↔
      ¬ IsUnbalanced xs ss ∧ ¬ HasZeroDivisor xs ss ∧ ss.find? (· ∉ known) = some s) ∧
    ((∃ x, reduce (xs.map .double) ss = .ok x) ↔
      ¬ IsUnbalanced xs ss ∧ ¬ HasZeroDivisor xs ss ∧ ∀ s ∈ ss, s ∈ known) ∧
    FormatFault.unbalanced.message = "Invalid expression format" ∧
    ∀ s, (FormatFault.unknownOperator s).message = "Unknown operator: " ++ Text.quoted s :=
  have houtcome := reduce_outcome xs ss
  ⟨houtcome.eq_unbalanced_iff, houtcome.eq_zeroDivisor_iff, houtcome.eq_unknownOperator_iff,
    houtcome.exists_value_iff, rfl, fun _ => rfl⟩

/-- The zero divisor is found first, though it stands behind texts that are no operators. -/
example : reduce [.double .one, .double .one, .double .one, .double .zero] ["", "+-", "/"]
    = .error (.division .zeroDivisor) := by decide +kernel

end ReductionOrder

end InfixArithmetic
