/-
  InfixArithmetic.Proofs.SettingsAgreement

  What is known of the operators once the settings have passed `Settings.validate`.

  `validate_eq_ok_iff` has the conditions in full.  Two of them are weaker than their
  messages: the precedences together are compared with the operators as multisets, so an
  operator that is listed twice can belong to both, and the sign is looked for as a part of
  the operators of low precedence, so it can be empty or longer than one character.
  `isPartitioned_iff_of_validate` says that nothing else can go wrong.
-/

import InfixArithmetic.Settings
import Mathlib.Data.List.Count
import Mathlib.Data.List.Infix

namespace InfixArithmetic.Settings

/-! ## The conditions -/

theorem occursIn_iff {part cs : List Char} : occursIn part cs = true ↔ part <:+: cs := by
  induction cs with
  | nil => simp [occursIn]
  | cons c cs ih =>
    rw [occursIn, Bool.or_eq_true, List.isPrefixOf_iff_prefix, ih, List.infix_cons_iff]

section Checks

variable {c : Prop} [Decidable c] {v : Violation} {next : Except Violation Unit}
  {f : PUnit → Except Violation Unit}

/-- A check that has to find something is passed if it does and the others are passed. -/
theorem ite_throw_eq_ok : (if c then next else throw v >>= f) = .ok () ↔ c ∧ next = .ok () := by
  by_cases h : c
  · simp only [h, if_true, true_and]
  · simp only [h, if_false, false_and, iff_false]
    exact nofun

/-- A check that must not find anything is passed if it does not and the others are passed. -/
theorem throw_ite_eq_ok :
    (if c then throw v >>= f else next) = .ok () ↔ ¬ c ∧ next = .ok () := by
  by_cases h : c
  · simp only [h, if_true, not_true, false_and, iff_false]
    exact nofun
  · simp only [h, if_false, not_false_eq_true, true_and]

/-- The last check. -/
theorem pure_ite_eq_ok : (if c then pure () else throw v : Except Violation Unit) = .ok () ↔ c := by
  by_cases h : c
  · simp only [h, if_true, iff_true]
    rfl
  · simp only [h, if_false, iff_false]
    exact nofun

end Checks

/-- The settings agree with each other if they meet all six conditions. -/
theorem validate_eq_ok_iff {s : Settings} : s.validate = .ok () ↔
    (s.evaluator.highPrecedence.toList ++ s.evaluator.lowPrecedence.toList).Perm
        s.evaluator.operators.toList ∧
      s.evaluator.unaryMinus.toList <:+: s.evaluator.lowPrecedence.toList ∧
      ¬ s.evaluator.decimalPoint.toList <:+: s.evaluator.operators.toList ∧
      s.int32.maxValue - s.int32.minValue + 1 = s.int32.modulus ∧
      s.format.positionalMin.lt s.format.positionalMax = true ∧
      1 ≤ s.format.exponentDigits := by
  simp only [validate, ite_throw_eq_ok, throw_ite_eq_ok, pure_ite_eq_ok, List.isPerm_iff,
    occursIn_iff]

/-! ## The operators -/

/-- The operators are divided between the two precedences, and the sign is one of those of
    low precedence. -/
structure IsPartitioned (e : EvaluatorSettings) : Prop where
  operators : ∀ c, c ∈ e.operators.toList ↔ c ∈ e.highPrecedence.toList ∨ c ∈ e.lowPrecedence.toList
  disjoint : ∀ c ∈ e.highPrecedence.toList, c ∉ e.lowPrecedence.toList
  sign : ∃ c ∈ e.lowPrecedence.toList, e.unaryMinus = String.singleton c

/-- All occurrences of an operator are in the same precedence. -/
def KeepsTogether (e : EvaluatorSettings) (c : Char) : Prop :=
  e.operators.toList.count c = e.highPrecedence.toList.count c ∨
    e.operators.toList.count c = e.lowPrecedence.toList.count c

section Agreement

variable {e : EvaluatorSettings}
  (hperm : (e.highPrecedence.toList ++ e.lowPrecedence.toList).Perm e.operators.toList)

include hperm

theorem count_operators (c : Char) : e.operators.toList.count c
    = e.highPrecedence.toList.count c + e.lowPrecedence.toList.count c := by
  rw [← hperm.count_eq, List.count_append]

theorem mem_operators_iff (c : Char) :
    c ∈ e.operators.toList ↔ c ∈ e.highPrecedence.toList ∨ c ∈ e.lowPrecedence.toList := by
  rw [← hperm.mem_iff, List.mem_append]

/-- No operator has both precedences if none has its occurrences divided between them. -/
theorem disjoint_iff_keepsTogether :
    (∀ c ∈ e.highPrecedence.toList, c ∉ e.lowPrecedence.toList) ↔ ∀ c, KeepsTogether e c := by
  refine forall_congr' fun c => ?_
  rw [KeepsTogether, count_operators hperm, ← List.count_pos_iff, ← List.count_pos_iff]
  omega

end Agreement

/-- A part of the operators of low precedence is one of them if it is one character. -/
theorem sign_iff_length {e : EvaluatorSettings}
    (h : e.unaryMinus.toList <:+: e.lowPrecedence.toList) :
    (∃ c ∈ e.lowPrecedence.toList, e.unaryMinus = String.singleton c) ↔
      e.unaryMinus.toList.length = 1 := by
  constructor
  · rintro ⟨c, -, hc⟩
    rw [hc, String.toList_singleton, List.length_singleton]
  · intro hlength
    obtain ⟨c, hc⟩ := List.length_eq_one_iff.1 hlength
    refine ⟨c, h.subset (by rw [hc]; exact List.mem_singleton.2 rfl), ?_⟩
    rw [← String.toList_inj, hc, String.toList_singleton]

/-- Settings that agree with each other have no operator without a precedence and none with
    a precedence that is no operator, and their sign is a part of the operators of low
    precedence.  The operators are divided between the precedences, and the sign is one
    operator of low precedence, exactly if no operator is listed several times and has one
    precedence at one place and one at another, and the sign is one character. -/
theorem isPartitioned_iff_of_validate {s : Settings} (h : s.validate = .ok ()) :
    (∀ c, c ∈ s.evaluator.operators.toList ↔
      c ∈ s.evaluator.highPrecedence.toList ∨ c ∈ s.evaluator.lowPrecedence.toList) ∧
    s.evaluator.unaryMinus.toList <:+: s.evaluator.lowPrecedence.toList ∧
    (IsPartitioned s.evaluator ↔
      (∀ c, KeepsTogether s.evaluator c) ∧ s.evaluator.unaryMinus.toList.length = 1) := by
  obtain ⟨hperm, hsign, -⟩ := validate_eq_ok_iff.1 h
  refine ⟨mem_operators_iff hperm, hsign, ?_⟩
  rw [← disjoint_iff_keepsTogether hperm, ← sign_iff_length hsign]
  constructor
  · exact fun hpartitioned => ⟨hpartitioned.disjoint, hpartitioned.sign⟩
  · exact fun ⟨hdisjoint, hone⟩ => ⟨mem_operators_iff hperm, hdisjoint, hone⟩

/-- The usual settings with other operators. -/
def withOperators (operators high low sign : String) : Settings :=
  { standard with
    evaluator := { standard.evaluator with
      operators := operators
      highPrecedence := high
      lowPrecedence := low
      unaryMinus := sign } }

/-- An operator that is listed twice with one precedence does no harm. -/
theorem isPartitioned_iff_of_validate_repeated :
    (withOperators "*+*-/" "*/*" "+-" "-").validate = .ok () ∧
      IsPartitioned (withOperators "*+*-/" "*/*" "+-" "-").evaluator := by
  have hvalid : (withOperators "*+*-/" "*/*" "+-" "-").validate = .ok () := rfl
  have hdisjoint : ∀ c ∈ "*/*".toList, c ∉ "+-".toList := by
    intro c hc
    have hcases : c = '*' ∨ c = '/' ∨ c = '*' := by simpa using hc
    rcases hcases with rfl | rfl | rfl <;> decide
  have htogether := (disjoint_iff_keepsTogether (validate_eq_ok_iff.1 hvalid).1).1 hdisjoint
  exact ⟨hvalid, (isPartitioned_iff_of_validate hvalid).2.2.2 ⟨htogether, rfl⟩⟩

/-- A minus that is listed twice can have both precedences, and no character at all or both
    low operators can be the sign. -/
theorem validate_ok_not_isPartitioned :
    ((withOperators "+-*/-" "*/-" "+-" "-").validate = .ok () ∧
      ¬ IsPartitioned (withOperators "+-*/-" "*/-" "+-" "-").evaluator) ∧
    ((withOperators "+-*/" "*/" "+-" "").validate = .ok () ∧
      ¬ IsPartitioned (withOperators "+-*/" "*/" "+-" "").evaluator) ∧
    (withOperators "+-*/" "*/" "+-" "+-").validate = .ok () ∧
      ¬ IsPartitioned (withOperators "+-*/" "*/" "+-" "+-").evaluator := by
  have hlength {s : Settings} (hvalid : s.validate = .ok ()) (h : IsPartitioned s.evaluator) :
      s.evaluator.unaryMinus.toList.length = 1 :=
    (sign_iff_length (validate_eq_ok_iff.1 hvalid).2.1).1 h.sign
  refine ⟨⟨rfl, fun h => ?_⟩, ⟨rfl, fun h => ?_⟩, rfl, fun h => ?_⟩
  · exact h.disjoint '-' (by decide) (by decide)
  · exact absurd (hlength rfl h) (by decide)
  · exact absurd (hlength rfl h) (by decide)

end InfixArithmetic.Settings
