/-
  InfixArithmetic.Proofs.ReductionFaults

  When the two passes of `Expression.reduceChain` fail, and on which divisors.

  The number on the right of an operator of high precedence is never a result: the first
  pass replaces the number on the left of what follows (`multiplyOut_congr`).  So the
  divisors are numbers of the chain itself, and the first pass fails exactly if one of
  them is zero, whatever is computed on the way (`multiplyOut_outcome`).  It leaves the
  operators that are not of high precedence in their order, and the second pass fails at
  the first of them that is not of low precedence either (`addUp_outcome`).
-/

import InfixArithmetic.Proofs.Precedence

namespace InfixArithmetic.ReductionFaults

open Expression (multiplyOut addUp reduceChain)
open Precedence (Arithmetic orZeroDivisor)

variable {ν : Type}

/-! ## Operators -/

/-- True of the texts of multiplication and division. -/
def isHighText (s : String) : Bool := ((Operator.ofText? s).filter Operator.isHigh).isSome

/-- True of the texts of addition and subtraction. -/
def isLowText (s : String) : Bool := ((Operator.ofText? s).filter (!·.isHigh)).isSome

/-- Every operator belongs to one of the two passes. -/
theorem isHighText_or_isLowText (s : String) :
    (isHighText s || isLowText s) = Operator.isOperator s := by
  rw [isHighText, isLowText, Operator.isOperator]
  cases Operator.ofText? s with
  | none => rfl
  | some o => cases h : o.isHigh <;> simp [Option.filter, h]

/-- The operators of a chain, in its order, without those of the first pass and of the
    second one. -/
theorem find?_filter_isLowText (ss : List String) :
    (ss.filter (!isHighText ·)).find? (!isLowText ·) = ss.find? (!Operator.isOperator ·) := by
  rw [List.find?_filter]
  congr 1
  funext s
  rw [← isHighText_or_isLowText, Bool.not_or, Bool.decide_and, Bool.decide_eq_true,
    Bool.decide_eq_true]

/-- Only a division by zero has no result. -/
theorem result?_eq_none_iff (A : Arithmetic ν) (o : Operator) (x y : ν) :
    A.result? o x y = none ↔ o = .divide ∧ A.isZero y = true := by
  cases o <;> simp [Arithmetic.result?]

/-! ## Zero divisors -/

/-- A division sign of the links is followed by a zero. -/
def DividesByZero (A : Arithmetic ν) (links : List (String × ν)) : Prop :=
  ∃ y, (Operator.divide.text, y) ∈ links ∧ A.isZero y = true

theorem not_dividesByZero_nil (A : Arithmetic ν) : ¬ DividesByZero A [] := by
  simp [DividesByZero]

theorem dividesByZero_cons (A : Arithmetic ν) (s : String) (y : ν)
    (links : List (String × ν)) :
    DividesByZero A ((s, y) :: links)
      ↔ (Operator.ofText? s = some .divide ∧ A.isZero y = true) ∨ DividesByZero A links := by
  constructor
  · rintro ⟨z, hz, hzero⟩
    rcases List.mem_cons.1 hz with hz | hz
    · obtain ⟨rfl, rfl⟩ := Prod.mk.inj hz
      exact .inl ⟨Operator.ofText?_text _, hzero⟩
    · exact .inr ⟨z, hz, hzero⟩
  · rintro (⟨hs, hzero⟩ | ⟨z, hz, hzero⟩)
    · rw [← Operator.text_of_ofText? hs]
      exact ⟨y, List.mem_cons_self, hzero⟩
    · exact ⟨z, List.mem_cons_of_mem _ hz, hzero⟩

theorem apply_bind {A : Arithmetic ν} {o : Operator} {x y z : ν}
    (hz : A.result? o x y = some z) {μ : Type} (f : ν → Except Fault μ) :
    (A.apply o x y >>= f) = f z := by
  rw [Arithmetic.apply, hz]
  rfl

/-- The first pass fails exactly at a zero divisor of the links; otherwise it leaves
    the operators that are not its own. -/
theorem multiplyOut_outcome (A : Arithmetic ν) (x : ν) (links : List (String × ν)) :
    (DividesByZero A links ∧ multiplyOut A.apply x links = .error (.division .zeroDivisor)) ∨
      (¬ DividesByZero A links ∧ ∃ c, multiplyOut A.apply x links = .ok c ∧
        c.operators = (links.map Prod.fst).filter (!isHighText ·)) := by
  induction links generalizing x with
  | nil => exact .inr ⟨not_dividesByZero_nil A, ⟨x, []⟩, rfl, rfl⟩
  | cons link links ih =>
    obtain ⟨s, y⟩ := link
    rw [dividesByZero_cons, multiplyOut]
    cases hs : (Operator.ofText? s).filter Operator.isHigh with
    | none =>
      -- A division would be of high precedence.
      have hnot : Operator.ofText? s ≠ some .divide := by
        intro hdivide
        rw [hdivide] at hs
        exact absurd hs (by decide)
      have hkept : isHighText s = false := by rw [isHighText, hs, Option.isSome_none]
      rcases ih y with ⟨hzero, herror⟩ | ⟨hzero, c, hc, hoperators⟩
      · exact .inl ⟨.inr hzero, by rw [herror]; rfl⟩
      · refine .inr ⟨?_, c.cons x s, by rw [hc]; rfl, ?_⟩
        · rintro (⟨hdivide, -⟩ | h)
          · exact hnot hdivide
          · exact hzero h
        · simpa [Chain.cons, Chain.operators, hkept] using hoperators
    | some o =>
      have ho : Operator.ofText? s = some o := (Option.filter_eq_some_iff.1 hs).1
      have hused : isHighText s = true := by rw [isHighText, hs, Option.isSome_some]
      cases hz : A.result? o x y with
      | none =>
        obtain ⟨rfl, hy⟩ := (result?_eq_none_iff A o x y).1 hz
        refine .inl ⟨.inl ⟨ho, hy⟩, ?_⟩
        simp only [Arithmetic.apply, hz]
        rfl
      | some z =>
        have hnot : ¬ (Operator.ofText? s = some .divide ∧ A.isZero y = true) := by
          rw [ho, Option.some.injEq, ← result?_eq_none_iff A o x y, hz]
          simp
        -- The result takes the place of `x`, and the first link is gone.
        have hstep := apply_bind hz (multiplyOut A.apply · links)
        rcases ih z with ⟨hzero, herror⟩ | ⟨hzero, c, hc, hoperators⟩
        · exact .inl ⟨.inr hzero, hstep.trans herror⟩
        · refine .inr ⟨not_or.2 ⟨hnot, hzero⟩, c, hstep.trans hc, ?_⟩
          simpa [hused] using hoperators

/-- The second pass fails exactly at the first operator that it does not know. -/
theorem addUp_outcome (A : Arithmetic ν) (x : ν) (links : List (String × ν)) :
    match (links.map Prod.fst).find? (!isLowText ·) with
    | some s => addUp A.apply x links = .error (.format (.unknownOperator s))
    | none => ∃ z, addUp A.apply x links = .ok z := by
  induction links generalizing x with
  | nil => exact ⟨x, rfl⟩
  | cons link links ih =>
    obtain ⟨s, y⟩ := link
    rw [List.map_cons, List.find?_cons, addUp]
    cases hs : (Operator.ofText? s).filter (!·.isHigh) with
    | none =>
      have hunknown : isLowText s = false := by rw [isLowText, hs, Option.isSome_none]
      simp only [hunknown, Bool.not_false]
    | some o =>
      have hknown : isLowText s = true := by rw [isLowText, hs, Option.isSome_some]
      have hlow : o.isHigh = false := by simpa using (Option.filter_eq_some_iff.1 hs).2
      obtain ⟨z, hz⟩ := A.result?_low ⟨o, Operator.isHigh_eq_false_iff.1 hlow⟩ x y
      have hstep := apply_bind hz (addUp A.apply · links)
      simp only [hknown, Bool.not_true, hstep]
      exact ih z

/-! ## Both passes -/

/-- Numbers with any texts between them have no value exactly if a division sign is followed
    by a zero, or else if one of the texts is no operator; the first such text is then
    reported. -/
theorem reduceChain_texts_outcome (A : Arithmetic ν) (c : Chain String ν) :
    (DividesByZero A c.links ∧ reduceChain A.apply c = .error (.division .zeroDivisor)) ∨
      (¬ DividesByZero A c.links ∧
        match c.operators.find? (!Operator.isOperator ·) with
        | some s => reduceChain A.apply c = .error (.format (.unknownOperator s))
        | none => ∃ z, reduceChain A.apply c = .ok z) := by
  rcases multiplyOut_outcome A c.first c.links with
    ⟨hzero, herror⟩ | ⟨hzero, sums, hsums, hoperators⟩
  · refine .inl ⟨hzero, ?_⟩
    rw [reduceChain, herror]
    rfl
  -- The second pass gets to see what the first one has left.
  · refine .inr ⟨hzero, ?_⟩
    have hsecond : reduceChain A.apply c = addUp A.apply sums.first sums.links := by
      rw [reduceChain, hsums]
      rfl
    have hfind : (sums.links.map Prod.fst).find? (!isLowText ·)
        = c.operators.find? (!Operator.isOperator ·) := by
      rw [← Chain.operators, hoperators, find?_filter_isLowText, Chain.operators]
    rw [hsecond, ← hfind]
    exact addUp_outcome A sums.first sums.links

/-- Numbers with known operators between them have no value exactly if a division sign
    is followed by a zero, and then for this reason only. -/
theorem reduceChain_outcome (A : Arithmetic ν) (c : Chain Operator ν) :
    ((∃ y, (.divide, y) ∈ c.links ∧ A.isZero y = true) ∧
        reduceChain A.apply (c.map Operator.text id) = .error (.division .zeroDivisor)) ∨
      (¬ (∃ y, (.divide, y) ∈ c.links ∧ A.isZero y = true) ∧
        ∃ z, reduceChain A.apply (c.map Operator.text id) = .ok z) := by
  have hdivides : DividesByZero A (c.map Operator.text id).links
      ↔ ∃ y, (.divide, y) ∈ c.links ∧ A.isZero y = true := by
    have htext (o : Operator) : o.text = Operator.divide.text ↔ o = .divide := by
      cases o <;> decide
    simp [DividesByZero, Chain.map, htext]
  have hknown : (c.map Operator.text id).operators.find? (!Operator.isOperator ·) = none := by
    simp [Operator.isOperator]
  have houtcome := reduceChain_texts_outcome A (c.map Operator.text id)
  rwa [hdivides, hknown] at houtcome

/-! ## Divisors -/

section Congruence

variable {apply apply' : Operator → ν → ν → Except Fault ν} {P : ν → Prop}
  (h : ∀ o x y, (o = .divide → P y) → apply' o x y = apply o x y)

include h

/-- In the first pass only numbers of the links are on the right of an operator. -/
theorem multiplyOut_congr (x : ν) {links : List (String × ν)} (hlinks : ∀ link ∈ links, P link.2) :
    multiplyOut apply' x links = multiplyOut apply x links := by
  induction links generalizing x with
  | nil => rfl
  | cons link links ih =>
    obtain ⟨s, y⟩ := link
    obtain ⟨hy, hrest⟩ := List.forall_mem_cons.1 hlinks
    rw [multiplyOut, multiplyOut]
    cases (Operator.ofText? s).filter Operator.isHigh with
    | none => simp only [ih y hrest]
    | some o =>
      simp only [h o x y fun _ => hy]
      cases apply o x y with
      | error fault => rfl
      | ok z => exact ih z hrest

/-- In the second pass nothing is divided. -/
theorem addUp_congr (x : ν) (links : List (String × ν)) :
    addUp apply' x links = addUp apply x links := by
  induction links generalizing x with
  | nil => rfl
  | cons link links ih =>
    obtain ⟨s, y⟩ := link
    rw [addUp, addUp]
    cases hs : (Operator.ofText? s).filter (!·.isHigh) with
    | none => rfl
    | some o =>
      have ho : o ≠ .divide := by
        rintro rfl
        exact absurd (Option.filter_eq_some_iff.1 hs).2 (by decide)
      simp only [h o x y fun hdivide => absurd hdivide ho]
      cases apply o x y with
      | error fault => rfl
      | ok z => exact ih z

/-- What the operators do with a divisor that is no number of the chain is of no
    importance. -/
theorem reduceChain_congr (c : Chain String ν) (hc : ∀ link ∈ c.links, P link.2) :
    reduceChain apply' c = reduceChain apply c := by
  rw [reduceChain, reduceChain, multiplyOut_congr h c.first hc]
  simp only [addUp_congr h]

end Congruence

end InfixArithmetic.ReductionFaults
