/-
  InfixArithmetic.Proofs.JoinedExpressions

  Two expressions with an operator between them as one expression.

  A text of the grammar ends in a literal, so an operator after it is no sign and what
  comes after the operator is read as if it stood alone: the scanner distributes over the
  join (`scan_join`), also if the right part starts with a minus.  The value is that of
  the parts only if the operator is the last one that is applied.  An operator of low
  precedence is, if the right part is one term; one of high precedence is, if the left
  part is one term and the right part a number.  Both are read off the derivation of the
  join, which is that of the left part with one more link at its end (`value_addTerm`,
  `value_addFactor`).
-/

import InfixArithmetic.Proofs.EvaluationOutcomes

namespace InfixArithmetic

/-! ## Joined chains -/

namespace Chain

variable {ω ν ω' ν' : Type}

/-- A chain, an operator and another chain. -/
def join (c : Chain ω ν) (o : ω) (d : Chain ω ν) : Chain ω ν :=
  ⟨c.first, c.links ++ (o, d.first) :: d.links⟩

theorem numbers_join (c : Chain ω ν) (o : ω) (d : Chain ω ν) :
    (c.join o d).numbers = c.numbers ++ d.numbers := by
  simp [join, numbers]

theorem map_join (f : ω → ω') (g : ν → ν') (c : Chain ω ν) (o : ω) (d : Chain ω ν) :
    (c.join o d).map f g = (c.map f g).join (f o) (d.map f g) := by
  simp [join, map]

end Chain

/-! ## Joined derivations -/

namespace Precedence

open Expression (reduceChain)

variable {ν : Type}

/-- A derivation with another term at its end. -/
def Expr.addTerm (e : Expr ν) (o : LowOperator) (t : Term ν) : Expr ν :=
  ⟨e.first, e.links ++ [(o, t)]⟩

/-- A term with another number at its end. -/
def Term.addFactor (t : Term ν) (o : HighOperator) (y : ν) : Term ν :=
  ⟨t.first, t.links ++ [(o, y)]⟩

/-- A term by itself is an expression. -/
def Term.toExpr (t : Term ν) : Expr ν := ⟨t, []⟩

theorem written_addTerm (e : Expr ν) (o : LowOperator) (t : Term ν) :
    (e.addTerm o t).written = e.written.join o.val (Term.toExpr t).written := by
  simp [Expr.addTerm, Term.toExpr, Expr.written, Chain.join, writtenAfter]

theorem written_addFactor (t : Term ν) (o : HighOperator) (y : ν) :
    (Term.toExpr (Term.addFactor t o y)).written
      = (Term.toExpr t).written.join o.val ⟨y, []⟩ := by
  simp [Term.addFactor, Term.toExpr, Expr.written, Term.written, Chain.join, writtenAfter]

/-- Numbers with operators of high precedence only are one term. -/
theorem exists_term {c : Chain Operator ν} (h : ∀ o ∈ c.operators, o.isHigh = true) :
    ∃ t : Term ν, (Term.toExpr t).written = c := by
  obtain ⟨x, links⟩ := c
  induction links generalizing x with
  | nil => exact ⟨⟨x, []⟩, rfl⟩
  | cons link links ih =>
    obtain ⟨o, y⟩ := link
    obtain ⟨ho, hrest⟩ := List.forall_mem_cons.1 h
    obtain ⟨t, ht⟩ := ih y hrest
    refine ⟨t.cons x ⟨o, Operator.isHigh_iff.1 ho⟩, ?_⟩
    show (Term.toExpr t).written.cons x o = _
    rw [ht]
    rfl

/-- The term at the end is added to the value of all before it. -/
theorem value_addTerm (A : Arithmetic ν) (e : Expr ν) (o : LowOperator) (t : Term ν) :
    (e.addTerm o t).value A
      = (e.value A).bind fun x => (Term.value A t).bind fun y => A.result? o.val x y := by
  show (Term.value A e.first).bind (fun x => addTerms A x (e.links ++ [(o, t)])) = _
  have hlast (x : ν) : addTerms A x (e.links ++ [(o, t)])
      = (addTerms A x e.links).bind fun x => (Term.value A t).bind fun y =>
          A.result? o.val x y := by
    rw [addTerms, List.foldlM_append]
    simp [addTerms]
  simp only [hlast, Expr.value, Option.bind_eq_bind, Option.bind_assoc]

/-- The number at the end is a factor of the value of all before it. -/
theorem value_addFactor (A : Arithmetic ν) (t : Term ν) (o : HighOperator) (y : ν) :
    Term.value A (Term.addFactor t o y) = (Term.value A t).bind fun x => A.result? o.val x y := by
  rw [Term.value, Term.addFactor, List.foldlM_append]
  simp [Term.value]

theorem value_toExpr (A : Arithmetic ν) (t : Term ν) :
    (Term.toExpr t).value A = Term.value A t := by
  show (Term.value A t).bind (fun x => some x) = Term.value A t
  cases Term.value A t <;> rfl

theorem orZeroDivisor_bind {α β : Type} (x? : Option α) (f : α → Option β) :
    orZeroDivisor (x?.bind f) = orZeroDivisor x? >>= fun x => orZeroDivisor (f x) := by
  cases x? <;> rfl

/-- An operator of low precedence with one term after it is applied last. -/
theorem reduceChain_join_low (A : Arithmetic ν) (c : Chain Operator ν) (o : LowOperator)
    {d : Chain Operator ν} (hd : ∀ o ∈ d.operators, o.isHigh = true) :
    reduceChain A.apply ((c.join o.val d).map Operator.text id) = (do
      let x ← reduceChain A.apply (c.map Operator.text id)
      let y ← reduceChain A.apply (d.map Operator.text id)
      A.apply o.val x y) := by
  obtain ⟨t, rfl⟩ := exists_term hd
  -- The left part may be of any shape; its derivation gets one more term.
  rw [← written_group c, ← written_addTerm, reduceChain_written, reduceChain_written,
    reduceChain_written, value_addTerm, value_toExpr, orZeroDivisor_bind]
  simp only [orZeroDivisor_bind]
  rfl

/-- An operator of high precedence between one term and a number is applied last. -/
theorem reduceChain_join_high (A : Arithmetic ν) {c : Chain Operator ν}
    (hc : ∀ o ∈ c.operators, o.isHigh = true) (o : HighOperator) (y : ν) :
    reduceChain A.apply ((c.join o.val ⟨y, []⟩).map Operator.text id) = (do
      let x ← reduceChain A.apply (c.map Operator.text id)
      A.apply o.val x y) := by
  obtain ⟨t, rfl⟩ := exists_term hc
  rw [← written_addFactor, reduceChain_written, reduceChain_written, value_toExpr, value_toExpr,
    value_addFactor, orZeroDivisor_bind]
  rfl

end Precedence

namespace JoinedExpressions

open EvaluationOutcomes (literalValue scan_written inGrammar_of_scan evaluate_eq_of_scan
  evaluateScanned_eq evaluate_fault)
open Expression (scan evaluate reduceChain Scanned)
open ExpressionGrammar (IsExpression written)
open Precedence (Arithmetic)
open Text (squeeze)

/-! ## Joined texts -/

theorem written_join (d : Chain Operator (List Char)) (o : Operator)
    (e : Chain Operator (List Char)) :
    written (d.join o e) = written d ++ o.symbol :: written e := by
  simp [written, Chain.join, ExpressionGrammar.writtenAfter]

theorem isExpression_join {d e : Chain Operator (List Char)} (hd : IsExpression d)
    (he : IsExpression e) (o : Operator) : IsExpression (d.join o e) := by
  rw [IsExpression, Chain.numbers_join]
  exact List.forall_mem_append.2 ⟨hd, he⟩

theorem squeeze_join (s t : String) (o : Operator) :
    squeeze (s ++ o.text ++ t).toList = squeeze s.toList ++ o.symbol :: squeeze t.toList := by
  have hsymbol : squeeze o.text.toList = [o.symbol] := by
    cases o <;> rfl
  rw [String.toList_append, String.toList_append, Text.squeeze_append, Text.squeeze_append,
    hsymbol, List.append_assoc, List.singleton_append]

/-- What is scanned, without the positions. -/
def contents (c : Scanned) : Chain Operator Binary64 := c.map Located.value Located.value

/-- The contents of a scanned text are those of its division in the grammar. -/
theorem exists_written {s : String} {c : Scanned} (h : scan s = .ok c) :
    ∃ d, IsExpression d ∧ written d = squeeze s.toList ∧ contents c = d.map id literalValue := by
  obtain ⟨d, hd, hs⟩ := inGrammar_of_scan h
  obtain ⟨c', hc', hcontents⟩ := scan_written hd hs
  rw [h] at hc'
  cases hc'
  exact ⟨d, hd, hs, hcontents⟩

/-- The scanner distributes over an operator between two texts that it accepts. -/
theorem scan_join {s t : String} {c d : Scanned} (hs : scan s = .ok c) (ht : scan t = .ok d)
    (o : Operator) :
    ∃ j, scan (s ++ o.text ++ t) = .ok j ∧ contents j = (contents c).join o (contents d) := by
  obtain ⟨left, hleft, hleftText, hc⟩ := exists_written hs
  obtain ⟨right, hright, hrightText, hd⟩ := exists_written ht
  have htext : written (left.join o right) = squeeze (s ++ o.text ++ t).toList := by
    rw [written_join, squeeze_join, hleftText, hrightText]
  obtain ⟨j, hj, hcontents⟩ := scan_written (isExpression_join hleft hright o) htext
  refine ⟨j, hj, ?_⟩
  show j.map Located.value Located.value = _
  rw [hcontents, Chain.map_join, hc, hd]
  rfl

/-! ## Joined values -/

theorem evaluate_eq_reduceChain {s : String} {c : Scanned} (h : scan s = .ok c) :
    evaluate s = reduceChain Arithmetic.binary64.apply ((contents c).map Operator.text id) := by
  rw [evaluate_eq_of_scan h, evaluateScanned_eq]
  rfl

/-- The operator of an expression is the operation on floating-point values. -/
theorem ofOperator_double (o : Operator) (x y : Binary64) :
    DoubleOperation.ofOperator o (.double x) (.double y) = Arithmetic.binary64.apply o x y := by
  cases o with
  | add | subtract | multiply => rfl
  | divide =>
    show DoubleOperation.divide (.double x) (.double y)
      = Precedence.orZeroDivisor (if y.isZero then none else some (x.div y))
    rw [DoubleOperation.divide, Number.isZero]
    cases y.isZero <;> rfl

/-- An operation on two outcomes: the first fault of a part is that of the whole. -/
def onOutcomes (f : Number → Number → Except Fault Binary64) (a b : Except Fault Binary64) :
    Except Fault Binary64 := do
  let x ← a
  let y ← b
  f (.double x) (.double y)

/-- There is no plus or minus between the numbers; minus signs are part of them. -/
def IsProduct (c : Scanned) : Prop := .add ∉ c.symbols ∧ .subtract ∉ c.symbols

/-- There is nothing but one number. -/
def IsNumber (c : Scanned) : Prop := c.symbols = []

theorem operators_contents (c : Scanned) : (contents c).operators = c.symbols := by
  rw [contents, Chain.operators_map]
  rfl

theorem IsProduct.isHigh {c : Scanned} (h : IsProduct c) :
    ∀ o ∈ (contents c).operators, o.isHigh = true := by
  rw [operators_contents]
  intro o ho
  cases o with
  | add => exact absurd ho h.1
  | subtract => exact absurd ho h.2
  | multiply | divide => rfl

theorem IsNumber.contents {c : Scanned} (h : IsNumber c) : contents c = ⟨c.first.value, []⟩ := by
  have hlinks : c.links = [] := by
    rw [IsNumber, Chain.symbols, Chain.operators, List.map_eq_nil_iff, List.map_eq_nil_iff] at h
    exact h
  rw [JoinedExpressions.contents, Chain.map, hlinks]
  rfl

/-- The parts that an operator may join: it has to be the last one that is applied. -/
def Fits (o : Operator) (c d : Scanned) : Prop :=
  if o.isHigh then IsProduct c ∧ IsNumber d else IsProduct d

/-- The value of joined texts is the operation on the values of the parts. -/
theorem evaluate_join {s t : String} {c d : Scanned} (hs : scan s = .ok c) (ht : scan t = .ok d)
    {o : Operator} (h : Fits o c d) :
    evaluate (s ++ o.text ++ t)
      = onOutcomes (DoubleOperation.ofOperator o) (evaluate s) (evaluate t) := by
  obtain ⟨j, hj, hcontents⟩ := scan_join hs ht o
  rw [evaluate_eq_reduceChain hj, hcontents, evaluate_eq_reduceChain hs,
    evaluate_eq_reduceChain ht, onOutcomes]
  simp only [ofOperator_double]
  cases ho : o.isHigh with
  | false =>
    rw [Fits, ho] at h
    exact Precedence.reduceChain_join_low Arithmetic.binary64 (contents c)
      ⟨o, Operator.isHigh_eq_false_iff.1 ho⟩ (IsProduct.isHigh h)
  | true =>
    rw [Fits, ho] at h
    obtain ⟨hc, hd⟩ := h
    rw [hd.contents]
    -- A number by itself is its own value, so the right part has no fault.
    exact Precedence.reduceChain_join_high Arithmetic.binary64 hc.isHigh
      ⟨o, Operator.isHigh_iff.1 ho⟩ d.first.value

/-! ## Faults of joined texts -/

/-- The only fault of a text that is scanned. -/
theorem fault_of_scan {s : String} {c : Scanned} (h : scan s = .ok c) {f : Fault}
    (hf : evaluate s = .error f) : f = .division .zeroDivisor := by
  rcases evaluate_fault hf with ⟨g, hg, -⟩ | hzero
  · rw [h] at hg
    cases hg
  · exact hzero

theorem zeroDivisor_join {s t : String} {c d : Scanned} (hs : scan s = .ok c)
    (ht : scan t = .ok d) {o : Operator} (h : Fits o c d) :
    evaluate (s ++ o.text ++ t) = .error (.division .zeroDivisor) ↔
      evaluate s = .error (.division .zeroDivisor) ∨
      evaluate t = .error (.division .zeroDivisor) ∨
      ∃ x y, evaluate s = .ok x ∧ evaluate t = .ok y ∧
        DoubleOperation.ofOperator o (.double x) (.double y)
          = .error (.division .zeroDivisor) := by
  rw [evaluate_join hs ht h]
  cases hx : evaluate s with
  | error f =>
    obtain rfl := fault_of_scan hs hx
    exact iff_of_true rfl (.inl rfl)
  | ok x =>
    cases hy : evaluate t with
    | error f =>
      obtain rfl := fault_of_scan ht hy
      exact iff_of_true rfl (.inr (.inl rfl))
    | ok y =>
      show DoubleOperation.ofOperator o (.double x) (.double y) = _ ↔ _
      simp

/-- An operator between two expressions gives the operation on their values, if the
    precedence lets it be applied last: a plus or minus before a product, a multiplication
    or division sign between a product and a number.  The join divides by zero exactly if
    a part does or the operation on their values. -/
theorem evaluate_joined_expressions {e t : String} {c d : Scanned} (he : scan e = .ok c)
    (ht : scan t = .ok d) :
    (IsProduct d →
      evaluate (e ++ "+" ++ t) = onOutcomes DoubleOperation.add (evaluate e) (evaluate t) ∧
      evaluate (e ++ "-" ++ t)
        = onOutcomes DoubleOperation.subtract (evaluate e) (evaluate t)) ∧
    (IsProduct c → IsNumber d →
      evaluate (e ++ "*" ++ t)
        = onOutcomes DoubleOperation.multiply (evaluate e) (evaluate t) ∧
      evaluate (e ++ "/" ++ t)
        = onOutcomes DoubleOperation.divide (evaluate e) (evaluate t)) ∧
    ∀ o : Operator, Fits o c d →
      (evaluate (e ++ o.text ++ t) = .error (.division .zeroDivisor) ↔
        evaluate e = .error (.division .zeroDivisor) ∨
        evaluate t = .error (.division .zeroDivisor) ∨
        ∃ x y, evaluate e = .ok x ∧ evaluate t = .ok y ∧
          DoubleOperation.ofOperator o (.double x) (.double y)
            = .error (.division .zeroDivisor)) := by
  refine ⟨fun hd => ⟨?_, ?_⟩, fun hc hd => ⟨?_, ?_⟩, fun o h => zeroDivisor_join he ht h⟩
  · exact evaluate_join he ht (o := .add) hd
  · exact evaluate_join he ht (o := .subtract) hd
  · exact evaluate_join he ht (o := .multiply) ⟨hc, hd⟩
  · exact evaluate_join he ht (o := .divide) ⟨hc, hd⟩

/-- A minus before a negative zero is an operator before a sign; a division by it has no
    value, whatever comes before. -/
theorem evaluate_joined_expressions_negative_zero :
    scan "6/3" = .ok ⟨⟨.finite false 0x4018000000000000, 0⟩,
        [(⟨.divide, 1⟩, ⟨.finite false 0x4008000000000000, 2⟩)]⟩ ∧
      scan "-0" = .ok ⟨⟨.finite true 0, 0⟩, []⟩ ∧
      evaluate "6/3--0" = onOutcomes DoubleOperation.subtract (evaluate "6/3") (evaluate "-0") ∧
      evaluate "6/3*-0" = onOutcomes DoubleOperation.multiply (evaluate "6/3") (evaluate "-0") ∧
      evaluate "6/3/-0" = .error (.division .zeroDivisor) := by
  have he : scan "6/3" = .ok ⟨⟨.finite false 0x4018000000000000, 0⟩,
      [(⟨.divide, 1⟩, ⟨.finite false 0x4008000000000000, 2⟩)]⟩ := by decide +kernel
  have ht : scan "-0" = .ok ⟨⟨.finite true 0, 0⟩, []⟩ := by decide +kernel
  obtain ⟨hlow, hhigh, hzero⟩ := evaluate_joined_expressions he ht
  have hproduct : IsProduct ⟨⟨.finite false 0x4018000000000000, 0⟩,
      [(⟨.divide, 1⟩, ⟨.finite false 0x4008000000000000, 2⟩)]⟩ := ⟨by decide, by decide⟩
  have hnumber : IsNumber ⟨⟨.finite true 0, 0⟩, []⟩ := rfl
  refine ⟨he, ht, (hlow ⟨by decide, by decide⟩).2, (hhigh hproduct hnumber).1, ?_⟩
  -- The last division itself is the one by zero.
  refine (hzero .divide ⟨hproduct, hnumber⟩).2 (.inr (.inr ?_))
  exact ⟨.finite false 0x4000000000000000, .finite true 0, by decide +kernel, by decide +kernel,
    rfl⟩

end JoinedExpressions

end InfixArithmetic
