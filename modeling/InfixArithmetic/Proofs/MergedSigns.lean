/-
  InfixArithmetic.Proofs.MergedSigns

  A plus or minus before a signed literal: the operator and the sign are as good as one
  operator, `--` as a plus and `+-` as a minus.

  In a text of the grammar the minus of such a pair is always a sign and what stands
  before it an operator, so the text is divided there (`exists_join_of_sign`): a literal
  is never empty, and past its first character it holds no minus.

  The sign belongs to the first number of a term, and the operator is applied to the value
  of the whole term.  So the sign is carried through the products and quotients of the
  term (`Term.value_neg`) before the two meet (`value_join_opposite`).  Nothing is used of
  the arithmetic but the four laws of `IsNegation`.
-/

import InfixArithmetic.Proofs.JoinedExpressions

namespace InfixArithmetic

/-! ## Negated floating-point values -/

namespace Binary64

theorem ofOrdinal_not (s : Bool) (n : Nat) : ofOrdinal (!s) n = (ofOrdinal s n).neg := by
  rw [ofOrdinal, ofOrdinal]
  split <;> rfl

theorem ofUnits_not (s : Bool) (num den : Nat) : ofUnits (!s) num den = (ofUnits s num den).neg :=
  ofOrdinal_not s _

theorem neg_mul (x y : Binary64) : x.neg.mul y = (x.mul y).neg := by
  cases x with
  | nan => rfl
  | infinite s =>
    cases y with
    | nan => rfl
    | infinite t => rw [neg, mul, mul, neg, Bool.not_bne]
    | finite t n =>
      rw [neg, mul, mul, Bool.not_bne]
      split <;> rfl
  | finite s m =>
    cases y with
    | nan => rfl
    | infinite t =>
      rw [neg, mul, mul, Bool.not_bne]
      split <;> rfl
    | finite t n => rw [neg, mul, mul, Bool.not_bne, ofUnits_not]

theorem neg_div (x y : Binary64) : x.neg.div y = (x.div y).neg := by
  cases x with
  | nan => rfl
  | infinite s =>
    cases y with
    | nan | infinite t => rfl
    | finite t n => rw [neg, div, div, neg, Bool.not_bne]
  | finite s m =>
    cases y with
    | nan => rfl
    | infinite t => rw [neg, div, div, Bool.not_bne, ofOrdinal_not]
    | finite t n =>
      rw [neg, div, div, Bool.not_bne]
      by_cases hn : n.val = 0
      · rw [if_pos hn, if_pos hn]
        split <;> rfl
      · rw [if_neg hn, if_neg hn, ofUnits_not]

end Binary64

/-! ## Negated terms -/

namespace Precedence

open Expression (reduceChain)

variable {ν : Type}

/-- The operations take `neg` for a change of sign. -/
structure IsNegation (A : Arithmetic ν) (neg : ν → ν) : Prop where
  add_neg (x y : ν) : A.add x (neg y) = A.subtract x y
  subtract_neg (x y : ν) : A.subtract x (neg y) = A.add x y
  neg_multiply (x y : ν) : A.multiply (neg x) y = neg (A.multiply x y)
  neg_divide (x y : ν) : A.divide (neg x) y = neg (A.divide x y)

theorem isNegation_binary64 : IsNegation Arithmetic.binary64 Binary64.neg where
  add_neg _ _ := rfl
  subtract_neg x y := by
    show x.add y.neg.neg = x.add y
    rw [Binary64.neg_neg]
  neg_multiply := Binary64.neg_mul
  neg_divide := Binary64.neg_div

/-- The other one of plus and minus. -/
def LowOperator.opposite (o : LowOperator) : LowOperator :=
  if o.val = .add then ⟨.subtract, .inr rfl⟩ else ⟨.add, .inl rfl⟩

/-- A derivation, an operator and another derivation derive the joined rows. -/
theorem Expr.written_join (e f : Expr ν) (o : LowOperator) :
    Expr.written (Chain.join e o f) = e.written.join o.val f.written := by
  simp [Expr.written, Chain.join, writtenAfter]

/-- The terms of the second derivation are added to the value of all before them. -/
theorem Expr.value_join (A : Arithmetic ν) (e f : Expr ν) (o : LowOperator) :
    Expr.value A (Chain.join e o f)
      = ((e.addTerm o f.first).value A).bind fun x => addTerms A x f.links := by
  have hsplit : e.links ++ (o, f.first) :: f.links = e.links ++ [(o, f.first)] ++ f.links := by
    rw [List.append_assoc, List.singleton_append]
  show (Term.value A e.first).bind (fun x => addTerms A x (e.links ++ (o, f.first) :: f.links)) = _
  simp only [hsplit, Expr.value, Expr.addTerm, addTerms, List.foldlM_append,
    Option.bind_eq_bind, Option.bind_assoc]

section Negation

variable {A : Arithmetic ν} {neg : ν → ν} (h : IsNegation A neg)

include h

theorem result?_opposite (o : LowOperator) (x y : ν) :
    A.result? o.opposite.val x y = A.result? o.val x (neg y) := by
  obtain ⟨o, rfl | rfl⟩ := o
  · exact congrArg some (h.add_neg x y).symm
  · exact congrArg some (h.subtract_neg x y).symm

theorem result?_neg (o : HighOperator) (x y : ν) :
    A.result? o.val (neg x) y = (A.result? o.val x y).map neg := by
  obtain ⟨o, rfl | rfl⟩ := o
  · exact congrArg some (h.neg_multiply x y)
  · simp only [Arithmetic.result?, h.neg_divide]
    split <;> rfl

/-- The sign of the first number is that of the whole term, however long it is. -/
theorem Term.value_neg (x : ν) (factors : List (HighOperator × ν)) :
    Term.value A ⟨neg x, factors⟩ = (Term.value A ⟨x, factors⟩).map neg := by
  induction factors generalizing x with
  | nil => rfl
  | cons factor factors ih =>
    obtain ⟨o, y⟩ := factor
    rw [Term.value_cons, Term.value_cons, result?_neg h]
    cases A.result? o.val x y with
    | none => rfl
    | some z => exact ih z

theorem value_join_opposite (e : Expr ν) (o : LowOperator) (x : ν)
    (factors : List (HighOperator × ν)) (terms : List (LowOperator × Term ν)) :
    Expr.value A (Chain.join e o.opposite ⟨⟨x, factors⟩, terms⟩)
      = Expr.value A (Chain.join e o ⟨⟨neg x, factors⟩, terms⟩) := by
  rw [Expr.value_join, Expr.value_join, value_addTerm, value_addTerm, Term.value_neg h]
  simp only [result?_opposite h, Option.bind_map, Function.comp_def]

/-- A plus or minus before a negated number is the other one before the number. -/
theorem reduceChain_join_opposite (c : Chain Operator ν) (o : LowOperator) (x : ν)
    (links : List (Operator × ν)) :
    reduceChain A.apply ((c.join o.opposite.val ⟨x, links⟩).map Operator.text id)
      = reduceChain A.apply ((c.join o.val ⟨neg x, links⟩).map Operator.text id) := by
  obtain ⟨⟨⟨y, factors⟩, terms⟩, hwritten⟩ : ∃ f : Expr ν, f.written = ⟨x, links⟩ :=
    ⟨group _, written_group _⟩
  -- The derivation of the negated row has the same terms but for its first number.
  obtain ⟨rfl, rfl⟩ := Chain.mk.inj hwritten
  have hneg : Expr.written ⟨⟨neg y, factors⟩, terms⟩
      = ⟨neg y, Term.written ⟨y, factors⟩ ++ writtenAfter terms⟩ := rfl
  rw [← written_group c, ← hneg, ← Expr.written_join, reduceChain_written,
    ← value_join_opposite h, ← reduceChain_written, Expr.written_join]
  rfl

end Negation

end Precedence

namespace MergedSigns

open EvaluationOutcomes (literalValue scan_written)
open Expression (literalValue? scan evaluate Scanned)
open ExpressionGrammar (IsUnsigned IsLiteral IsExpression written writtenAfter
  isLiteralChar_symbol isLiteralChar_iff isExpression_cons)
open JoinedExpressions (evaluate_eq_reduceChain exists_written isExpression_join written_join)
open Precedence (LowOperator)
open Text (squeeze)

/-! ## Signs in texts -/

theorem symbol_notMem {l : List Char} (h : IsUnsigned l) (o : Operator) : o.symbol ∉ l := by
  intro hmem
  have hchar := isLiteralChar_iff.2 (h.chars _ hmem)
  rw [isLiteralChar_symbol] at hchar
  cases hchar

/-- The only operator symbol in a literal is the minus that it starts with. -/
theorem isUnsigned_of_symbol {before after : List Char} {o : Operator}
    (h : IsLiteral (before ++ o.symbol :: after)) : IsUnsigned after := by
  generalize hl : before ++ o.symbol :: after = l at h
  cases h with
  | unsigned h =>
    subst hl
    exact absurd (List.mem_append_right _ List.mem_cons_self) (symbol_notMem h o)
  | minus h =>
    cases before with
    | nil =>
      obtain ⟨-, rfl⟩ := List.cons.inj hl
      exact h
    | cons c before =>
      obtain ⟨-, rfl⟩ := List.cons.inj hl
      exact absurd (List.mem_append_right _ List.mem_cons_self) (symbol_notMem h o)

/-- A literal ends before an operator that is followed by a minus. -/
theorem append_of_sign {l rest before after : List Char} (hl : IsLiteral l) {o : Operator}
    (h : l ++ rest = before ++ o.symbol :: '-' :: after) :
    ∃ between, before = l ++ between ∧ rest = between ++ o.symbol :: '-' :: after := by
  rcases List.append_eq_append_iff.1 h with hcase | ⟨within, hwithin, hrest⟩
  · exact hcase
  · cases within with
    | nil => exact ⟨[], by simpa using hwithin.symm, hrest.symm⟩
    | cons c body =>
      -- The operator would be the sign of the literal, and the minus come after a sign.
      obtain ⟨rfl, hbody⟩ := List.cons.inj hrest
      have hunsigned : IsUnsigned body := isUnsigned_of_symbol (hwithin ▸ hl)
      obtain ⟨c, cs, rfl⟩ := List.exists_cons_of_ne_nil hunsigned.ne_nil
      obtain ⟨rfl, -⟩ := List.cons.inj hbody
      exact absurd List.mem_cons_self (symbol_notMem hunsigned .subtract)

theorem isExpression_singleton {l : List Char} : IsExpression ⟨l, []⟩ ↔ IsLiteral l := by
  simp [IsExpression, Chain.numbers]

/-- The first literal may be replaced by another one. -/
theorem isExpression_of_first {k l : List Char} {links : List (Operator × List Char)}
    (h : IsExpression ⟨k, links⟩) (hl : IsLiteral l) : IsExpression ⟨l, links⟩ := by
  intro m hm
  rcases List.mem_cons.1 hm with rfl | hm
  · exact hl
  · exact h m (List.mem_cons_of_mem k hm)

/-- A minus at the start of a text of the grammar is the sign of its first literal, and may
    be left out. -/
theorem exists_signed_first {d : Chain Operator (List Char)} (hd : IsExpression d)
    {after : List Char} (h : written d = '-' :: after) :
    ∃ l links, d = ⟨'-' :: l, links⟩ ∧ IsUnsigned l ∧ IsExpression ⟨l, links⟩ ∧
      written ⟨l, links⟩ = after := by
  obtain ⟨k, links⟩ := d
  obtain ⟨c, l, rfl⟩ := List.exists_cons_of_ne_nil hd.first.ne_nil
  obtain ⟨rfl, rfl⟩ := List.cons.inj h
  have hl : IsUnsigned l :=
    isUnsigned_of_symbol (show IsLiteral ([] ++ Operator.subtract.symbol :: l) from hd.first)
  exact ⟨l, links, rfl, hl, isExpression_of_first hd (.unsigned hl), rfl⟩

/-- An operator before a minus divides a text of the grammar: the minus is the sign of the
    literal that comes next. -/
theorem exists_join_of_sign {d : Chain Operator (List Char)} (hd : IsExpression d)
    {o : Operator} {before after : List Char}
    (h : written d = before ++ o.symbol :: '-' :: after) :
    ∃ c l links, d = c.join o ⟨'-' :: l, links⟩ ∧ IsExpression c ∧ written c = before ∧
      IsUnsigned l ∧ IsExpression ⟨l, links⟩ ∧ written ⟨l, links⟩ = after := by
  obtain ⟨k, links⟩ := d
  induction links generalizing k before with
  | nil =>
    obtain ⟨between, -, hrest⟩ := append_of_sign hd.first h
    simp [writtenAfter] at hrest
  | cons link links ih =>
    obtain ⟨p, m⟩ := link
    obtain ⟨hk, hd⟩ := isExpression_cons.1 hd
    obtain ⟨between, rfl, hrest⟩ := append_of_sign hk h
    rw [show writtenAfter ((p, m) :: links) = p.symbol :: written ⟨m, links⟩ from rfl] at hrest
    cases between with
    | nil =>
      obtain ⟨hsymbol, hwritten⟩ := List.cons.inj hrest
      obtain rfl := Operator.eq_of_symbol_eq hsymbol
      obtain ⟨l, others, heq, hsigned⟩ := exists_signed_first hd hwritten
      obtain ⟨rfl, rfl⟩ := Chain.mk.inj heq
      refine ⟨⟨k, []⟩, l, links, rfl, isExpression_singleton.2 hk, ?_, hsigned⟩
      simp [written, writtenAfter]
    | cons c between =>
      -- The operator is further behind, and so is what the rest is divided into.
      obtain ⟨rfl, hwritten⟩ := List.cons.inj hrest
      obtain ⟨e, l, others, heq, he, rfl, hsigned⟩ := ih m hd hwritten
      obtain ⟨rfl, rfl⟩ := Chain.mk.inj heq
      exact ⟨e.cons k p, l, others, rfl, isExpression_cons.2 ⟨hk, he⟩,
        ExpressionGrammar.written_cons k p e, hsigned⟩

/-! ## Values -/

/-- The value of a literal after a minus. -/
theorem literalValue_minus {l : List Char} (h : IsUnsigned l) :
    literalValue ('-' :: l) = (literalValue l).neg := by
  obtain ⟨m, hm⟩ := h.readDecimal?
  obtain ⟨hread, hminus⟩ := ExpressionGrammar.read?_run h.chars
  rw [literalValue, literalValue, literalValue?, literalValue?, hread, hminus, hm]
  exact Binary64.ofOrdinal_not false m.ordinal

/-- A sign that is merged with the operator before it: the text is still accepted, and
    keeps its value or its zero divisor. -/
theorem evaluate_opposite {s t : String} {c : Scanned} (hc : scan s = .ok c) {o : LowOperator}
    {before after : List Char} (hs : squeeze s.toList = before ++ o.val.symbol :: '-' :: after)
    (ht : squeeze t.toList = before ++ o.opposite.val.symbol :: after) :
    (∃ d, scan t = .ok d) ∧ evaluate t = evaluate s := by
  obtain ⟨d, hd, hwritten, hcontents⟩ := exists_written hc
  obtain ⟨e, l, links, rfl, he, rfl, hl, hrest, rfl⟩ := exists_join_of_sign hd (hwritten.trans hs)
  have hmerged : written (e.join o.opposite.val ⟨l, links⟩) = squeeze t.toList := by
    rw [written_join, ht]
  obtain ⟨c', hc', hcontents'⟩ :=
    scan_written (isExpression_join he hrest o.opposite.val) hmerged
  refine ⟨⟨c', hc'⟩, ?_⟩
  have hmerge := Precedence.reduceChain_join_opposite Precedence.isNegation_binary64
    (e.map id literalValue) o (literalValue l) (Chain.map id literalValue ⟨l, links⟩).links
  rw [← literalValue_minus hl] at hmerge
  rw [evaluate_eq_reduceChain hc', evaluate_eq_reduceChain hc, hcontents]
  show Expression.reduceChain _ ((c'.map Located.value Located.value).map Operator.text id) = _
  rw [hcontents', Chain.map_join id literalValue e, Chain.map_join id literalValue e]
  exact hmerge

/-- In an accepted expression `--` may be written as a plus and `+-` as a minus, wherever
    they stand: the expression is still accepted, and has the same value to the last bit or
    divides by zero as before. -/
theorem evaluate_merged_sign (p q : String) :
    (∀ c, scan (p ++ "--" ++ q) = .ok c →
      (∃ d, scan (p ++ "+" ++ q) = .ok d) ∧
        evaluate (p ++ "+" ++ q) = evaluate (p ++ "--" ++ q)) ∧
    ∀ c, scan (p ++ "+-" ++ q) = .ok c →
      (∃ d, scan (p ++ "-" ++ q) = .ok d) ∧
        evaluate (p ++ "-" ++ q) = evaluate (p ++ "+-" ++ q) := by
  have htext (pair : String) : squeeze (p ++ pair ++ q).toList
      = squeeze p.toList ++ (squeeze pair.toList ++ squeeze q.toList) := by
    rw [String.toList_append, String.toList_append, Text.squeeze_append, Text.squeeze_append,
      List.append_assoc]
  constructor
  · intro c hc
    exact evaluate_opposite hc (o := ⟨.subtract, .inr rfl⟩) (htext "--") (htext "+")
  · intro c hc
    exact evaluate_opposite hc (o := ⟨.add, .inl rfl⟩) (htext "+-") (htext "-")

/-- The sign belongs to the first factor of a term that goes on; a zero divisor stays one. -/
theorem evaluate_merged_sign_product :
    scan "1--2*3/-4" = .ok ⟨⟨.one, 0⟩,
        [(⟨.subtract, 1⟩, ⟨.finite true 0x4000000000000000, 2⟩),
          (⟨.multiply, 4⟩, ⟨.finite false 0x4008000000000000, 5⟩),
          (⟨.divide, 6⟩, ⟨.finite true 0x4010000000000000, 7⟩)]⟩ ∧
      evaluate "1+2*3/-4" = evaluate "1--2*3/-4" ∧
      scan "1+-2/0" = .ok ⟨⟨.one, 0⟩,
        [(⟨.add, 1⟩, ⟨.finite true 0x4000000000000000, 2⟩), (⟨.divide, 4⟩, ⟨.zero, 5⟩)]⟩ ∧
      evaluate "1-2/0" = evaluate "1+-2/0" ∧
      evaluate "1-2/0" = .error (.division .zeroDivisor) := by
  have hproduct : scan "1--2*3/-4" = .ok ⟨⟨.one, 0⟩,
      [(⟨.subtract, 1⟩, ⟨.finite true 0x4000000000000000, 2⟩),
        (⟨.multiply, 4⟩, ⟨.finite false 0x4008000000000000, 5⟩),
        (⟨.divide, 6⟩, ⟨.finite true 0x4010000000000000, 7⟩)]⟩ := by decide +kernel
  have hquotient : scan "1+-2/0" = .ok ⟨⟨.one, 0⟩,
      [(⟨.add, 1⟩, ⟨.finite true 0x4000000000000000, 2⟩), (⟨.divide, 4⟩, ⟨.zero, 5⟩)]⟩ := by
    decide +kernel
  obtain ⟨-, hsum⟩ := (evaluate_merged_sign "1" "2*3/-4").1 _ hproduct
  obtain ⟨-, hdifference⟩ := (evaluate_merged_sign "1" "2/0").2 _ hquotient
  exact ⟨hproduct, hsum, hquotient, hdifference, by decide +kernel⟩

end MergedSigns

end InfixArithmetic
