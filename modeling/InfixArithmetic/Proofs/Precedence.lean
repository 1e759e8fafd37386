/-
  InfixArithmetic.Proofs.Precedence

  The two passes of `Expression.reduce` against the grammar of precedence:

    expr = term ((+ | -) term)*        term = number ((* | /) number)*

  Both levels are left associative.  An `Expr` is a derivation of that grammar,
  its value is a fold over each level, and `Expr.written` is the row of numbers
  and operators that it derives.  Every row has exactly one derivation
  (`written_group`, `group_written`).

  The levels of the grammar name their operators; the passes tell the same ones
  apart by their precedence (`HighOperator.isHigh`, `LowOperator.isHigh`).

  The passes are followed over a derivation in the order in which they run:
  `multiplyOut_term` takes one term to its value and leaves what comes after it,
  `multiplyOut_written` does so for all terms, and `addUp_values` folds the row of
  values that is left.  Nothing is used of the four operations but that a division
  is the only one that can fail, so the result holds for any `Arithmetic`.
-/

import InfixArithmetic.Expression.Evaluate
import Mathlib.Data.List.Basic

namespace InfixArithmetic.Precedence

open Expression (multiplyOut addUp reduceChain reduce applyOperator)

/-! ## The grammar -/

/-- `*` and `/`. -/
abbrev HighOperator : Type := { o : Operator // o = .multiply ∨ o = .divide }

/-- `+` and `-`. -/
abbrev LowOperator : Type := { o : Operator // o = .add ∨ o = .subtract }

/-- The passes take `*` and `/` for the operators of high precedence. -/
theorem HighOperator.isHigh (o : HighOperator) : o.val.isHigh = true :=
  Operator.isHigh_iff.2 o.property

/-- They take `+` and `-` for those of low precedence. -/
theorem LowOperator.isHigh (o : LowOperator) : o.val.isHigh = false :=
  Operator.isHigh_eq_false_iff.2 o.property

/-- Every operator is of one of the two levels. -/
theorem low_or_high (o : Operator) :
    (o = .add ∨ o = .subtract) ∨ o = .multiply ∨ o = .divide := by
  cases o <;> decide

/-- No operator is of both. -/
theorem LowOperator.not_high (o : LowOperator) : ¬ (o.val = .multiply ∨ o.val = .divide) := by
  obtain ⟨o, rfl | rfl⟩ := o
  · decide
  · decide

/-- A number, then any number of `*` or `/` each with a number. -/
abbrev Term (ν : Type) : Type := Chain HighOperator ν

/-- A term, then any number of `+` or `-` each with a term. -/
abbrev Expr (ν : Type) : Type := Chain LowOperator (Term ν)

variable {ν μ : Type}

/-- The links of a term, their operators taken as operators of any precedence. -/
def Term.written (t : Term ν) : List (Operator × ν) := t.links.map fun (o, y) => (o.val, y)

/-- What is written after a term. -/
def writtenAfter (links : List (LowOperator × Term ν)) : List (Operator × ν) :=
  links.flatMap fun (o, t) => (o.val, t.first) :: Term.written t

/-- The row of numbers and operators that a derivation stands for. -/
def Expr.written (e : Expr ν) : Chain Operator ν :=
  ⟨e.first.first, Term.written e.first ++ writtenAfter e.links⟩

/-- A number and a high operator in front of a derivation join its first term. -/
def Expr.consHigh (x : ν) (o : HighOperator) (e : Expr ν) : Expr ν :=
  ⟨e.first.cons x o, e.links⟩

/-- The derivation of a number and what follows it. -/
def groupFrom : ν → List (Operator × ν) → Expr ν
  | x, [] => ⟨⟨x, []⟩, []⟩
  | x, (o, y) :: links =>
    if h : o = .multiply ∨ o = .divide then (groupFrom y links).consHigh x ⟨o, h⟩
    else (groupFrom y links).cons ⟨x, []⟩ ⟨o, (low_or_high o).resolve_right h⟩

/-- The derivation of a row of numbers and operators. -/
def group (c : Chain Operator ν) : Expr ν := groupFrom c.first c.links

theorem written_consHigh (x : ν) (o : HighOperator) (e : Expr ν) :
    (e.consHigh x o).written = e.written.cons x o.val := rfl

theorem written_consLow (x : ν) (o : LowOperator) (e : Expr ν) :
    Expr.written (e.cons ⟨x, []⟩ o) = e.written.cons x o.val := by
  simp [Expr.written, Term.written, writtenAfter, Chain.cons]

theorem written_groupFrom (x : ν) (links : List (Operator × ν)) :
    (groupFrom x links).written = ⟨x, links⟩ := by
  induction links generalizing x with
  | nil => rfl
  | cons link links ih =>
    obtain ⟨o, y⟩ := link
    rw [groupFrom]
    split
    next h => rw [written_consHigh, ih]; rfl
    next h => rw [written_consLow, ih]; rfl

/-- Every row of numbers and operators has a derivation. -/
theorem written_group (c : Chain Operator ν) : (group c).written = c :=
  written_groupFrom c.first c.links

theorem groupFrom_term (x : ν) (factors : List (HighOperator × ν)) :
    groupFrom x (Term.written ⟨x, factors⟩) = ⟨⟨x, factors⟩, []⟩ := by
  induction factors generalizing x with
  | nil => rfl
  | cons factor factors ih =>
    obtain ⟨⟨o, h⟩, y⟩ := factor
    have hy := ih y
    simp only [Term.written] at hy
    simp [Term.written, groupFrom, h, hy, Expr.consHigh, Chain.cons]

/-- A term in front of an operator of low precedence is the first term. -/
theorem groupFrom_term_append (x : ν) (factors : List (HighOperator × ν)) (o : LowOperator)
    (y : ν) (links : List (Operator × ν)) :
    groupFrom x (Term.written ⟨x, factors⟩ ++ (o.val, y) :: links)
      = (groupFrom y links).cons ⟨x, factors⟩ o := by
  induction factors generalizing x with
  | nil => simp [Term.written, groupFrom, o.not_high]
  | cons factor factors ih =>
    obtain ⟨⟨p, hp⟩, z⟩ := factor
    have hz := ih z
    simp only [Term.written] at hz
    simp [Term.written, groupFrom, hp, hz, Expr.consHigh, Chain.cons]

theorem groupFrom_written (t : Term ν) (links : List (LowOperator × Term ν)) :
    groupFrom t.first (Term.written t ++ writtenAfter links) = ⟨t, links⟩ := by
  induction links generalizing t with
  | nil => simpa [writtenAfter] using groupFrom_term t.first t.links
  | cons link links ih =>
    obtain ⟨o, u⟩ := link
    have hu := ih u
    simp only [writtenAfter, List.flatMap_cons, List.cons_append] at hu ⊢
    rw [groupFrom_term_append t.first t.links, hu]
    rfl

/-- No row of numbers and operators has two derivations. -/
theorem group_written (e : Expr ν) : group e.written = e :=
  groupFrom_written e.first e.links

/-! ## The value of a derivation -/

/-- Four operations on numbers, and the test for the divisors that have no
    quotient. -/
structure Arithmetic (ν : Type) where
  add : ν → ν → ν
  subtract : ν → ν → ν
  multiply : ν → ν → ν
  divide : ν → ν → ν
  isZero : ν → Bool

/-- The value that is there, or the fault of a zero divisor. -/
def orZeroDivisor {α : Type} : Option α → Except Fault α
  | some x => .ok x
  | none => .error (.division .zeroDivisor)

namespace Arithmetic

/-- An operator on two numbers, none if it divides by a zero. -/
def result? (A : Arithmetic ν) : Operator → ν → ν → Option ν
  | .add, x, y => some (A.add x y)
  | .subtract, x, y => some (A.subtract x y)
  | .multiply, x, y => some (A.multiply x y)
  | .divide, x, y => if A.isZero y then none else some (A.divide x y)

/-- An operator on two numbers, as the two passes use it. -/
def apply (A : Arithmetic ν) (o : Operator) (x y : ν) : Except Fault ν :=
  orZeroDivisor (A.result? o x y)

/-- The floating-point operations. -/
def binary64 : Arithmetic Binary64 where
  add := Binary64.add
  subtract := Binary64.sub
  multiply := Binary64.mul
  divide := Binary64.div
  isZero := Binary64.isZero

/-- Adding and subtracting always give a value. -/
theorem result?_low (A : Arithmetic ν) (o : LowOperator) (x y : ν) :
    ∃ z, A.result? o.val x y = some z := by
  obtain ⟨o, rfl | rfl⟩ := o
  · exact ⟨A.add x y, rfl⟩
  · exact ⟨A.subtract x y, rfl⟩

end Arithmetic

/-- The value of a term, its operators applied from left to right. -/
def Term.value (A : Arithmetic ν) (t : Term ν) : Option ν :=
  t.links.foldlM (fun x (o, y) => A.result? o.val x y) t.first

/-- Terms added to and subtracted from a number, from left to right; each has its
    value before the operator in front of it is applied. -/
def addTerms (A : Arithmetic ν) (x : ν) (links : List (LowOperator × Term ν)) : Option ν :=
  links.foldlM (fun x (o, t) => do A.result? o.val x (← Term.value A t)) x

/-- The value of an expression. -/
def Expr.value (A : Arithmetic ν) (e : Expr ν) : Option ν := do
  addTerms A (← Term.value A e.first) e.links

theorem Term.value_cons (A : Arithmetic ν) (x y : ν) (o : HighOperator)
    (factors : List (HighOperator × ν)) :
    Term.value A ⟨x, (o, y) :: factors⟩
      = (A.result? o.val x y).bind fun z => Term.value A ⟨z, factors⟩ := rfl

theorem addTerms_cons (A : Arithmetic ν) (x : ν) (o : LowOperator) (t : Term ν)
    (links : List (LowOperator × Term ν)) :
    addTerms A x ((o, t) :: links)
      = (Term.value A t).bind fun y =>
          (A.result? o.val x y).bind fun z => addTerms A z links := by
  show ((Term.value A t).bind fun y => A.result? o.val x y).bind (addTerms A · links) = _
  rw [Option.bind_assoc]

/-- The values of the terms that follow the first one. -/
def values? (A : Arithmetic ν) : List (LowOperator × Term ν) → Option (List (LowOperator × ν))
  | [] => some []
  | (o, t) :: links => do
    let y ← Term.value A t
    let ys ← values? A links
    return (o, y) :: ys

/-- Values added and subtracted from left to right. -/
def sum? (A : Arithmetic ν) (x : ν) (ys : List (LowOperator × ν)) : Option ν :=
  ys.foldlM (fun x (o, y) => A.result? o.val x y) x

/-- It makes no difference if all terms have their values before the first of
    them is added: adding cannot fail. -/
theorem addTerms_eq_sum_values (A : Arithmetic ν) (x : ν)
    (links : List (LowOperator × Term ν)) :
    addTerms A x links = (values? A links).bind (sum? A x) := by
  induction links generalizing x with
  | nil => rfl
  | cons link links ih =>
    obtain ⟨o, t⟩ := link
    rw [addTerms_cons, values?]
    cases Term.value A t with
    | none => rfl
    | some y =>
      obtain ⟨z, hz⟩ := A.result?_low o x y
      have hsum (ys : List (LowOperator × ν)) : sum? A x ((o, y) :: ys) = sum? A z ys := by
        simp [sum?, hz]
      simp only [Option.bind_some, hz, ih z]
      cases values? A links with
      | none => rfl
      | some ys => exact (hsum ys).symm

/-! ## The two passes on a derivation -/

/-- Links with their operators as texts, as the two passes take them. -/
def texts (links : List (Operator × ν)) : List (String × ν) :=
  links.map fun (o, y) => (o.text, y)

/-- The first pass takes a term to its value and goes on with what follows it. -/
theorem multiplyOut_term (A : Arithmetic ν) (x : ν) (factors : List (HighOperator × ν))
    (rest : List (String × ν)) :
    multiplyOut A.apply x (texts (Term.written ⟨x, factors⟩) ++ rest)
      = (orZeroDivisor (Term.value A ⟨x, factors⟩)).bind (multiplyOut A.apply · rest) := by
  induction factors generalizing x with
  | nil => rfl
  | cons factor factors ih =>
    obtain ⟨⟨o, h⟩, y⟩ := factor
    have hstep : multiplyOut A.apply x (texts (Term.written ⟨x, (⟨o, h⟩, y) :: factors⟩) ++ rest)
        = (A.apply o x y).bind fun z =>
            multiplyOut A.apply z (texts (Term.written ⟨z, factors⟩) ++ rest) := by
      simp only [texts, Term.written, List.map_cons, List.cons_append, multiplyOut,
        Operator.ofText?_text, Option.filter_some, HighOperator.isHigh ⟨o, h⟩, if_true]
      rfl
    rw [hstep, Term.value_cons, Arithmetic.apply]
    cases A.result? o x y with
    | none => rfl
    | some z => exact ih z

/-- The first pass leaves the values of the terms, and stops at the first term
    that has none. -/
theorem multiplyOut_written (A : Arithmetic ν) (t : Term ν)
    (links : List (LowOperator × Term ν)) :
    multiplyOut A.apply t.first (texts (Term.written t ++ writtenAfter links))
      = orZeroDivisor ((Term.value A t).bind fun x =>
          (values? A links).map fun ys => ⟨x, texts (ys.map fun (o, y) => (o.val, y))⟩) := by
  induction links generalizing t with
  | nil =>
    have h := multiplyOut_term A t.first t.links []
    simp only [List.append_nil] at h
    simp only [writtenAfter, List.flatMap_nil, List.append_nil, h]
    cases Term.value A t <;> rfl
  | cons link links ih =>
    obtain ⟨⟨o, ho⟩, u⟩ := link
    have hwritten : texts (Term.written t ++ writtenAfter ((⟨o, ho⟩, u) :: links))
        = texts (Term.written t) ++
            (o.text, u.first) :: texts (Term.written u ++ writtenAfter links) := by
      simp [texts, writtenAfter]
    -- An operator of low precedence is kept, and the pass starts again after it.
    have hkept (x : ν) : multiplyOut A.apply x
          ((o.text, u.first) :: texts (Term.written u ++ writtenAfter links))
        = (multiplyOut A.apply u.first (texts (Term.written u ++ writtenAfter links))).map
            (Chain.cons x o.text) := by
      simp only [multiplyOut, Operator.ofText?_text, Option.filter_some,
        LowOperator.isHigh ⟨o, ho⟩]
      rfl
    -- The term comes first, and only if it has a value does the pass get to what follows.
    rw [hwritten, multiplyOut_term A t.first t.links]
    simp only [hkept, ih u]
    cases Term.value A t with
    | none => rfl
    | some x =>
      rw [values?]
      cases Term.value A u with
      | none => rfl
      | some y => cases values? A links <;> rfl

/-- The second pass adds up the values. -/
theorem addUp_values (A : Arithmetic ν) (x : ν) (ys : List (LowOperator × ν)) :
    addUp A.apply x (texts (ys.map fun (o, y) => (o.val, y))) = orZeroDivisor (sum? A x ys) := by
  induction ys generalizing x with
  | nil => rfl
  | cons link ys ih =>
    obtain ⟨⟨o, ho⟩, y⟩ := link
    obtain ⟨z, hz⟩ := A.result?_low ⟨o, ho⟩ x y
    have hstep : addUp A.apply x (texts (((⟨o, ho⟩, y) :: ys).map fun (o, y) => (o.val, y)))
        = (A.apply o x y).bind fun z =>
            addUp A.apply z (texts (ys.map fun (o, y) => (o.val, y))) := by
      simp only [texts, List.map_cons, addUp, Operator.ofText?_text, Option.filter_some,
        LowOperator.isHigh ⟨o, ho⟩]
      rfl
    simp only [sum?, List.foldlM_cons] at ih ⊢
    rw [hstep, Arithmetic.apply]
    simp only [hz]
    exact ih z

/-- Both passes give the value of the derivation. -/
theorem reduceChain_written (A : Arithmetic ν) (e : Expr ν) :
    reduceChain A.apply (e.written.map Operator.text id) = orZeroDivisor (e.value A) := by
  have hfirst := multiplyOut_written A e.first e.links
  show (multiplyOut A.apply e.first.first
      (texts (Term.written e.first ++ writtenAfter e.links))).bind
    (fun sums => addUp A.apply sums.first sums.links) = _
  rw [hfirst, Expr.value]
  cases Term.value A e.first with
  | none => rfl
  | some x =>
    simp only [Option.bind_eq_bind, Option.bind_some, addTerms_eq_sum_values]
    cases values? A e.links with
    | none => rfl
    | some ys => exact addUp_values A x ys

/-! ## Floating-point numbers -/

section Representation

variable {apply : Operator → ν → ν → Except Fault ν} {apply' : Operator → μ → μ → Except Fault μ}
  {f : ν → μ} (hf : ∀ o x y, apply' o (f x) (f y) = (apply o x y).map f)

include hf

/-- The first pass does not depend on how the numbers are represented. -/
theorem multiplyOut_map (x : ν) (links : List (String × ν)) :
    multiplyOut apply' (f x) (links.map fun (s, y) => (s, f y))
      = (multiplyOut apply x links).map (Chain.map id f) := by
  induction links generalizing x with
  | nil => rfl
  | cons link links ih =>
    obtain ⟨s, y⟩ := link
    rw [List.map_cons, multiplyOut, multiplyOut]
    cases (Operator.ofText? s).filter Operator.isHigh with
    | none =>
      simp only [ih y]
      cases multiplyOut apply y links <;> rfl
    | some o =>
      simp only [hf o x y]
      cases apply o x y with
      | error fault => rfl
      | ok z => exact ih z

/-- Nor does the second pass. -/
theorem addUp_map (x : ν) (links : List (String × ν)) :
    addUp apply' (f x) (links.map fun (s, y) => (s, f y)) = (addUp apply x links).map f := by
  induction links generalizing x with
  | nil => rfl
  | cons link links ih =>
    obtain ⟨s, y⟩ := link
    rw [List.map_cons, addUp, addUp]
    cases (Operator.ofText? s).filter (!·.isHigh) with
    | none => rfl
    | some o =>
      simp only [hf o x y]
      cases apply o x y with
      | error fault => rfl
      | ok z => exact ih z

theorem reduceChain_map (c : Chain String ν) :
    reduceChain apply' (c.map id f) = (reduceChain apply c).map f := by
  have hfirst := multiplyOut_map hf c.first c.links
  show (multiplyOut apply' (f c.first) (c.links.map fun (s, y) => (s, f y))).bind
    (fun sums => addUp apply' sums.first sums.links) = _
  rw [hfirst, reduceChain]
  cases multiplyOut apply c.first c.links with
  | error fault => rfl
  | ok sums => exact addUp_map hf sums.first sums.links

end Representation

/-- The operators on floating-point numbers are those of `Arithmetic.binary64`. -/
theorem applyOperator_double (o : Operator) (x y : Binary64) :
    applyOperator o (.double x) (.double y)
      = (Arithmetic.binary64.apply o x y).map Number.double := by
  cases o with
  | add => rfl
  | subtract => rfl
  | multiply => rfl
  | divide =>
    show Number.double <$> DoubleOperation.divide (.double x) (.double y)
      = (orZeroDivisor (if y.isZero then none else some (x.div y))).map Number.double
    rw [DoubleOperation.divide, Number.isZero]
    cases y.isZero <;> rfl

/-- Floating-point numbers with operators between them need no rounding at the end. -/
theorem reduce_double (c : Chain String Binary64) :
    reduce (c.numbers.map .double) c.operators = reduceChain Arithmetic.binary64.apply c := by
  have hchain := reduceChain_map applyOperator_double c
  have hlists : Chain.ofLists? (c.numbers.map Number.double) c.operators
      = some (c.map id Number.double) := by
    rw [← Chain.ofLists?_numbers_operators (c.map id Number.double)]
    simp
  rw [reduce, hlists]
  simp only [hchain]
  cases reduceChain Arithmetic.binary64.apply c <;> rfl

/-- Floating-point numbers with operators between them have the value of their
    derivation. -/
theorem reduce_written (e : Expr Binary64) :
    reduce (e.written.numbers.map .double) (e.written.operators.map Operator.text)
      = orZeroDivisor (e.value .binary64) := by
  have hreduce := reduce_double (e.written.map Operator.text id)
  rw [reduceChain_written] at hreduce
  simpa using hreduce

/-! ## Lists of numbers and operators -/

/-- The expression derives these numbers with these operators between them. -/
structure Derives (e : Expr ν) (xs : List ν) (os : List Operator) : Prop where
  numbers : e.written.numbers = xs
  operators : e.written.operators = os

/-- One number more than operators, at least one: there is a derivation. -/
theorem exists_derives {xs : List ν} {os : List Operator}
    (h : xs.length = os.length + 1) : ∃ e : Expr ν, Derives e xs os := by
  cases xs with
  | nil => simp at h
  | cons x xs =>
    have hlen : xs.length = os.length := by simpa using h
    refine ⟨group ⟨x, os.zip xs⟩, ?_, ?_⟩
    · simp [written_group, Chain.numbers, List.map_snd_zip (Nat.le_of_eq hlen)]
    · simp [written_group, Chain.operators, List.map_fst_zip (Nat.le_of_eq hlen.symm)]

/-- There is no second one. -/
theorem Derives.unique {d e : Expr ν} {xs : List ν} {os : List Operator}
    (hd : Derives d xs os) (he : Derives e xs os) : d = e := by
  have hwritten : d.written = e.written := by
    have h := Chain.ofLists?_numbers_operators d.written
    rw [hd.numbers, hd.operators, ← he.numbers, ← he.operators,
      Chain.ofLists?_numbers_operators] at h
    exact (Option.some.inj h).symm
  rw [← group_written d, hwritten, group_written]

/-- Numbers with operators between them, in any order and of any length, are
    reduced to the value of their one derivation in the grammar of precedence.  The
    operations are applied to the same operands in the same association whatever
    they compute, and there is no value exactly if the derivation has none. -/
theorem reduce_follows_precedence (xs : List Binary64) (os : List Operator)
    (h : xs.length = os.length + 1) :
    ∃ e : Expr Binary64, Derives e xs os ∧ (∀ d, Derives d xs os → d = e) ∧
      (∀ A : Arithmetic Binary64,
        reduceChain A.apply (e.written.map Operator.text id) = orZeroDivisor (e.value A)) ∧
      reduce (xs.map .double) (os.map Operator.text) = orZeroDivisor (e.value .binary64) ∧
      (reduce (xs.map .double) (os.map Operator.text) = .error (.division .zeroDivisor) ↔
        e.value .binary64 = none) := by
  obtain ⟨e, he⟩ := exists_derives h
  have hreduce : reduce (xs.map .double) (os.map Operator.text)
      = orZeroDivisor (e.value .binary64) := by
    rw [← he.numbers, ← he.operators]
    exact reduce_written e
  refine ⟨e, he, fun d hd => hd.unique he, fun A => reduceChain_written A e, hreduce, ?_⟩
  rw [hreduce]
  cases e.value .binary64 <;> simp [orZeroDivisor]

/-- One less two times three over zero: the division stands in the second term. -/
theorem reduce_follows_precedence_zero_divisor :
    [Binary64.one, .finite false 0x4000000000000000, .finite false 0x4008000000000000,
        .finite true 0].length
      = [Operator.subtract, .multiply, .divide].length + 1 ∧
    ∃ e : Expr Binary64,
      Derives e [Binary64.one, .finite false 0x4000000000000000,
        .finite false 0x4008000000000000, .finite true 0] [.subtract, .multiply, .divide] ∧
      e.value .binary64 = none := by
  refine ⟨rfl, ?_⟩
  obtain ⟨e, he, -, -, -, hfault⟩ := reduce_follows_precedence
    [Binary64.one, .finite false 0x4000000000000000, .finite false 0x4008000000000000,
      .finite true 0] [.subtract, .multiply, .divide] rfl
  exact ⟨e, he, hfault.1 (by decide +kernel)⟩

end InfixArithmetic.Precedence
