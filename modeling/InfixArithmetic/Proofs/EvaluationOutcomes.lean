/-
  InfixArithmetic.Proofs.EvaluationOutcomes

  What becomes of a text that is evaluated: a format fault, a division by zero or a
  value, and which of them is seen from the text.

  The scanner decides about format faults alone, and it comes first.  What it accepts
  has known operators and one number more than those, so the passes can only fail at a
  zero divisor (`ReductionFaults.reduceChain_outcome`), and every divisor is a literal.
  A literal is read as zero if its exact value is at most half of the least positive
  magnitude (`isZero_literalValue_iff`), not only if all its digits are zeros.
-/

import InfixArithmetic.Expression.Evaluate
import InfixArithmetic.Proofs.ExpressionGrammar
import InfixArithmetic.Proofs.IndexedReduction
import InfixArithmetic.Proofs.NearestValue
import InfixArithmetic.Proofs.ReductionFaults

namespace InfixArithmetic

/-- A chain is determined by its numbers and its operators. -/
theorem Chain.ext_lists {ω ν : Type} {c d : Chain ω ν} (hnumbers : c.numbers = d.numbers)
    (hoperators : c.operators = d.operators) : c = d := by
  have h := Chain.ofLists?_numbers_operators c
  rw [hnumbers, hoperators, Chain.ofLists?_numbers_operators] at h
  exact (Option.some.inj h).symm

namespace EvaluationOutcomes

open Expression (literalValue? scanFrom scan Scanned evaluate evaluateScanned reduceChain
  applyOperator)
open ExpressionGrammar (IsUnsigned IsLiteral IsExpression written)
open Numeral (AllDigits)
open Precedence (Arithmetic)
open Text (squeeze)

/-! ## The exact value of a literal -/

/-- The number that is written in a literal, without its sign. -/
def exactMagnitude (l : List Char) : ℚ :=
  Nat.ofDigitChars 10 (l.filter Char.isDigit) 0 /
    10 ^ ((l.dropWhile (· ≠ '.')).filter Char.isDigit).length

theorem filter_allDigits {ds : List Char} (h : AllDigits ds) : ds.filter Char.isDigit = ds :=
  List.filter_eq_self.2 h

theorem dropWhile_allDigits_append {ds : List Char} (h : AllDigits ds) (rest : List Char) :
    (ds ++ rest).dropWhile (· ≠ '.') = rest.dropWhile (· ≠ '.') := by
  refine List.dropWhile_append_of_pos fun c hc => ?_
  have hne : c ≠ '.' := by
    rintro rfl
    exact absurd (h '.' hc) (by decide)
  simpa using hne

/-- An unsigned literal is read as the number that is written in it. -/
theorem readDecimal?_exact {cs : List Char} (h : IsUnsigned cs) :
    ∃ d, Numeral.readDecimal? cs = some d ∧
      (d.digits : ℚ) * 10 ^ d.exponent = exactMagnitude cs := by
  obtain ⟨whole, fraction, hwhole, hfraction, hne, ⟨rfl, rfl⟩ | rfl⟩ := h.cut
  · have hread := Numeral.readDecimal?_whole hwhole Numeral.stopsDigits_nil (by simp)
    rw [List.append_nil, if_neg (by simpa using hne)] at hread
    refine ⟨_, hread, ?_⟩
    have hpoint := dropWhile_allDigits_append hwhole []
    rw [List.append_nil] at hpoint
    rw [exactMagnitude, filter_allDigits hwhole, hpoint]
    simp
  · have hread := Numeral.readDecimal?_fraction hwhole hfraction Numeral.stopsDigits_nil
    rw [List.append_nil, if_neg hne] at hread
    refine ⟨_, hread, ?_⟩
    have hdigits : (whole ++ '.' :: fraction).filter Char.isDigit = whole ++ fraction := by
      rw [List.filter_append, List.filter_cons_of_neg (by decide), filter_allDigits hwhole,
        filter_allDigits hfraction]
    have hpoint : ((whole ++ '.' :: fraction).dropWhile (· ≠ '.')).filter Char.isDigit
        = fraction := by
      rw [dropWhile_allDigits_append hwhole, List.dropWhile_cons_of_neg (by decide),
        List.filter_cons_of_neg (by decide), filter_allDigits hfraction]
    dsimp only
    rw [exactMagnitude, hdigits, hpoint, Int.zero_sub, zpow_neg, zpow_natCast, div_eq_mul_inv]

theorem exactMagnitude_minus (cs : List Char) :
    exactMagnitude ('-' :: cs) = exactMagnitude cs := by
  simp [exactMagnitude]

/-- A decimal is read as zero up to the given power of two. -/
theorem isZero_toBinary64_iff (negative : Bool) (d : Decimal) :
    (d.toBinary64 negative).isZero = true
      ↔ (d.digits : ℚ) * 10 ^ d.exponent ≤ 2 ^ (-1075 : Int) := by
  have hrounds := Decimal.toBinary64_eq_iff.1 (rfl : d.toBinary64 negative = _)
  exact hrounds.isZero_iff

/-- The value of a literal, for other texts some value. -/
def literalValue (l : List Char) : Binary64 := (literalValue? l).getD .nan

theorem literalValue?_eq {l : List Char} (h : IsLiteral l) :
    literalValue? l = some (literalValue l) := by
  obtain ⟨x, hx⟩ := h.value
  rw [literalValue, hx, Option.getD_some]

theorem isZero_literalValue_iff {l : List Char} (h : IsLiteral l) :
    (literalValue l).isZero = true ↔ exactMagnitude l ≤ 2 ^ (-1075 : Int) := by
  cases h with
  | unsigned h =>
    obtain ⟨d, hd, hexact⟩ := readDecimal?_exact h
    rw [← hexact, ← isZero_toBinary64_iff false, literalValue, literalValue?,
      (ExpressionGrammar.read?_run h.chars).1, hd]
    rfl
  | minus h =>
    obtain ⟨d, hd, hexact⟩ := readDecimal?_exact h
    rw [exactMagnitude_minus, ← hexact, ← isZero_toBinary64_iff true, literalValue,
      literalValue?, (ExpressionGrammar.read?_run h.chars).2, hd]
    rfl

/-! ## What is scanned -/

/-- What a division of a text is scanned as, without the positions. -/
theorem scan_written {s : String} {d : Chain Operator (List Char)} (hd : IsExpression d)
    (hs : written d = squeeze s.toList) :
    ∃ c, scan s = .ok c ∧ c.map Located.value Located.value = d.map id literalValue := by
  obtain ⟨c, hc, hvalues, hsymbols⟩ := ExpressionGrammar.scanFrom_written d hd 0
  rw [hs, ← ExpressionGrammar.scan_eq_scanFrom (hs ▸ ExpressionGrammar.written_ne_nil hd)] at hc
  refine ⟨c, hc, Chain.ext_lists ?_ ?_⟩
  · have hparse : d.numbers.map (fun l => NumberText.parse (.text (String.ofList l)))
        = (d.numbers.map literalValue).map Except.ok := by
      rw [List.map_map]
      exact List.map_congr_left fun l hl => (hd l hl).parse (literalValue?_eq (hd l hl))
    rw [hparse] at hvalues
    rw [Chain.numbers_map, Chain.numbers_map]
    exact List.map_injective_iff.2 (fun _ _ => Except.ok.inj) hvalues
  · rw [Chain.operators_map, Chain.operators_map, List.map_id]
    exact hsymbols

/-- The value of what has been read is that of its numbers, which the passes need not
    round. -/
theorem evaluateScanned_eq (c : Scanned) :
    evaluateScanned c = reduceChain Arithmetic.binary64.apply
      ((c.map Located.value Located.value).map Operator.text id) := by
  rw [← Precedence.reduce_double, evaluateScanned, Chain.values, Chain.symbols]
  simp

theorem evaluate_eq_of_scan {s : String} {c : Scanned} (h : scan s = .ok c) :
    evaluate s = evaluateScanned c := by
  rw [evaluate, h]
  rfl

theorem evaluate_eq_of_not_scan {s : String} {f : FormatFault} (h : scan s = .error f) :
    evaluate s = .error (.format f) := by
  rw [evaluate, h]
  rfl

/-! ## Where divisors come from -/

/-- A number of a reduction: a literal that has been read, or the result of an
    operator. -/
inductive Operand where
  | literal (x : Located Binary64)
  | result (x : Binary64)

namespace Operand

def value : Operand → Binary64
  | literal x => x.value
  | result x => x

/-- True of the operands that have not been computed. -/
def IsLiteral : Operand → Prop
  | literal _ => True
  | result _ => False

/-- An operator on operands. -/
def apply (o : Operator) (a b : Operand) : Except Fault Operand :=
  (Arithmetic.binary64.apply o a.value b.value).map result

/-- An operator on operands, with a fault in place of every quotient by a result. -/
def applyToLiteral (fault : Fault) (o : Operator) (a b : Operand) : Except Fault Operand :=
  match o, b with
  | .divide, .result _ => .error fault
  | o, b => apply o a b

theorem applyToLiteral_eq (fault : Fault) (o : Operator) (a b : Operand)
    (h : o = .divide → b.IsLiteral) : applyToLiteral fault o a b = apply o a b := by
  cases b with
  | literal y => cases o <;> rfl
  | result y =>
    cases o with
    | divide => exact absurd (h rfl) id
    | add | subtract | multiply => rfl

end Operand

/-- What has been read, every number marked as a literal. -/
def operands (c : Scanned) : Chain String Operand :=
  c.map (fun o => o.value.text) Operand.literal

/-- No quotient by a result is ever taken: whatever fault stands in its place makes no
    difference. -/
theorem reduceChain_applyToLiteral (fault : Fault) (c : Scanned) :
    (reduceChain (Operand.applyToLiteral fault) (operands c)).map Operand.value
      = evaluateScanned c := by
  have hliteral : ∀ link ∈ (operands c).links, Operand.IsLiteral link.2 := by
    intro link hlink
    obtain ⟨⟨o, x⟩, -, rfl⟩ := List.mem_map.1 hlink
    trivial
  have hvalue (o : Operator) (a b : Operand) :
      Arithmetic.binary64.apply o a.value b.value = (Operand.apply o a b).map Operand.value := by
    rw [Operand.apply]
    cases Arithmetic.binary64.apply o a.value b.value <;> rfl
  rw [ReductionFaults.reduceChain_congr (Operand.applyToLiteral_eq fault) (operands c) hliteral,
    ← Precedence.reduceChain_map hvalue, evaluateScanned_eq]
  congr 1
  refine Chain.ext_lists ?_ ?_ <;> simp [operands, Operand.value]

/-! ## The three outcomes -/

/-- The text is a row of literals and operators, its blanks apart. -/
def InGrammar (s : String) : Prop := ∃ d, IsExpression d ∧ written d = squeeze s.toList

/-- A division sign is followed by a literal that is too small to be read as anything
    but zero. -/
def DividesByVanishing (d : Chain Operator (List Char)) : Prop :=
  ∃ l, (.divide, l) ∈ d.links ∧ exactMagnitude l ≤ 2 ^ (-1075 : Int)

theorem dividesByVanishing_iff {d : Chain Operator (List Char)} (hd : IsExpression d) :
    (∃ y, (.divide, y) ∈ (d.map id literalValue).links ∧ Arithmetic.binary64.isZero y = true)
      ↔ DividesByVanishing d := by
  have hliteral {l : List Char} (h : (Operator.divide, l) ∈ d.links) : IsLiteral l :=
    hd l (List.mem_cons_of_mem _ (List.mem_map_of_mem h))
  constructor
  · rintro ⟨y, hy, hzero⟩
    obtain ⟨⟨o, l⟩, hl, heq⟩ := List.mem_map.1 hy
    obtain ⟨rfl, rfl⟩ := Prod.mk.inj heq
    exact ⟨l, hl, (isZero_literalValue_iff (hliteral hl)).1 hzero⟩
  · rintro ⟨l, hl, hsmall⟩
    exact ⟨literalValue l, List.mem_map_of_mem hl,
      (isZero_literalValue_iff (hliteral hl)).2 hsmall⟩

/-- A text of the grammar has a value, or it divides by a vanishing literal. -/
theorem evaluate_written {s : String} {d : Chain Operator (List Char)} (hd : IsExpression d)
    (hs : written d = squeeze s.toList) :
    (DividesByVanishing d ∧ evaluate s = .error (.division .zeroDivisor)) ∨
      (¬ DividesByVanishing d ∧ ∃ x, evaluate s = .ok x) := by
  obtain ⟨c, hc, hmap⟩ := scan_written hd hs
  rw [evaluate_eq_of_scan hc, evaluateScanned_eq, hmap, ← dividesByVanishing_iff hd]
  exact ReductionFaults.reduceChain_outcome Arithmetic.binary64 (d.map id literalValue)

theorem inGrammar_of_scan {s : String} {c : Scanned} (h : scan s = .ok c) : InGrammar s := by
  have hne : squeeze s.toList ≠ [] := by
    intro hnil
    simp [scan, hnil] at h
  rw [ExpressionGrammar.scan_eq_scanFrom hne] at h
  exact ExpressionGrammar.exists_written_of_scanFrom h

/-- A text outside of the grammar has a format fault. -/
theorem evaluate_not_inGrammar {s : String} (h : ¬ InGrammar s) :
    ∃ f, evaluate s = .error (.format f) := by
  cases hs : scan s with
  | error f => exact ⟨f, evaluate_eq_of_not_scan hs⟩
  | ok c => exact absurd (inGrammar_of_scan hs) h

/-- The faults of the scanner. -/
theorem scanFrom_fault {position : Nat} {cs : List Char} {f : FormatFault}
    (h : scanFrom position cs = .error f) :
    (∃ n, f = .invalidNumber n) ∨ (∃ n, f = .invalidOperator n) ∨ f = .unbalanced := by
  fun_induction scanFrom position cs with
  | case1 =>
    cases h
    exact .inl ⟨_, rfl⟩
  | case2 => cases h
  | case3 =>
    cases h
    exact .inr (.inl ⟨_, rfl⟩)
  | case4 =>
    cases h
    exact .inr (.inr rfl)
  | case5 _ _ _ _ _ _ after _ next _ _ _ ih =>
    -- The rest of the text has the fault.
    cases hs : scanFrom (next + 1) after with
    | error g =>
      rw [hs] at h
      cases h
      exact ih hs
    | ok c =>
      rw [hs] at h
      cases h

theorem scan_fault {s : String} {f : FormatFault} (h : scan s = .error f) :
    f = .emptyExpression ∨ (∃ n, f = .invalidNumber n) ∨ (∃ n, f = .invalidOperator n) ∨
      f = .unbalanced := by
  rw [scan] at h
  split at h
  next =>
    cases h
    exact .inl rfl
  next => exact .inr (scanFrom_fault h)

/-- The faults of an expression: one of the scanner's, or a zero divisor. -/
theorem evaluate_fault {s : String} {f : Fault} (h : evaluate s = .error f) :
    (∃ g, scan s = .error g ∧ f = .format g) ∨ f = .division .zeroDivisor := by
  cases hs : scan s with
  | error g =>
    rw [evaluate_eq_of_not_scan hs] at h
    cases h
    exact .inl ⟨g, rfl, rfl⟩
  | ok c =>
    obtain ⟨d, hd, hwritten⟩ := inGrammar_of_scan hs
    rcases evaluate_written hd hwritten with ⟨-, hzero⟩ | ⟨-, x, hx⟩
    · rw [hzero] at h
      cases h
      exact .inr rfl
    · rw [hx] at h
      cases h

theorem formatFault_iff (s : String) :
    (∃ f, evaluate s = .error (.format f)) ↔ ¬ InGrammar s := by
  constructor
  · rintro ⟨f, hf⟩ ⟨d, hd, hs⟩
    rcases evaluate_written hd hs with ⟨-, h⟩ | ⟨-, x, h⟩
    · rw [h] at hf
      cases hf
    · rw [h] at hf
      cases hf
  · exact evaluate_not_inGrammar

theorem zeroDivisor_iff (s : String) :
    evaluate s = .error (.division .zeroDivisor) ↔
      ∃ d, IsExpression d ∧ written d = squeeze s.toList ∧ DividesByVanishing d := by
  constructor
  · intro h
    by_cases hgrammar : InGrammar s
    · obtain ⟨d, hd, hs⟩ := hgrammar
      rcases evaluate_written hd hs with ⟨hzero, -⟩ | ⟨-, x, hx⟩
      · exact ⟨d, hd, hs, hzero⟩
      · rw [hx] at h
        cases h
    · obtain ⟨f, hf⟩ := evaluate_not_inGrammar hgrammar
      rw [hf] at h
      cases h
  · rintro ⟨d, hd, hs, hzero⟩
    rcases evaluate_written hd hs with ⟨-, h⟩ | ⟨hnot, -⟩
    · exact h
    · exact absurd hzero hnot

theorem value_iff (s : String) :
    (∃ x, evaluate s = .ok x) ↔
      ∃ d, IsExpression d ∧ written d = squeeze s.toList ∧ ¬ DividesByVanishing d := by
  constructor
  · rintro ⟨x, hx⟩
    by_cases hgrammar : InGrammar s
    · obtain ⟨d, hd, hs⟩ := hgrammar
      rcases evaluate_written hd hs with ⟨-, h⟩ | ⟨hnot, -⟩
      · rw [h] at hx
        cases hx
      · exact ⟨d, hd, hs, hnot⟩
    · obtain ⟨f, hf⟩ := evaluate_not_inGrammar hgrammar
      rw [hf] at hx
      cases hx
  · rintro ⟨d, hd, hs, hnot⟩
    rcases evaluate_written hd hs with ⟨hzero, -⟩ | ⟨-, h⟩
    · exact absurd hzero hnot
    · exact h

/-- A text has one of three outcomes.  It has a format fault exactly if it is, without its
    blanks, no row of literals and operators, wherever a zero divisor stands before; else
    it divides by zero exactly if a division sign is followed by a literal of at most
    2^-1075; else it has a value.  What the scanner accepts never has a format fault in
    the reduction, no number or operator is looked up outside of its list there, and no
    divisor is the result of an operator. -/
theorem evaluate_outcomes (s : String) :
    ((∃ f, evaluate s = .error (.format f)) ↔ ¬ InGrammar s) ∧
    (evaluate s = .error (.division .zeroDivisor) ↔
      ∃ d, IsExpression d ∧ written d = squeeze s.toList ∧ DividesByVanishing d) ∧
    ((∃ x, evaluate s = .ok x) ↔
      ∃ d, IsExpression d ∧ written d = squeeze s.toList ∧ ¬ DividesByVanishing d) ∧
    ((∃ f, evaluate s = .error (.format f)) ∨ evaluate s = .error (.division .zeroDivisor) ∨
      ∃ x, evaluate s = .ok x) ∧
    ∀ c, scan s = .ok c →
      (∀ f, evaluateScanned c ≠ .error (.format f)) ∧
      (IndexedReduction.reduceLists applyOperator (c.values.map .double)
        (c.symbols.map Operator.text)).map (· >>= DoubleOperation.rounded)
          = some (evaluateScanned c) ∧
      ∀ fault, (reduceChain (Operand.applyToLiteral fault) (operands c)).map Operand.value
        = evaluateScanned c := by
  refine ⟨formatFault_iff s, zeroDivisor_iff s, value_iff s, ?_, ?_⟩
  · by_cases h : InGrammar s
    · obtain ⟨d, hd, hs⟩ := h
      rcases evaluate_written hd hs with ⟨-, hzero⟩ | ⟨-, hvalue⟩
      · exact .inr (.inl hzero)
      · exact .inr (.inr hvalue)
    · exact .inl (evaluate_not_inGrammar h)
  · intro c hc
    refine ⟨fun f hf => ?_, IndexedReduction.reduceLists_applyOperator _ _,
      fun fault => reduceChain_applyToLiteral fault c⟩
    rw [← evaluate_eq_of_scan hc] at hf
    exact (formatFault_iff s).1 ⟨f, hf⟩ (inGrammar_of_scan hc)

/-- A negative zero divides by zero too; the minus is the sign of a literal. -/
theorem evaluate_outcomes_negative_zero :
    ∃ c, scan "2*1/-.0-3" = .ok c ∧ (∀ f, evaluateScanned c ≠ .error (.format f)) ∧
      ∃ d, IsExpression d ∧ written d = squeeze "2*1/-.0-3".toList ∧ DividesByVanishing d := by
  obtain ⟨-, hzero, -, -, hscanned⟩ := evaluate_outcomes "2*1/-.0-3"
  have hok : (scan "2*1/-.0-3").isOk = true := by decide +kernel
  cases hc : scan "2*1/-.0-3" with
  | error f =>
    rw [hc] at hok
    cases hok
  | ok c => exact ⟨c, rfl, (hscanned c hc).1, hzero.1 (by decide +kernel)⟩

end EvaluationOutcomes

end InfixArithmetic
