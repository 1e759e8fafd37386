/-
  InfixArithmetic.Proofs.WrittenExpressions

  Expressions that are put together from written numbers.

  A number that is written positionally is written as a literal (`isLiteral_format`), so
  such numbers with operators between them make a text of the grammar, and the scanner
  divides it at the operators that were put in, although a minus may follow one.  Every
  other number is written with a letter, and no text of the grammar has one
  (`written_chars`).  Where the one kind ends and the other starts is a comparison of
  ordinals in `Layout`, and of exact magnitudes here (`isPositional_iff`).
-/

import InfixArithmetic.Proofs.EvaluationOutcomes
import InfixArithmetic.Proofs.RoundTrip

namespace InfixArithmetic

/-! ## The range of positional magnitudes -/

namespace Binary64

/-- Zero, or a magnitude from 10^-4 to just below 10^15. -/
def IsModerate : Binary64 → Prop
  | .finite _ n => n.val = 0 ∨ (10 : ℚ) ^ (-4 : Int) ≤ exactAbs n ∧ exactAbs n < 10 ^ 15
  | _ => False

/-- The ordinals of the magnitudes from a fraction on, if the fraction lies between two
    neighbouring magnitudes. -/
theorem le_exactAbs_iff {a b k : Nat} (hb : 0 < b) (hbelow : units k * b < a * unitsPerOne)
    (hfrom : a * unitsPerOne ≤ units (k + 1) * b) (n : Nat) :
    (a : ℚ) / b ≤ exactAbs n ↔ k < n := by
  -- Stated for any denominator, so that the one here is not evaluated.
  have hcross {u : Nat} (hu : (0 : ℚ) < u) :
      (a : ℚ) / b ≤ units n / u ↔ a * u ≤ units n * b := by
    have hbQ : (0 : ℚ) < b := by exact_mod_cast hb
    rw [div_le_div_iff₀ hbQ hu, ← Nat.cast_mul, ← Nat.cast_mul, Nat.cast_le]
  rw [exactAbs, hcross Decimal.unitsPerOne_pos]
  constructor
  · intro hle
    by_contra hk
    have hmono : units n * b ≤ units k * b :=
      Nat.mul_le_mul_right b (units_strictMono.monotone (by omega))
    omega
  · intro hk
    have hmono : units (k + 1) * b ≤ units n * b :=
      Nat.mul_le_mul_right b (units_strictMono.monotone hk)
    exact hfrom.trans hmono

end Binary64

namespace Layout

open Binary64 (IsModerate exactAbs le_exactAbs_iff)
open ExpressionGrammar (IsUnsigned isUnsigned_digits isUnsigned_point)
open Numeral (AllDigits allDigits_append allDigits_replicate_zero)

/-- The layout compares ordinals. -/
theorem isPositional_iff_ordinal (s : Bool) (n : Fin Binary64.overflow) :
    plain.isPositional (.finite s n) = true ↔
      n.val = 0 ∨ 0x3F1A36E2EB1C432D ≤ n.val ∧ n.val < 0x430C6BF526340000 := by
  have hpositional : plain.isPositional (.finite s n) = (n.val == 0 ||
      decide ((0x3F1A36E2EB1C432D : Int) ≤ n.val) && decide ((n.val : Int) < 0x430C6BF526340000)) :=
    rfl
  rw [hpositional, Bool.or_eq_true, Bool.and_eq_true, beq_iff_eq, decide_eq_true_eq,
    decide_eq_true_eq]
  omega

/-- The two bounds of the layout are the doubles next to 10^-4 and 10^15. -/
theorem isPositional_iff (s : Bool) (n : Fin Binary64.overflow) :
    plain.isPositional (.finite s n) = true ↔ IsModerate (.finite s n) := by
  have hfrom : (10 : ℚ) ^ (-4 : Int) ≤ exactAbs n ↔ 0x3F1A36E2EB1C432C < n.val := by
    have hbound : (10 : ℚ) ^ (-4 : Int) = ((1 : Nat) : ℚ) / (10000 : Nat) := by norm_num
    rw [hbound]
    exact le_exactAbs_iff (by decide) (by decide +kernel) (by decide +kernel) n
  have hbelow : exactAbs n < 10 ^ 15 ↔ n.val < 0x430C6BF526340000 := by
    have hbound : (10 : ℚ) ^ 15 = ((10 ^ 15 : Nat) : ℚ) / (1 : Nat) := by norm_num
    have hle : (10 : ℚ) ^ 15 ≤ exactAbs n ↔ 0x430C6BF52633FFFF < n.val := by
      rw [hbound]
      exact le_exactAbs_iff (by decide) (by decide +kernel) (by decide +kernel) n
    rw [← not_le, hle]
    omega
  rw [isPositional_iff_ordinal, IsModerate, hfrom, hbelow]
  omega

/-- Digits written positionally in the layout of results are an unsigned literal. -/
theorem isUnsigned_positional {digits : List Char} (hdigits : AllDigits digits)
    (hne : digits ≠ []) (first : Int) : IsUnsigned (plain.positional digits first) := by
  rw [positional]
  split
  next hsmall =>
    exact isUnsigned_point (allDigits_replicate_zero 1)
      (allDigits_append.2 ⟨allDigits_replicate_zero _, hdigits⟩) (by simp)
  next hlarge =>
    dsimp only
    split
    next hwhole =>
      have hmark : plain.wholeMark.toList = [] := rfl
      rw [hmark, List.append_nil]
      exact isUnsigned_digits (allDigits_append.2 ⟨hdigits, allDigits_replicate_zero _⟩)
        (List.append_ne_nil_of_left_ne_nil hne _)
    next hwhole =>
      have hsplit : AllDigits (digits.take (first.toNat + 1) ++ digits.drop (first.toNat + 1)) := by
        rw [List.take_append_drop]
        exact hdigits
      obtain ⟨htake, hdrop⟩ := allDigits_append.1 hsplit
      refine isUnsigned_point htake hdrop ?_
      rw [List.take_append_drop]
      exact hne

/-- Digits written with an exponent have its mark among them. -/
theorem mem_scientific (digits : List Char) (first : Int) :
    'E' ∈ plain.scientific digits first := by
  simp [scientific, plain]

end Layout

namespace WrittenExpressions

open Binary64 (IsModerate)
open Expression (scan evaluate reduce)
open ExpressionGrammar (IsLiteral IsExpression written)
open NumberText (format)
open Text (squeeze isBlank)

/-! ## Written numbers -/

theorem isLiteral_format {x : Binary64} (h : IsModerate x) : IsLiteral (format x).toList := by
  cases x with
  | nan => exact absurd h id
  | infinite s => exact absurd h id
  | finite s n =>
    have hmagnitude : ExpressionGrammar.IsUnsigned (Layout.plain.magnitude (.finite s n) n) := by
      rw [Layout.magnitude, if_pos ((Layout.isPositional_iff s n).2 h)]
      exact Layout.isUnsigned_positional (Numeral.allDigits_toDigits _) Nat.toDigits_ne_nil _
    rw [format, Layout.render, String.toList_ofList]
    cases s with
    | false => exact .unsigned hmagnitude
    | true => exact .minus hmagnitude

/-- A number out of the range is written with a letter. -/
theorem exists_letter_format {x : Binary64} (h : ¬ IsModerate x) :
    ∃ c ∈ (format x).toList, c = 'E' ∨ c = 'I' ∨ c = 'N' := by
  cases x with
  | nan => exact ⟨'N', by decide, .inr (.inr rfl)⟩
  | infinite s =>
    cases s with
    | false => exact ⟨'I', by decide, .inr (.inl rfl)⟩
    | true => exact ⟨'I', by decide, .inr (.inl rfl)⟩
  | finite s n =>
    refine ⟨'E', ?_, .inl rfl⟩
    rw [← Layout.isPositional_iff] at h
    rw [format, Layout.render, String.toList_ofList, Layout.magnitude, if_neg h]
    exact List.mem_append_right _ (Layout.mem_scientific _ _)

/-! ## Texts of the grammar -/

theorem written_chars {d : Chain Operator (List Char)} (hd : IsExpression d) :
    ∀ c ∈ written d, c.isDigit = true ∨ c = '.' ∨ ∃ o : Operator, c = o.symbol := by
  have hliteral {l : List Char} (hl : IsLiteral l) :
      ∀ c ∈ l, c.isDigit = true ∨ c = '.' ∨ ∃ o : Operator, c = o.symbol := by
    intro c hc
    cases hl with
    | unsigned h =>
      rcases h.chars c hc with hdigit | hpoint
      · exact .inl hdigit
      · exact .inr (.inl hpoint)
    | minus h =>
      rcases List.mem_cons.1 hc with rfl | hc
      · exact .inr (.inr ⟨.subtract, rfl⟩)
      · rcases h.chars c hc with hdigit | hpoint
        · exact .inl hdigit
        · exact .inr (.inl hpoint)
  intro c hc
  rcases List.mem_append.1 hc with hc | hc
  · exact hliteral hd.first c hc
  · obtain ⟨⟨o, l⟩, hlink, hc⟩ := List.mem_flatMap.1 hc
    rcases List.mem_cons.1 hc with rfl | hc
    · exact .inr (.inr ⟨o, rfl⟩)
    · exact hliteral (hd l (List.mem_cons_of_mem _ (List.mem_map_of_mem hlink))) c hc

theorem squeeze_written {d : Chain Operator (List Char)} (hd : IsExpression d) :
    squeeze (written d) = written d := by
  refine List.filter_eq_self.2 fun c hc => ?_
  rcases written_chars hd c hc with hdigit | rfl | ⟨o, rfl⟩
  · rw [Numeral.isBlank_of_isDigit hdigit]
    rfl
  · rfl
  · cases o <;> rfl

/-- A text with one of the letters is not scanned. -/
theorem scan_letter {s : String} (h : ∃ c ∈ s.toList, c = 'E' ∨ c = 'I' ∨ c = 'N') :
    ∃ f, scan s = .error f := by
  obtain ⟨c, hc, hletter⟩ := h
  cases hs : scan s with
  | error f => exact ⟨f, rfl⟩
  | ok scanned =>
    obtain ⟨d, hd, hwritten⟩ := EvaluationOutcomes.inGrammar_of_scan hs
    have hmem : c ∈ written d := by
      rw [hwritten]
      refine List.mem_filter.2 ⟨hc, ?_⟩
      rcases hletter with rfl | rfl | rfl <;> rfl
    exfalso
    rcases written_chars hd c hmem with hdigit | rfl | ⟨o, rfl⟩
    · rcases hletter with rfl | rfl | rfl <;> exact absurd hdigit (by decide)
    · exact absurd hletter (by decide)
    · cases o <;> exact absurd hletter (by decide)

/-! ## Numbers with operators between them -/

/-- Numbers as they are written, with operators between them. -/
def interleaved : List Binary64 → List Operator → String
  | [], _ => ""
  | x :: _, [] => format x
  | x :: xs, o :: os => format x ++ o.text ++ interleaved xs os

/-- What is put together is a text of the grammar, divided into the numbers and the
    operators. -/
theorem exists_written_interleaved {xs : List Binary64} {os : List Operator}
    (hlen : xs.length = os.length + 1) (hxs : ∀ x ∈ xs, IsModerate x) :
    ∃ d, IsExpression d ∧ written d = (interleaved xs os).toList ∧
      d.numbers = xs.map (fun x => (format x).toList) ∧ d.operators = os := by
  induction os generalizing xs with
  | nil =>
    obtain ⟨x, rfl⟩ := List.length_eq_one_iff.1 hlen
    have hx := isLiteral_format (hxs x (by simp))
    refine ⟨⟨(format x).toList, []⟩, ?_, ?_, rfl, rfl⟩
    · simpa [IsExpression, Chain.numbers] using hx
    · simp [written, ExpressionGrammar.writtenAfter, interleaved]
  | cons o os ih =>
    obtain ⟨x, xs, rfl⟩ := List.exists_cons_of_length_pos (by omega : 0 < xs.length)
    obtain ⟨hx, hrest⟩ := List.forall_mem_cons.1 hxs
    obtain ⟨d, hd, hwritten, hnumbers, hoperators⟩ := ih (by simpa using hlen) hrest
    refine ⟨d.cons (format x).toList o, ?_, ?_, ?_, ?_⟩
    · exact ExpressionGrammar.isExpression_cons.2 ⟨isLiteral_format hx, hd⟩
    · rw [ExpressionGrammar.written_cons, hwritten]
      simp [interleaved, Operator.text]
    · simpa [Chain.numbers, Chain.cons] using hnumbers
    · simpa [Chain.operators, Chain.cons] using hoperators

theorem scan_interleaved {xs : List Binary64} {os : List Operator}
    (hlen : xs.length = os.length + 1) (hxs : ∀ x ∈ xs, IsModerate x) :
    ∃ c, scan (interleaved xs os) = .ok c ∧ c.values = xs ∧ c.symbols = os := by
  obtain ⟨d, hd, hwritten, hnumbers, hoperators⟩ := exists_written_interleaved hlen hxs
  obtain ⟨c, hc, hvalues, hsymbols⟩ := ExpressionGrammar.scanFrom_written d hd 0
  have hsqueeze : squeeze (interleaved xs os).toList = written d := by
    rw [← hwritten, squeeze_written hd]
  refine ⟨c, ?_, ?_, hsymbols.trans hoperators⟩
  · rw [ExpressionGrammar.scan_eq_scanFrom (hsqueeze ▸ ExpressionGrammar.written_ne_nil hd),
      hsqueeze, hc]
  · -- Every literal is read as the number that it was written from.
    have hparse : d.numbers.map (fun l => NumberText.parse (.text (String.ofList l)))
        = xs.map Except.ok := by
      rw [hnumbers, List.map_map]
      refine List.map_congr_left fun x _ => ?_
      rw [Function.comp_apply, String.ofList_toList]
      exact NumberText.parse_text (Layout.plain_readable.parse?_render x)
    rw [hparse] at hvalues
    exact List.map_injective_iff.2 (fun _ _ => Except.ok.inj) hvalues

/-- Written numbers in the range of the positional layout, with operators between them,
    are scanned as the same numbers, to the last bit and to the sign of a zero, and the
    same operators, so their text has the value of the numbers and operators.  No number
    out of that range is scanned as it is written. -/
theorem scan_reads_written_numbers :
    (∀ (xs : List Binary64) (os : List Operator), xs.length = os.length + 1 →
      (∀ x ∈ xs, IsModerate x) →
        (∃ c, scan (interleaved xs os) = .ok c ∧ c.values = xs ∧ c.symbols = os) ∧
        evaluate (interleaved xs os) = reduce (xs.map .double) (os.map Operator.text)) ∧
    ∀ x : Binary64, ¬ IsModerate x → ∃ f, scan (format x) = .error f := by
  constructor
  · intro xs os hlen hxs
    obtain ⟨c, hc, hvalues, hsymbols⟩ := scan_interleaved hlen hxs
    refine ⟨⟨c, hc, hvalues, hsymbols⟩, ?_⟩
    rw [EvaluationOutcomes.evaluate_eq_of_scan hc, Expression.evaluateScanned, hvalues, hsymbols]
  · intro x hx
    exact scan_letter (exists_letter_format hx)

/-- A minus after an operator is read as a sign again, that of a zero too; the least
    magnitude of the range is read, and infinity is not. -/
theorem scan_reads_written_numbers_signs :
    interleaved [.finite true 0x3FF0000000000000, .finite true 0x3F1A36E2EB1C432D, .finite true 0]
        [.subtract, .multiply] = "-1--0.0001*-0" ∧
      evaluate "-1--0.0001*-0" = reduce ([.finite true 0x3FF0000000000000,
        .finite true 0x3F1A36E2EB1C432D, .finite true 0].map .double)
        ([.subtract, .multiply].map Operator.text) ∧
      ¬ IsModerate (.infinite true) ∧ ∃ f, scan (format (.infinite true)) = .error f := by
  have htext : interleaved [.finite true 0x3FF0000000000000, .finite true 0x3F1A36E2EB1C432D,
      .finite true 0] [.subtract, .multiply] = "-1--0.0001*-0" := by decide +kernel
  have hmoderate : ∀ x ∈ [.finite true 0x3FF0000000000000, .finite true 0x3F1A36E2EB1C432D,
      .finite true 0], IsModerate x := by
    intro x hx
    simp only [List.mem_cons, List.not_mem_nil, or_false] at hx
    rcases hx with rfl | rfl | rfl <;> exact (Layout.isPositional_iff _ _).1 (by decide +kernel)
  have hread := (scan_reads_written_numbers.1 _ [.subtract, .multiply] rfl hmoderate).2
  rw [htext] at hread
  exact ⟨htext, hread, id, scan_reads_written_numbers.2 _ id⟩

end WrittenExpressions

end InfixArithmetic
