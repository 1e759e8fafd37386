/-
  InfixArithmetic.Proofs.NumeralGrammar

  Which texts are numerals, and what number each of them denotes.

  A `DecimalNumeral` is a decimal number taken apart into sign, digits, point and exponent; it
  carries the conditions on its parts, so every one of them is written correctly and has an
  exact value.  The reader cuts a text into such parts from the left.  It finds the parts of
  every decimal numeral again (`read?_decimal`), since no part can start like the one before
  it goes on, and it accepts nothing else (`isNumeral_of_read?`).
-/

import InfixArithmetic.Operation.NumberText
import InfixArithmetic.Proofs.NearestValue
import InfixArithmetic.Proofs.Numerals

namespace InfixArithmetic

open Text (digitValue?)

namespace Numeral

/-! ## Runs of digits -/

/-- The number that a run of digits denotes: each digit counts ten times as much as the one
    after it. -/
def runValue : List Char → Nat
  | [] => 0
  | c :: cs => (digitValue? c).getD 0 * 10 ^ cs.length + runValue cs

variable {cs ds rest : List Char}

theorem runValue_append (cs ds : List Char) :
    runValue (cs ++ ds) = runValue cs * 10 ^ ds.length + runValue ds := by
  induction cs with
  | nil => simp [runValue]
  | cons c cs ih =>
    rw [List.cons_append, runValue, runValue, ih, List.length_append, pow_add]
    ring

/-- What is read of a text is the run that it starts with. -/
theorem exists_run (cs : List Char) :
    ∃ run rest, cs = run ++ rest ∧ IsRun run ∧
      takeDigits cs = (run.filterMap digitValue?, rest) := by
  induction cs with
  | nil => exact ⟨[], [], rfl, isRun_nil, rfl⟩
  | cons c cs ih =>
    rw [takeDigits]
    cases hc : digitValue? c with
    | none => exact ⟨[], c :: cs, rfl, isRun_nil, rfl⟩
    | some d =>
      obtain ⟨run, rest, rfl, hrun, hread⟩ := ih
      refine ⟨c :: run, rest, rfl, isRun_cons.2 ⟨by rw [hc]; rfl, hrun⟩, ?_⟩
      simp only [hread, List.filterMap_cons_some hc]

theorem foldl_digits (n : Nat) (ds : List Nat) :
    ds.foldl (fun n d => 10 * n + d) n = n * 10 ^ ds.length + ofDigits ds := by
  induction ds generalizing n with
  | nil => simp [ofDigits]
  | cons d ds ih =>
    have hdigit := ih (10 * 0 + d)
    rw [ofDigits, List.foldl_cons, List.foldl_cons, ih, hdigit, List.length_cons, pow_succ]
    ring

/-- The digits are read one after the other, with the same number in the end. -/
theorem ofDigits_filterMap (hcs : IsRun cs) :
    ofDigits (cs.filterMap digitValue?) = runValue cs := by
  induction cs with
  | nil => rfl
  | cons c cs ih =>
    rw [isRun_cons] at hcs
    obtain ⟨d, hd⟩ := Option.isSome_iff_exists.1 hcs.1
    rw [List.filterMap_cons_some hd, ofDigits, List.foldl_cons, foldl_digits, ih hcs.2,
      length_filterMap hcs.2, runValue, hd, Option.getD_some, Nat.mul_zero, Nat.zero_add]

/-! ## Signs and exponents -/

/-- Every text is read as a sign and a rest. -/
theorem exists_sign (cs : List Char) :
    ∃ (sign : Sign) (rest : List Char), cs = sign.text ++ rest ∧
      takeSign cs = (sign.isMinus, rest) := by
  rw [takeSign.eq_def]
  split
  · exact ⟨.minus, _, rfl, rfl⟩
  · exact ⟨.plus, _, rfl, rfl⟩
  · exact ⟨.none, _, rfl, rfl⟩

/-- The exponent of a number: a mark, a sign and at least one digit. -/
structure Exponent where
  mark : Char
  sign : Sign
  digits : List Char
  mark_eq : mark = 'e' ∨ mark = 'E'
  digits_isRun : IsRun digits
  digits_ne : digits ≠ []

namespace Exponent

def text (e : Exponent) : List Char := e.mark :: (e.sign.text ++ e.digits)

def value (e : Exponent) : Int := e.sign.apply (runValue e.digits)

end Exponent

/-- The text of an exponent, which may be left out. -/
def exponentText (e : Option Exponent) : List Char := e.elim [] Exponent.text

/-- An exponent that is left out is zero. -/
def exponentValue (e : Option Exponent) : Int := e.elim 0 Exponent.value

theorem stopsDigits_exponentText (e : Option Exponent) : StopsDigits (exponentText e) := by
  cases e with
  | none => exact stopsDigits_nil
  | some e =>
    refine stopsDigits_cons.2 ?_
    rcases e.mark_eq with h | h <;> rw [h] <;> decide

theorem readExponent?_exponentText (e : Option Exponent) :
    readExponent? (exponentText e) = some (exponentValue e) := by
  cases e with
  | none => rfl
  | some e =>
    rw [exponentText, Option.elim_some, Exponent.text,
      readExponent?_run e.sign e.mark_eq e.digits_isRun e.digits_ne,
      ofDigits_filterMap e.digits_isRun]
    rfl

/-- Only an exponent is read as one. -/
theorem exists_exponent {e : Int} (h : readExponent? cs = some e) :
    ∃ x : Option Exponent, cs = exponentText x := by
  cases cs with
  | nil => exact ⟨none, rfl⟩
  | cons c cs =>
    rw [readExponent?, Option.ite_none_right_eq_some] at h
    obtain ⟨hmark, h⟩ := h
    obtain ⟨sign, cs, rfl, hsign⟩ := exists_sign cs
    obtain ⟨run, rest, rfl, hrun, hread⟩ := exists_run cs
    rw [hsign] at h
    simp only [hread] at h
    -- There are digits, and nothing is left after them, in one case of the three only.
    split at h
    next => cases h
    next hne heq =>
      obtain ⟨hdigits, rfl⟩ := Prod.mk.inj heq
      subst hdigits
      rw [List.append_nil]
      exact ⟨some ⟨c, sign, run, hmark, hrun, mt (filterMap_eq_nil_iff hrun).2 hne⟩, rfl⟩
    next => cases h

/-! ## Decimal numerals -/

/-- A decimal number in parts: an optional sign, digits with at most one point, and an
    exponent that may be left out. -/
structure DecimalNumeral where
  sign : Sign
  whole : List Char
  fraction : Option (List Char)
  exponent : Option Exponent
  whole_isRun : IsRun whole
  fraction_isRun : IsRun (fraction.getD [])
  digits_ne : whole ++ fraction.getD [] ≠ []

/-- A point and the digits after it, if there is a point. -/
def fractionText (fraction : Option (List Char)) : List Char := fraction.elim [] ('.' :: ·)

namespace DecimalNumeral

/-- The digits after the point. -/
def decimals (t : DecimalNumeral) : List Char := t.fraction.getD []

/-- The text without the sign. -/
def unsigned (t : DecimalNumeral) : List Char :=
  t.whole ++ (fractionText t.fraction ++ exponentText t.exponent)

def text (t : DecimalNumeral) : List Char := t.sign.text ++ t.unsigned

/-- The number without the sign. -/
def exact (t : DecimalNumeral) : ℚ :=
  (runValue t.whole + runValue t.decimals / 10 ^ t.decimals.length)
    * 10 ^ exponentValue t.exponent

end DecimalNumeral

theorem takeFraction_fractionText {fraction : Option (List Char)}
    (h : IsRun (fraction.getD [])) (e : Option Exponent) :
    takeFraction (fractionText fraction ++ exponentText e)
      = ((fraction.getD []).filterMap digitValue?, exponentText e) := by
  cases fraction with
  | some ds => exact takeDigits_run h (stopsDigits_exponentText e)
  | none =>
    cases e with
    | none => rfl
    | some e =>
      show takeFraction (e.mark :: _) = ([], e.mark :: _)
      rw [takeFraction]
      intro cs heq
      have hmark := e.mark_eq
      rw [(List.cons.inj heq).1] at hmark
      exact absurd hmark (by decide)

theorem stopsDigits_fractionText (fraction : Option (List Char)) (e : Option Exponent) :
    StopsDigits (fractionText fraction ++ exponentText e) := by
  cases fraction with
  | none => exact stopsDigits_exponentText e
  | some ds => exact stopsDigits_cons.2 (by decide)

/-- The digits, the point and the exponent are found again. -/
theorem readDecimal?_unsigned (t : DecimalNumeral) :
    ∃ d, readDecimal? t.unsigned = some d ∧ d.exact = t.exact := by
  have hread := readDecimal?_append t.whole_isRun t.fraction_isRun
    (stopsDigits_fractionText t.fraction t.exponent)
    (takeFraction_fractionText t.fraction_isRun t.exponent)
  rw [if_neg t.digits_ne, readExponent?_exponentText, Option.map_some,
    ofDigits_filterMap (isRun_append.2 ⟨t.whole_isRun, t.fraction_isRun⟩),
    runValue_append] at hread
  refine ⟨_, hread, ?_⟩
  -- The reader takes the decimals for whole digits and lowers the exponent by their number.
  have hten : (10 : ℚ) ≠ 0 := by norm_num
  rw [Decimal.exact, DecimalNumeral.exact, DecimalNumeral.decimals, zpow_sub₀ hten, zpow_natCast]
  push_cast
  field_simp

/-- Every text is read as a fraction and a rest. -/
theorem exists_fraction (cs : List Char) :
    ∃ (fraction : Option (List Char)) (rest : List Char), cs = fractionText fraction ++ rest ∧
      IsRun (fraction.getD []) ∧
        takeFraction cs = ((fraction.getD []).filterMap digitValue?, rest) := by
  rw [takeFraction.eq_def]
  split
  next cs =>
    obtain ⟨run, rest, rfl, hrun, hread⟩ := exists_run cs
    exact ⟨some run, rest, rfl, hrun, hread⟩
  next => exact ⟨none, cs, rfl, isRun_nil, rfl⟩

/-- Nothing else is read. -/
theorem exists_unsigned {d : Decimal} (h : readDecimal? cs = some d) (sign : Sign) :
    ∃ t : DecimalNumeral, t.sign = sign ∧ t.unsigned = cs := by
  obtain ⟨whole, rest, rfl, hwhole, hread⟩ := exists_run cs
  obtain ⟨fraction, rest, rfl, hfraction, hpoint⟩ := exists_fraction rest
  rw [readDecimal?, hread] at h
  simp only [hpoint, ← List.filterMap_append, Option.ite_none_left_eq_some,
    Option.map_eq_some_iff] at h
  obtain ⟨hne, e, he, -⟩ := h
  obtain ⟨exponent, rfl⟩ := exists_exponent he
  have hdigits := isRun_append.2 ⟨hwhole, hfraction⟩
  exact ⟨⟨sign, whole, fraction, exponent, hwhole, hfraction,
    mt (filterMap_eq_nil_iff hdigits).2 hne⟩, rfl, rfl⟩

/-! ## Words -/

theorem toLower_of_not_capital {c : Char} (h : ¬ (65 ≤ c.toNat ∧ c.toNat ≤ 90)) :
    c.toLower = c :=
  dif_neg h

/-- A capital letter is that of the small one that it is lowered to. -/
theorem toUpper_toLower {c : Char} (h : 65 ≤ c.toNat ∧ c.toNat ≤ 90) :
    c.toLower.toUpper = c := by
  have hall : ∀ n < 26, (Char.ofNat (65 + n)).toLower.toUpper = Char.ofNat (65 + n) := by decide
  obtain ⟨n, hn⟩ : ∃ n, c.toNat = 65 + n := ⟨c.toNat - 65, by omega⟩
  rw [← Char.ofNat_toNat c, hn]
  exact hall n (by omega)

theorem toLower_toUpper {w : Char} (h : 97 ≤ w.toNat ∧ w.toNat ≤ 122) :
    w.toUpper.toLower = w := by
  have hall : ∀ n < 26, (Char.ofNat (97 + n)).toUpper.toLower = Char.ofNat (97 + n) := by decide
  obtain ⟨n, hn⟩ : ∃ n, w.toNat = 97 + n := ⟨w.toNat - 97, by omega⟩
  rw [← Char.ofNat_toNat w, hn]
  exact hall n (by omega)

theorem toLower_eq_iff {c w : Char} (hw : w.isLower = true) :
    c.toLower = w ↔ c = w ∨ c = w.toUpper := by
  have hsmall : 97 ≤ w.toNat ∧ w.toNat ≤ 122 := by
    obtain ⟨hlow, hhigh⟩ := Bool.and_eq_true_iff.1 hw
    exact ⟨of_decide_eq_true hlow, of_decide_eq_true hhigh⟩
  constructor
  · rintro rfl
    by_cases hc : 65 ≤ c.toNat ∧ c.toNat ≤ 90
    · exact .inr (toUpper_toLower hc).symm
    · exact .inl (toLower_of_not_capital hc).symm
  · rintro (rfl | rfl)
    · exact toLower_of_not_capital (by omega)
    · exact toLower_toUpper hsmall

/-- A word with each of its letters as a small or as a capital letter. -/
def IsWord (word : String) (cs : List Char) : Prop :=
  List.Forall₂ (fun w c => c = w ∨ c = w.toUpper) word.toList cs

theorem isWord_iff {word : String} (h : word.toList.all Char.isLower = true) :
    IsWord word cs ↔ cs.map Char.toLower = word.toList := by
  rw [List.all_eq_true] at h
  rw [IsWord]
  generalize word.toList = ws at h ⊢
  induction ws generalizing cs with
  | nil => rw [List.forall₂_nil_left_iff, List.map_eq_nil_iff]
  | cons w ws ih =>
    rw [List.forall_mem_cons] at h
    rw [List.forall₂_cons_left_iff, List.map_eq_cons_iff]
    simp only [toLower_eq_iff h.1, ih h.2]
    constructor
    · rintro ⟨c, rest, hc, hrest, rfl⟩
      exact ⟨c, rest, rfl, hc, hrest⟩
    · rintro ⟨c, rest, rfl, hc, hrest⟩
      exact ⟨c, rest, hc, hrest, rfl⟩

/-- The texts of infinity, without a sign. -/
def IsInfinityWord (cs : List Char) : Prop := IsWord "inf" cs ∨ IsWord "infinity" cs

theorem isInfinityWord_iff : IsInfinityWord cs ↔ cs.map Char.toLower ∈ infinityWords := by
  rw [IsInfinityWord, isWord_iff rfl, isWord_iff rfl]
  simp [infinityWords]

theorem isWord_nan_iff : IsWord "nan" cs ↔ cs.map Char.toLower = "nan".toList :=
  isWord_iff rfl

/-! ## Complete texts -/

/-- The texts that denote a number: a decimal numeral, or a word with an optional sign. -/
inductive IsNumeral : List Char → Prop
  | decimal (t : DecimalNumeral) : IsNumeral t.text
  | infinity (sign : Sign) {cs : List Char} (h : IsInfinityWord cs) : IsNumeral (sign.text ++ cs)
  | nan (sign : Sign) {cs : List Char} (h : IsWord "nan" cs) : IsNumeral (sign.text ++ cs)

/-- The words start with a letter, so a sign is read before them. -/
theorem takeSign_word (sign : Sign) (h : IsInfinityWord cs ∨ IsWord "nan" cs) :
    takeSign (sign.text ++ cs) = (sign.isMinus, cs) := by
  have hfirst {word : String} (w : Char) {ws : List Char} (hword : word.toList = w :: ws)
      (h : IsWord word cs) : ∀ c ∈ cs.head?, c = w ∨ c = w.toUpper := by
    rw [IsWord, hword, List.forall₂_cons_left_iff] at h
    obtain ⟨c, rest, hc, -, rfl⟩ := h
    rintro _ ⟨⟩
    exact hc
  refine takeSign_text sign fun c hc => ?_
  rcases h with (hinf | hinfinity) | hnan
  · rcases hfirst 'i' rfl hinf c hc with rfl | rfl <;> decide
  · rcases hfirst 'i' rfl hinfinity c hc with rfl | rfl <;> decide
  · rcases hfirst 'n' rfl hnan c hc with rfl | rfl <;> decide

theorem read?_infinity (sign : Sign) (h : IsInfinityWord cs) :
    read? (sign.text ++ cs) = some (infinite sign.isMinus) := by
  rw [read?, takeSign_word sign (.inl h)]
  exact if_pos (isInfinityWord_iff.1 h)

theorem read?_nan (sign : Sign) (h : IsWord "nan" cs) : read? (sign.text ++ cs) = some nan := by
  rw [read?, takeSign_word sign (.inr h)]
  simp only [isWord_nan_iff.1 h]
  rfl

/-- A decimal numeral starts with a digit or the point. -/
theorem startsUnsigned_unsigned (t : DecimalNumeral) : StartsUnsigned t.unsigned := by
  obtain ⟨sign, whole, fraction, exponent, hwhole, -, hne⟩ := t
  rw [DecimalNumeral.unsigned]
  cases whole with
  | cons d whole =>
    rintro c ⟨⟩
    exact .inl (isRun_cons.1 hwhole).1
  | nil =>
    cases fraction with
    | some ds =>
      rintro c ⟨⟩
      exact .inr rfl
    -- Without a point only an exponent is left, which is no number.
    | none => exact absurd rfl hne

theorem read?_decimal (t : DecimalNumeral) :
    ∃ d, read? t.text = some (decimal t.sign.isMinus d) ∧ d.exact = t.exact := by
  obtain ⟨d, hd, hexact⟩ := readDecimal?_unsigned t
  refine ⟨d, ?_, hexact⟩
  rw [DecimalNumeral.text, (startsUnsigned_unsigned t).read? t.sign, hd, Option.map_some]

/-- Nothing but numerals is read. -/
theorem isNumeral_of_read? {x : Numeral} (h : read? cs = some x) : IsNumeral cs := by
  obtain ⟨sign, rest, rfl, hsign⟩ := exists_sign cs
  simp only [read?, hsign] at h
  split at h
  next hinf => exact .infinity sign (isInfinityWord_iff.2 hinf)
  next =>
    split at h
    next hnan => exact .nan sign (isWord_nan_iff.2 hnan)
    next =>
      obtain ⟨d, hd, -⟩ := Option.map_eq_some_iff.1 h
      obtain ⟨t, rfl, rfl⟩ := exists_unsigned hd sign
      exact .decimal t

theorem read?_eq_none_iff : read? cs = none ↔ ¬ IsNumeral cs := by
  constructor
  · intro h hnumeral
    cases hnumeral with
    | decimal t =>
      obtain ⟨d, hd, -⟩ := read?_decimal t
      rw [hd] at h
      cases h
    | infinity sign hword => simp [read?_infinity sign hword] at h
    | nan sign hword => simp [read?_nan sign hword] at h
  · exact fun h => Option.eq_none_iff_forall_ne_some.2 fun x hx => h (isNumeral_of_read? hx)

/-! ## Underscores -/

theorem notMem_run {c : Char} (hc : digitValue? c = none) (hcs : IsRun cs) : c ∉ cs := by
  intro hmem
  simpa [hc] using hcs c hmem

/-- No part of a numeral has an underscore. -/
theorem IsNumeral.underscore_notMem (h : IsNumeral cs) : '_' ∉ cs := by
  have hsign (sign : Sign) : '_' ∉ sign.text := by cases sign <;> decide
  have hrun {ds : List Char} (hds : IsRun ds) : '_' ∉ ds := notMem_run (by decide) hds
  have hword {word : String} (hlower : word.toList.all Char.isLower = true)
      (hnotMem : '_' ∉ word.toList) {ds : List Char} (hds : IsWord word ds) : '_' ∉ ds := by
    intro hmem
    rw [isWord_iff hlower] at hds
    exact hnotMem (hds ▸ List.mem_map.2 ⟨'_', hmem, rfl⟩)
  cases h with
  | decimal t =>
    have hexponent : '_' ∉ exponentText t.exponent := by
      cases t.exponent with
      | none => exact List.not_mem_nil
      | some e =>
        have hmark : '_' ≠ e.mark := by
          rcases e.mark_eq with h | h <;> rw [h] <;> decide
        simp [exponentText, Exponent.text, hmark, hsign, hrun e.digits_isRun]
    have hfraction : '_' ∉ fractionText t.fraction := by
      have hdigits := hrun t.fraction_isRun
      cases hf : t.fraction with
      | none => exact List.not_mem_nil
      | some ds => simpa [fractionText, hf] using hdigits
    simp [DecimalNumeral.text, DecimalNumeral.unsigned, hsign, hrun t.whole_isRun, hfraction,
      hexponent]
  | infinity sign h =>
    rcases h with h | h
    all_goals simp [hsign, hword rfl (by decide) h]
  | nan sign h => simp [hsign, hword rfl (by decide) h]

end Numeral

namespace Text

/-- A character that is no blank is not trimmed. -/
theorem mem_trim {c : Char} {cs : List Char} (hc : isBlank c = false) (h : c ∈ cs) :
    c ∈ trim cs := by
  have hdrop {ds : List Char} (hds : c ∈ ds) : c ∈ ds.dropWhile isBlank := by
    rw [← List.takeWhile_append_dropWhile (p := isBlank) (l := ds), List.mem_append] at hds
    refine hds.resolve_left fun hmem => ?_
    simpa [hc] using List.all_eq_true.1 List.all_takeWhile c hmem
  rw [trim, trimBy, List.mem_reverse]
  exact hdrop (List.mem_reverse.2 (hdrop h))

end Text

namespace NumberText

open Binary64 (RoundsTo)
open Numeral (Sign DecimalNumeral IsInfinityWord IsWord IsNumeral)

/-- A text is refused if the blanks around it leave no numeral, and there is no other fault. -/
theorem parse_eq_error_iff {s : String} {f : Fault} :
    parse (.text s) = .error f ↔
      f = .format (.notNumeric (.text s)) ∧ ¬ IsNumeral (Text.trim s.toList) := by
  rw [← Numeral.read?_eq_none_iff, parse, Numeral.parse?]
  cases Numeral.read? (Text.trim s.toList) with
  | none => exact ⟨fun h => ⟨(Except.error.inj h).symm, rfl⟩, fun h => congrArg _ h.1.symm⟩
  | some x =>
    refine iff_of_false (fun h => ?_) fun h => ?_
    · cases h
    · cases h.2

theorem parse_of_read? {s : String} {cs : List Char} {x : Numeral}
    (hcs : cs = Text.trim s.toList) (hread : Numeral.read? cs = some x) :
    parse (.text s) = .ok x.toBinary64 := by
  rw [parse, Numeral.parse?, ← hcs, hread]
  rfl

/-- A text is read as a number if and only if it is a numeral between blanks, and so has no
    underscore.  A decimal numeral of any length is read as the value that its exact number is
    rounded to, with its sign. -/
theorem parse_rounds_numerals (s : String) :
    (∀ f, parse (.text s) = .error f ↔ f = .format (.notNumeric (.text s)) ∧
      ('_' ∈ s.toList ∨ ¬ IsNumeral (Text.trim s.toList))) ∧
    (∀ t : DecimalNumeral, t.text = Text.trim s.toList → ∃ x, parse (.text s) = .ok x ∧
      (∀ y, RoundsTo t.sign.isMinus t.exact y ↔ y = x) ∧
      x.isNegative = t.sign.isMinus ∧
      (x = .infinite t.sign.isMinus ↔ 2 ^ 1024 - 2 ^ 970 ≤ t.exact) ∧
      (x.isZero = true ↔ t.exact ≤ 2 ^ (-1075 : Int))) ∧
    ∀ (sign : Sign) (cs : List Char), sign.text ++ cs = Text.trim s.toList →
      (IsInfinityWord cs → parse (.text s) = .ok (.infinite sign.isMinus)) ∧
      (IsWord "nan" cs → parse (.text s) = .ok .nan) := by
  refine ⟨fun f => ?_, fun t ht => ?_, fun sign cs hcs => ⟨fun h => ?_, fun h => ?_⟩⟩
  · -- An underscore is no blank, so it is not trimmed.
    have hunderscore (h : '_' ∈ s.toList) : ¬ IsNumeral (Text.trim s.toList) :=
      fun hnumeral => hnumeral.underscore_notMem (Text.mem_trim (by decide) h)
    rw [parse_eq_error_iff, or_iff_right_of_imp hunderscore]
  · obtain ⟨d, hread, hexact⟩ := Numeral.read?_decimal t
    have hiff (y : Binary64) :
        RoundsTo t.sign.isMinus t.exact y ↔ y = d.toBinary64 t.sign.isMinus := by
      rw [← hexact, ← Decimal.toBinary64_eq_iff, eq_comm]
    have hrounds := (hiff _).2 rfl
    refine ⟨_, parse_of_read? ht hread, hiff, hrounds.isNegative_eq, ?_, hrounds.isZero_iff⟩
    rw [eq_comm]
    exact (hiff _).symm.trans (and_iff_right rfl)
  · exact parse_of_read? hcs (Numeral.read?_infinity sign h)
  · exact parse_of_read? hcs (Numeral.read?_nan sign h)

/-- A negative zero in another script, with an exponent whose power of ten is too large to
    compute; an underscore between digits; a word in mixed case. -/
theorem parse_rounds_numerals_zero_underscore_word :
    parse (.text "\u2003-٠.e999999999999\n") = .ok (.finite true 0) ∧
      parse (.text "1_0") = .error (.format (.notNumeric (.text "1_0"))) ∧
      parse (.text "+iNf") = .ok (.infinite false) := by
  refine ⟨?_, ?_, ?_⟩
  · let exponent : Numeral.Exponent :=
      ⟨'e', .none, "999999999999".toList, .inl rfl, by decide, by decide⟩
    let t : DecimalNumeral := ⟨.minus, ['٠'], some [], some exponent,
      by decide, Numeral.isRun_nil, by decide⟩
    have ht : t.text = Text.trim "\u2003-٠.e999999999999\n".toList := by decide +kernel
    obtain ⟨x, hx, -, hnegative, -, hiff⟩ := (parse_rounds_numerals _).2.1 t ht
    -- The exponent is of no importance.
    have hexact : t.exact = 0 := by
      have hwhole : Numeral.runValue t.whole = 0 := by decide
      have hdecimals : Numeral.runValue t.decimals = 0 := by decide
      rw [DecimalNumeral.exact, hwhole, hdecimals]
      simp
    rw [hexact] at hiff
    have hzero := hiff.2 (by positivity)
    rw [hx]
    cases x with
    | nan => cases hzero
    | infinite s => cases hzero
    | finite s n =>
      obtain rfl : s = true := hnegative
      obtain rfl : n = 0 := Fin.ext (eq_of_beq hzero)
      rfl
  · exact ((parse_rounds_numerals "1_0").1 _).2 ⟨rfl, .inl (by decide)⟩
  · exact ((parse_rounds_numerals "+iNf").2.2 .plus "iNf".toList (by decide +kernel)).1
      (.inl ((Numeral.isWord_iff rfl).2 (by decide)))

end NumberText

end InfixArithmetic
