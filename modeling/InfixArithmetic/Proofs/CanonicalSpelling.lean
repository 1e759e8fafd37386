/-
  InfixArithmetic.Proofs.CanonicalSpelling

  Results are written canonically and with the fewest digits.

  The layout of results is followed once, from the digits and the place of the first one to
  a spelling in parts (`ofPositional`, `ofScientific`), which keeps the text and has no
  superfluous zero.  The digits are `Decimal.shortest` without zeros at the end, so the zeros
  that the layout adds are the needed ones, and `Decimal.significantDigits_shortest_le` says
  that no decimal with fewer digits is read as the same value.
-/

import InfixArithmetic.Proofs.Spelling
import InfixArithmetic.Proofs.WrittenExpressions

namespace InfixArithmetic

open Numeral (AllDigits StartsNonzero EndsNonzero Denotes allDigits_append allDigits_toDigits
  allDigits_replicate_zero)
open Layout (plain)

/-! ## The digits that are written -/

namespace Decimal

open Binary64 (overflow)

/-- The decimal that is written for a magnitude. -/
def written (ordinal : Nat) : Decimal := if ordinal = 0 then ⟨0, 0⟩ else shortest ordinal

theorem ordinal_written {n : Nat} (hn : n < overflow) : (written n).ordinal = n := by
  rw [written]
  split
  next hzero => exact hzero.symm
  next hzero => exact ordinal_shortest (Nat.pos_of_ne_zero hzero) hn

theorem written_trailing {n : Nat} (hzero : n ≠ 0) (hn : n < overflow) :
    (written n).digits % 10 ≠ 0 := by
  have hordinal := ordinal_written hn
  rw [written, if_neg hzero] at hordinal ⊢
  rw [shortest] at hordinal ⊢
  -- Without digits the decimal would be read as zero.
  refine (normalize_trailing _).resolve_left fun hdigits => ?_
  rw [ordinal, if_pos hdigits] at hordinal
  exact hzero hordinal.symm

end Decimal

/-! ## From digits to a spelling -/

namespace Numeral

theorem startsNonzero_take {cs : List Char} (h : StartsNonzero cs) (k : Nat) :
    StartsNonzero (cs.take (k + 1)) := by
  rw [StartsNonzero, List.head?_take, if_neg (Nat.succ_ne_zero k)]
  exact h

theorem endsNonzero_nil : EndsNonzero [] := by simp [EndsNonzero]

theorem endsNonzero_drop {cs : List Char} (h : EndsNonzero cs) (k : Nat) :
    EndsNonzero (cs.drop k) := by
  rw [EndsNonzero, List.getLast?_drop]
  split
  · exact Option.some_ne_none _ ∘ Eq.symm
  · exact h

theorem endsNonzero_append (cs : List Char) {ds : List Char} (hne : ds ≠ [])
    (h : EndsNonzero ds) : EndsNonzero (cs ++ ds) := by
  rw [EndsNonzero, List.getLast?_append_of_ne_nil _ hne]
  exact h

end Numeral

namespace Spelling

/-- Digits whose first one stands for `10 ^ first`, with the point in its place. -/
def ofPositional (negative : Bool) (digits : List Char) (first : Int) : Spelling :=
  if first < 0 then
    ⟨negative, ['0'], List.replicate (-first - 1).toNat '0' ++ digits, none⟩
  else if digits.length ≤ first.toNat + 1 then
    ⟨negative, digits ++ List.replicate (first.toNat + 1 - digits.length) '0', [], none⟩
  else ⟨negative, digits.take (first.toNat + 1), digits.drop (first.toNat + 1), none⟩

/-- Digits with the point after the first one, and an exponent. -/
def ofScientific (negative : Bool) (digits : List Char) (first : Int) : Spelling :=
  ⟨negative, digits.take 1, digits.drop 1,
    some (decide (first < 0), (Nat.toDigits 10 first.natAbs).leftpad 2 '0')⟩

variable {digits : List Char}

theorem unsigned_ofPositional (s : Bool) (hne : digits ≠ []) (first : Int) :
    (ofPositional s digits first).unsigned = plain.positional digits first := by
  rw [ofPositional, Layout.positional]
  split
  next hsmall =>
    rw [unsigned, if_neg (List.append_ne_nil_of_right_ne_nil _ hne), exponentChars,
      List.append_nil]
    rfl
  next hlarge =>
    dsimp only
    split
    next hwhole =>
      have hmark : plain.wholeMark.toList = [] := rfl
      rw [hmark, unsigned, if_pos rfl, exponentChars, List.append_nil]
    next hwhole =>
      have hdrop : digits.drop (first.toNat + 1) ≠ [] := by
        rw [ne_eq, List.drop_eq_nil_iff]
        exact hwhole
      rw [unsigned, if_neg hdrop, exponentChars, List.append_nil]

theorem unsigned_ofScientific (s : Bool) (digits : List Char) (first : Int) :
    (ofScientific s digits first).unsigned = plain.scientific digits first := by
  rw [unsigned, ofScientific, Layout.scientific]
  simp only [exponentChars, decide_eq_true_eq]
  rfl

theorem isPositional_ofPositional (s : Bool) (hdigits : AllDigits digits)
    (hleading : StartsNonzero digits) (htrailing : EndsNonzero digits) (first : Int) :
    (ofPositional s digits first).IsPositional := by
  rw [ofPositional]
  split
  next hsmall =>
    exact {
      whole := allDigits_replicate_zero 1
      leading := .inl rfl
      fraction := allDigits_append.2 ⟨allDigits_replicate_zero _, hdigits⟩
      trailing := Numeral.endsNonzero_append _ hleading.ne_nil htrailing
      exponent := rfl }
  next hlarge =>
    split
    next hwhole =>
      exact {
        whole := allDigits_append.2 ⟨hdigits, allDigits_replicate_zero _⟩
        leading := .inr (Numeral.startsNonzero_append hleading _)
        fraction := Numeral.allDigits_nil
        trailing := Numeral.endsNonzero_nil
        exponent := rfl }
    next hwhole =>
      exact {
        whole := fun c hc => hdigits c (List.mem_of_mem_take hc)
        leading := .inr (Numeral.startsNonzero_take hleading _)
        fraction := fun c hc => hdigits c (List.mem_of_mem_drop hc)
        trailing := Numeral.endsNonzero_drop htrailing _
        exponent := rfl }

/-- The exponent is filled up to two digits, and longer ones do not start with a zero. -/
theorem leftpad_toDigits (n : Nat) :
    AllDigits ((Nat.toDigits 10 n).leftpad 2 '0') ∧ 2 ≤ ((Nat.toDigits 10 n).leftpad 2 '0').length ∧
      (2 < ((Nat.toDigits 10 n).leftpad 2 '0').length →
        StartsNonzero ((Nat.toDigits 10 n).leftpad 2 '0')) := by
  refine ⟨allDigits_append.2 ⟨allDigits_replicate_zero _, allDigits_toDigits n⟩, ?_, ?_⟩
  · rw [List.length_leftpad]
    exact Nat.le_max_left _ _
  · rw [List.length_leftpad]
    intro hlong
    -- Nothing was filled up, so these are the digits of a number with three of them.
    have hlength : 2 < (Nat.toDigits 10 n).length := by omega
    have hn : n ≠ 0 := by
      rintro rfl
      exact absurd hlength (by decide)
    rw [List.leftpad, Nat.sub_eq_zero_of_le hlength.le, List.replicate_zero, List.nil_append]
    exact Numeral.startsNonzero_toDigits hn

theorem isScientific_ofScientific (s : Bool) (hdigits : AllDigits digits)
    (hleading : StartsNonzero digits) (htrailing : EndsNonzero digits) (first : Int) :
    (ofScientific s digits first).IsScientific where
  whole := fun c hc => hdigits c (List.mem_of_mem_take hc)
  single := by
    rw [ofScientific, List.length_take]
    exact Nat.min_eq_left (List.length_pos_of_ne_nil hleading.ne_nil)
  leading := Numeral.startsNonzero_take hleading 0
  fraction := fun c hc => hdigits c (List.mem_of_mem_drop hc)
  trailing := Numeral.endsNonzero_drop htrailing 1
  exponent := ⟨_, rfl, leftpad_toDigits _⟩

/-! ## The spelling of a result -/

/-- The spelling that a finite value has as a result. -/
def ofFinite (s : Bool) (n : Fin Binary64.overflow) : Spelling :=
  let digits := Nat.toDigits 10 (Decimal.written n).digits
  let first := (Decimal.written n).exponent + digits.length - 1
  if plain.isPositional (.finite s n) then ofPositional s digits first
  else ofScientific s digits first

variable {s : Bool} {n : Fin Binary64.overflow}

theorem negative_ofFinite (s : Bool) (n : Fin Binary64.overflow) : (ofFinite s n).negative = s := by
  simp only [ofFinite, ofPositional, ofScientific]
  split_ifs <;> rfl

theorem unsigned_ofFinite (s : Bool) (n : Fin Binary64.overflow) :
    (ofFinite s n).unsigned = plain.magnitude (.finite s n) n := by
  rw [ofFinite, Layout.magnitude]
  split
  · exact unsigned_ofPositional s Nat.toDigits_ne_nil _
  · exact unsigned_ofScientific s _ _

theorem text_ofFinite (s : Bool) (n : Fin Binary64.overflow) :
    (ofFinite s n).text = NumberText.format (.finite s n) := by
  rw [text, negative_ofFinite, unsigned_ofFinite]
  rfl

/-- Zero has no first digit of its own and is written as the single zero. -/
theorem isPositional_ofFinite (h : Binary64.IsModerate (.finite s n)) :
    (ofFinite s n).IsPositional := by
  rw [← Layout.isPositional_iff] at h
  rw [ofFinite, if_pos h]
  by_cases hzero : n.val = 0
  · rw [hzero]
    exact {
      whole := allDigits_replicate_zero 1
      leading := .inl rfl
      fraction := Numeral.allDigits_nil
      trailing := Numeral.endsNonzero_nil
      exponent := rfl }
  · have htrailing := Decimal.written_trailing hzero n.isLt
    exact isPositional_ofPositional s (allDigits_toDigits _)
      (Numeral.startsNonzero_toDigits (by omega)) (Numeral.endsNonzero_toDigits htrailing) _

theorem isScientific_ofFinite (h : ¬ Binary64.IsModerate (.finite s n)) :
    (ofFinite s n).IsScientific := by
  have htrailing := Decimal.written_trailing (fun hzero => h (.inl hzero)) n.isLt
  rw [← Layout.isPositional_iff] at h
  rw [ofFinite, if_neg h]
  exact isScientific_ofScientific s (allDigits_toDigits _)
    (Numeral.startsNonzero_toDigits (by omega)) (Numeral.endsNonzero_toDigits htrailing) _

theorem isNumeral_ofFinite (s : Bool) (n : Fin Binary64.overflow) : (ofFinite s n).IsNumeral := by
  by_cases h : Binary64.IsModerate (.finite s n)
  · exact (isPositional_ofFinite h).isNumeral
  · exact (isScientific_ofFinite h).isNumeral

/-- The number of the spelling is the one that the layout was given. -/
theorem exact_ofFinite (s : Bool) (n : Fin Binary64.overflow) :
    (ofFinite s n).decimal.exact = (Decimal.written n).exact := by
  have hspelling := (isNumeral_ofFinite s n).denotes
  rw [unsigned_ofFinite] at hspelling
  have hlayout : Denotes (plain.magnitude (.finite s n) n) (Decimal.written n).inUnits :=
    Layout.magnitude_denotes Layout.plain_readable _ _
  exact Decimal.inUnits_eq_iff.1 (hspelling.unique hlayout)

/-- The spelling is read as the value. -/
theorem toBinary64_ofFinite (s : Bool) (n : Fin Binary64.overflow) :
    (ofFinite s n).decimal.toBinary64 s = .finite s n := by
  rw [Decimal.toBinary64_congr (Decimal.inUnits_eq_iff.2 (exact_ofFinite s n)),
    Decimal.toBinary64, Decimal.ordinal_written n.isLt, Binary64.ofOrdinal, dif_pos n.isLt]

/-- No decimal that is read as the value has fewer significant digits. -/
theorem significantDigits_ofFinite_le (hzero : n.val ≠ 0) {d : Decimal} {r : Bool}
    (h : d.toBinary64 r = .finite s n) :
    (ofFinite s n).decimal.significantDigits ≤ d.significantDigits := by
  have hordinal : d.ordinal = n := (Decimal.toBinary64_eq_finite_iff.1 h).2
  rw [Decimal.significantDigits_congr (exact_ofFinite s n), Decimal.written, if_neg hzero]
  exact Decimal.significantDigits_shortest_le (Nat.pos_of_ne_zero hzero) n.isLt hordinal

/-- The sign is written as a minus and changes nothing else. -/
theorem ofFinite_neg (s : Bool) (n : Fin Binary64.overflow) :
    ofFinite (!s) n = { ofFinite s n with negative := !s } := by
  have hsign : plain.isPositional (.finite (!s) n) = plain.isPositional (.finite s n) := rfl
  simp only [ofFinite, hsign, ofPositional, ofScientific]
  split_ifs <;> rfl

end Spelling

namespace NumberText

open Binary64 (IsModerate)

/-- Every finite value is written canonically: as digits with a point where it is needed if
    it is zero or its magnitude is from 10^-4 to just below 10^15, and otherwise as one digit
    that is not zero, a fraction where it is needed and an exponent.  There is a minus if
    and only if the value has the sign, and the opposite value is written the same but for
    the minus.  What is written is read as the value, and unless that is zero no decimal with
    fewer significant digits is. -/
theorem format_canonical_shortest {x : Binary64} (hx : x.isFinite = true) :
    ∃ t : Spelling, format x = t.text ∧ (IsModerate x → t.IsPositional) ∧
      (¬ IsModerate x → t.IsScientific) ∧ t.negative = x.isNegative ∧
      format x.neg = { t with negative := !t.negative }.text ∧
      t.decimal.toBinary64 t.negative = x ∧
      (x.isZero = false → ∀ (d : Decimal) (s : Bool), d.toBinary64 s = x →
        t.decimal.significantDigits ≤ d.significantDigits) := by
  cases x with
  | nan => cases hx
  | infinite s => cases hx
  | finite s n =>
    have hnegative := Spelling.negative_ofFinite s n
    refine ⟨.ofFinite s n, (Spelling.text_ofFinite s n).symm, Spelling.isPositional_ofFinite,
      Spelling.isScientific_ofFinite, hnegative, ?_, ?_, ?_⟩
    · rw [hnegative, ← Spelling.ofFinite_neg, Spelling.text_ofFinite]
      rfl
    · rw [hnegative]
      exact Spelling.toBinary64_ofFinite s n
    · intro hzero d r h
      exact Spelling.significantDigits_ofFinite_le (by simpa [Binary64.isZero] using hzero) h

/-- The least magnitude has one significant digit, and an exponent of three. -/
theorem format_canonical_shortest_least : (Binary64.finite true 1).isFinite = true ∧
    format (.finite true 1) = "-5E-324" ∧ format (.finite false 1) = "5E-324" ∧
    ∃ t : Spelling, t.text = "-5E-324" ∧ t.IsScientific ∧ t.negative = true ∧
      ∀ (d : Decimal) (s : Bool), d.toBinary64 s = .finite true 1 →
        t.decimal.significantDigits ≤ d.significantDigits := by
  have hplus : format (.finite false 1) = "5E-324" := by decide +kernel
  have hminus : format (.finite true 1) = "-5E-324" := by decide +kernel
  have hlarge : ¬ IsModerate (.finite true 1) := by
    rw [← Layout.isPositional_iff]
    decide
  obtain ⟨t, htext, -, hscientific, hsign, -, -, hshortest⟩ :=
    format_canonical_shortest (x := .finite true 1) rfl
  exact ⟨rfl, hminus, hplus, t, htext.symm.trans hminus, hscientific hlarge, hsign,
    hshortest rfl⟩

end NumberText

end InfixArithmetic
