/-
  InfixArithmetic.Proofs.Spelling

  Written numbers in parts: sign, digits before the point, digits after it, exponent.

  Two spellings are canonical: `IsPositional`, digits with a point where it is needed, and
  `IsScientific`, one digit that is not zero, a fraction where it is needed, and an
  exponent.  Neither has a superfluous zero.  So a number and its sign determine each of the two
  (`IsPositional.eq_of_exact`, `IsScientific.eq_of_exact`), and a spelling can be recognised by the
  number that is read from it, without following how its digits were found.
-/

import InfixArithmetic.Proofs.DigitRuns
import InfixArithmetic.Proofs.RoundTrip
import InfixArithmetic.Proofs.SignificantDigits

namespace InfixArithmetic

open Numeral (AllDigits StartsNonzero EndsNonzero Denotes IsExponent)

/-- The parts of a written number: whether there is a minus, the digits before the point and
    those after it, and the sign and the digits of the exponent, if there is one. -/
@[ext] structure Spelling where
  negative : Bool
  whole : List Char
  fraction : List Char
  exponent : Option (Bool × List Char)

namespace Spelling

/-! ## Text and number -/

/-- The text of an exponent. -/
def exponentChars : Option (Bool × List Char) → List Char
  | none => []
  | some (negative, ds) => 'E' :: (if negative then '-' else '+') :: ds

/-- The text without the minus. A point is written only before a fraction. -/
def unsigned (t : Spelling) : List Char :=
  t.whole ++ (if t.fraction = [] then [] else '.' :: t.fraction) ++ exponentChars t.exponent

/-- The text. -/
def text (t : Spelling) : String :=
  String.ofList ((if t.negative then ['-'] else []) ++ t.unsigned)

/-- The exponent as a number. -/
def exponentValue (t : Spelling) : Int :=
  match t.exponent with
  | none => 0
  | some (negative, ds) =>
    if negative then -(Nat.ofDigitChars 10 ds 0 : Int) else Nat.ofDigitChars 10 ds 0

/-- The number that is written, without its sign. -/
def decimal (t : Spelling) : Decimal :=
  ⟨Nat.ofDigitChars 10 (t.whole ++ t.fraction) 0, t.exponentValue - t.fraction.length⟩

/-- All parts are digits, and none that has to be there is missing. -/
structure IsNumeral (t : Spelling) : Prop where
  whole : AllDigits t.whole
  whole_ne : t.whole ≠ []
  fraction : AllDigits t.fraction
  exponent : ∀ p ∈ t.exponent, AllDigits p.2 ∧ p.2 ≠ []

/-- Digits with a point where it is needed, and no superfluous zero at either end. -/
structure IsPositional (t : Spelling) : Prop where
  whole : AllDigits t.whole
  leading : t.whole = ['0'] ∨ StartsNonzero t.whole
  fraction : AllDigits t.fraction
  trailing : EndsNonzero t.fraction
  exponent : t.exponent = none

/-- One digit that is not zero, a fraction that does not end with a zero, and an exponent with
    its sign and at least two digits, more of them only if needed. -/
structure IsScientific (t : Spelling) : Prop where
  whole : AllDigits t.whole
  single : t.whole.length = 1
  leading : StartsNonzero t.whole
  fraction : AllDigits t.fraction
  trailing : EndsNonzero t.fraction
  exponent : ∃ p, t.exponent = some p ∧ AllDigits p.2 ∧ 2 ≤ p.2.length ∧
    (2 < p.2.length → StartsNonzero p.2)

variable {t u : Spelling}

theorem IsPositional.isNumeral (h : t.IsPositional) : t.IsNumeral where
  whole := h.whole
  whole_ne := by
    rcases h.leading with hzero | hleading
    · rw [hzero]
      exact List.cons_ne_nil _ _
    · exact hleading.ne_nil
  fraction := h.fraction
  exponent p hp := by
    rw [h.exponent] at hp
    cases hp

theorem IsScientific.isNumeral (h : t.IsScientific) : t.IsNumeral where
  whole := h.whole
  whole_ne := h.leading.ne_nil
  fraction := h.fraction
  exponent p hp := by
    obtain ⟨q, hq, hdigits, hlength, -⟩ := h.exponent
    obtain rfl : q = p := Option.some.inj (hq.symm.trans hp)
    exact ⟨hdigits, List.ne_nil_of_length_pos (by omega)⟩

/-! ## Reading -/

theorem IsNumeral.isExponent (h : t.IsNumeral) :
    IsExponent (exponentChars t.exponent) t.exponentValue := by
  rw [exponentValue]
  cases hexponent : t.exponent with
  | none => exact Numeral.isExponent_nil
  | some p =>
    obtain ⟨hdigits, hne⟩ := h.exponent p hexponent
    exact Numeral.isExponent_signed (.inr rfl) hdigits hne p.1

theorem IsNumeral.denotes (h : t.IsNumeral) : Denotes t.unsigned t.decimal.inUnits := by
  rw [unsigned, decimal]
  by_cases hfraction : t.fraction = []
  · rw [if_pos hfraction, hfraction, List.append_nil, List.length_nil, Nat.cast_zero,
      Int.sub_zero]
    exact Numeral.denotes_whole h.whole h.whole_ne h.isExponent
  · rw [if_neg hfraction, List.append_assoc, List.cons_append]
    exact Numeral.denotes_fraction h.whole h.whole_ne h.fraction h.isExponent

/-- A spelling is read as the value nearest to its number. -/
theorem IsNumeral.parse? (h : t.IsNumeral) :
    Numeral.parse? t.text = some (t.decimal.toBinary64 t.negative) :=
  h.denotes.parse? t.negative

/-! ## One spelling for each number -/

/-- A fraction that does not end with a zero is not longer than another one for the same
    number. -/
theorem length_fraction_le {w f w' f' : List Char} (hw : AllDigits w) (hf : AllDigits f)
    (htrailing : EndsNonzero f)
    (h : (Nat.ofDigitChars 10 (w ++ f) 0 : ℚ) * 10 ^ (-(f.length : Int))
      = Nat.ofDigitChars 10 (w' ++ f') 0 * 10 ^ (-(f'.length : Int))) : f.length ≤ f'.length := by
  by_cases hempty : f = []
  · rw [hempty]
    exact Nat.zero_le _
  -- The last digit of the fraction is no zero, so the number is on no coarser grid.
  · have hends : EndsNonzero (w ++ f) := by
      rw [EndsNonzero, List.getLast?_append_of_ne_nil _ hempty]
      exact htrailing
    have hten := Numeral.ofDigitChars_mod_ten (Numeral.allDigits_append.2 ⟨hw, hf⟩)
      (List.append_ne_nil_of_right_ne_nil w hempty) hends
    have hplace := Decimal.le_exponent_of_trailing hten h
    omega

/-- Digits without superfluous zeros before and after the point are determined by their
    number. -/
theorem eq_of_digits {w f w' f' : List Char} (hw : AllDigits w) (hf : AllDigits f)
    (hw' : AllDigits w') (hf' : AllDigits f') (hleading : w = ['0'] ∨ StartsNonzero w)
    (hleading' : w' = ['0'] ∨ StartsNonzero w') (htrailing : EndsNonzero f)
    (htrailing' : EndsNonzero f')
    (h : (Nat.ofDigitChars 10 (w ++ f) 0 : ℚ) * 10 ^ (-(f.length : Int))
      = Nat.ofDigitChars 10 (w' ++ f') 0 * 10 ^ (-(f'.length : Int))) : w = w' ∧ f = f' := by
  have hlength : f.length = f'.length :=
    Nat.le_antisymm (length_fraction_le hw hf htrailing h)
      (length_fraction_le hw' hf' htrailing' h.symm)
  have hpow : (10 : ℚ) ^ (-(f'.length : Int)) ≠ 0 := zpow_ne_zero _ (by norm_num)
  -- With fractions of one length, the two parts are quotient and remainder by one power.
  rw [hlength, mul_left_inj' hpow, Nat.cast_inj, Numeral.ofDigitChars_append_eq w hf,
    Numeral.ofDigitChars_append_eq w' hf', hlength] at h
  have hlt := hlength ▸ Numeral.ofDigitChars_lt hf
  have hlt' := Numeral.ofDigitChars_lt hf'
  have hwhole : Nat.ofDigitChars 10 w 0 = Nat.ofDigitChars 10 w' 0 := by
    have hdiv {a r : Nat} (hr : r < 10 ^ f'.length) :
        (a * 10 ^ f'.length + r) / 10 ^ f'.length = a := by
      rw [Nat.mul_comm, Nat.mul_add_div (Nat.pow_pos (by decide)), Nat.div_eq_of_lt hr,
        Nat.add_zero]
    have hquotient := congrArg (· / 10 ^ f'.length) h
    rwa [hdiv hlt, hdiv hlt'] at hquotient
  have hfraction : Nat.ofDigitChars 10 f 0 = Nat.ofDigitChars 10 f' 0 := by
    rw [hwhole] at h
    omega
  exact ⟨Numeral.eq_of_leading hw hw' hleading hleading' hwhole,
    Numeral.eq_of_ofDigitChars_eq hf hf' hlength hfraction⟩

/-- Digits with a point where it is needed are determined by their number. -/
theorem IsPositional.eq_of_exact (ht : t.IsPositional) (hu : u.IsPositional)
    (hnegative : t.negative = u.negative) (h : t.decimal.exact = u.decimal.exact) : t = u := by
  have hexact {v : Spelling} (hv : v.IsPositional) : v.decimal.exact
      = Nat.ofDigitChars 10 (v.whole ++ v.fraction) 0 * 10 ^ (-(v.fraction.length : Int)) := by
    rw [Decimal.exact, decimal, exponentValue, hv.exponent, Int.zero_sub]
  rw [hexact ht, hexact hu] at h
  obtain ⟨hwhole, hfraction⟩ := eq_of_digits ht.whole ht.fraction hu.whole hu.fraction
    ht.leading hu.leading ht.trailing hu.trailing h
  exact Spelling.ext hnegative hwhole hfraction (ht.exponent.trans hu.exponent.symm)

theorem exact_eq_mul_pow (t : Spelling) : t.decimal.exact
    = Nat.ofDigitChars 10 (t.whole ++ t.fraction) 0 * 10 ^ (-(t.fraction.length : Int))
      * 10 ^ t.exponentValue := by
  rw [Decimal.exact, decimal, mul_assoc, ← zpow_add₀ (by norm_num), neg_add_eq_sub]

/-- The exponent of a number with one digit before the point is the place of that digit. -/
theorem IsScientific.exact_bounds (h : t.IsScientific) :
    10 ^ t.exponentValue ≤ t.decimal.exact ∧ t.decimal.exact < 10 ^ (t.exponentValue + 1) := by
  have hdigits := Numeral.allDigits_append.2 ⟨h.whole, h.fraction⟩
  have hlength : (t.whole ++ t.fraction).length = t.fraction.length + 1 := by
    rw [List.length_append, h.single, Nat.add_comm]
  -- All digits together are a number with one digit more than the fraction.
  have hlow := Numeral.pow_le_ofDigitChars hdigits (Numeral.startsNonzero_append h.leading _)
  have hhigh := Numeral.ofDigitChars_lt hdigits
  rw [hlength] at hlow hhigh
  rw [Nat.add_sub_cancel] at hlow
  have hpow : (0 : ℚ) < 10 ^ t.exponentValue := zpow_pos (by norm_num) _
  rw [exact_eq_mul_pow, zpow_add₀ (by norm_num), zpow_one, mul_comm (10 ^ t.exponentValue : ℚ) 10,
    zpow_neg, zpow_natCast, ← div_eq_mul_inv]
  generalize Nat.ofDigitChars 10 (t.whole ++ t.fraction) 0 = n at hlow hhigh
  have hlowQ : (10 : ℚ) ^ t.fraction.length ≤ n := by exact_mod_cast hlow
  have hhighQ : (n : ℚ) < 10 * 10 ^ t.fraction.length := by
    rw [← pow_succ']
    exact_mod_cast hhigh
  constructor
  · refine le_mul_of_one_le_left hpow.le ?_
    rw [le_div_iff₀ (by positivity), one_mul]
    exact hlowQ
  · refine mul_lt_mul_of_pos_right ?_ hpow
    rw [div_lt_iff₀ (by positivity)]
    exact hhighQ

/-- At least two digits, more of them only if needed, are determined by their number. -/
theorem eq_of_padded {ds es : List Char} (hds : AllDigits ds) (hes : AllDigits es)
    (hd : 2 ≤ ds.length) (he : 2 ≤ es.length) (hd' : 2 < ds.length → StartsNonzero ds)
    (he' : 2 < es.length → StartsNonzero es)
    (h : Nat.ofDigitChars 10 ds 0 = Nat.ofDigitChars 10 es 0) : ds = es := by
  -- A longer run is a number of three digits at least.
  have hle {as bs : List Char} (has : AllDigits as) (hbs : AllDigits bs) (hb : 2 ≤ bs.length)
      (ha : 2 < as.length → StartsNonzero as)
      (hab : Nat.ofDigitChars 10 as 0 = Nat.ofDigitChars 10 bs 0) : as.length ≤ bs.length := by
    rcases Nat.lt_or_ge 2 as.length with hlong | hshort
    · have hlow := Numeral.pow_le_ofDigitChars has (ha hlong)
      have hhigh := Numeral.ofDigitChars_lt hbs
      have hlt := (Nat.pow_lt_pow_iff_right (by decide)).1 (hlow.trans_lt (hab ▸ hhigh))
      omega
    · omega
  exact Numeral.eq_of_ofDigitChars_eq hds hes
    (Nat.le_antisymm (hle hds hes he hd' h) (hle hes hds hd he' h.symm)) h

/-- Zero is the only exponent that has two signs. -/
theorem eq_of_signed {s r : Bool} {m n : Nat} (hne : (if s then -(m : Int) else m) ≠ 0)
    (h : (if s then -(m : Int) else m) = if r then -(n : Int) else n) : s = r ∧ m = n := by
  cases s <;> cases r <;> simp only [if_true, if_false, Bool.false_eq_true] at hne h <;>
    simp only [Bool.false_eq_true, Bool.true_eq_false, true_and, false_and] <;> omega

/-- A digit with a fraction and an exponent that is not zero is determined by its number. -/
theorem IsScientific.eq_of_exact (ht : t.IsScientific) (hu : u.IsScientific)
    (hnegative : t.negative = u.negative) (hexponent : t.exponentValue ≠ 0)
    (h : t.decimal.exact = u.decimal.exact) : t = u := by
  obtain ⟨hlow, hhigh⟩ := ht.exact_bounds
  obtain ⟨hlow', hhigh'⟩ := hu.exact_bounds
  -- The powers of ten around the number are the same, so the exponents are.
  have hvalue : t.exponentValue = u.exponentValue := by
    have hlt := (zpow_lt_zpow_iff_right₀ (by norm_num : (1 : ℚ) < 10)).1
      (hlow.trans_lt (h ▸ hhigh'))
    have hlt' := (zpow_lt_zpow_iff_right₀ (by norm_num : (1 : ℚ) < 10)).1
      (hlow'.trans_lt (h ▸ hhigh))
    omega
  have hpow : (10 : ℚ) ^ u.exponentValue ≠ 0 := zpow_ne_zero _ (by norm_num)
  rw [exact_eq_mul_pow, exact_eq_mul_pow, hvalue, mul_left_inj' hpow] at h
  obtain ⟨hwhole, hfraction⟩ := eq_of_digits ht.whole ht.fraction hu.whole hu.fraction
    (.inr ht.leading) (.inr hu.leading) ht.trailing hu.trailing h
  -- Equal exponents have equal signs only if they are not zero.
  obtain ⟨⟨s, ds⟩, hds, hdigits, hlength, hpadded⟩ := ht.exponent
  obtain ⟨⟨r, es⟩, hes, hdigits', hlength', hpadded'⟩ := hu.exponent
  rw [exponentValue, hds] at hvalue hexponent
  rw [exponentValue, hes] at hvalue
  dsimp only at hvalue hexponent
  obtain ⟨hsign, hnumber⟩ := eq_of_signed hexponent hvalue
  have hsame := eq_of_padded hdigits hdigits' hlength hlength' hpadded hpadded' hnumber
  dsimp only at hsame
  refine Spelling.ext hnegative hwhole hfraction ?_
  rw [hds, hes, hsign, hsame]

end Spelling

end InfixArithmetic
