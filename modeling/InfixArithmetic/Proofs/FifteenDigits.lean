/-
  InfixArithmetic.Proofs.FifteenDigits

  A number of at most fifteen significant digits is written again as it was read.

  Two such numbers are never read as the same magnitude (`exact_eq_of_ordinal_eq`): they
  differ by more than a part in 10^15, and a magnitude that has all its 53 binary digits is
  nearest only to numbers within a part in 2^52 of each other.  The digits that are written
  for the magnitude are no more, so they are the digits that were read.  The same argument
  decides the layout: a number that is read as one of the two bounds is that bound.
-/

import InfixArithmetic.Proofs.CanonicalSpelling
import InfixArithmetic.Proofs.NearestValue

namespace InfixArithmetic

/-! ## Fifteen digits and 53 binary digits -/

namespace Binary64

/-- The numbers nearest to one magnitude lie within a part in 2^52 of each other. -/
theorem IsNearest.sub_mul_le {u v : ℚ} {n : Nat} (hu : IsNearest u n) (hv : IsNearest v n)
    (hn : 2 ^ 52 ≤ n) : (v - u) * 10 ^ 15 ≤ u := by
  obtain ⟨m, rfl⟩ : ∃ m, n = m + 1 := ⟨n - 1, by omega⟩
  have hgap := two_pow_mul_gap_le hn
  have hmono : gap (m + 1) ≤ 2 * gap m := by
    rw [gap, gap, ← Nat.pow_succ']
    exact Nat.pow_le_pow_right (by decide) (by omega)
  have hbelow := hu.below_le m rfl
  have habove := hv.le_above
  have hunits : (units (m + 1) : ℚ) = units m + gap m := by exact_mod_cast units_succ m
  have hnext : (units (m + 1 + 1) : ℚ) = units (m + 1) + gap (m + 1) := by
    exact_mod_cast units_succ (m + 1)
  have hgapQ : 2 ^ 52 * (gap m : ℚ) ≤ units (m + 1) := by exact_mod_cast hgap
  have hmonoQ : (gap (m + 1) : ℚ) ≤ 2 * gap m := by exact_mod_cast hmono
  have hpos : (0 : ℚ) < gap m := by exact_mod_cast gap_pos m
  -- The two midpoints are at most 3/2 of the gap below apart, which 10^15 times is still less
  -- than the magnitude less half of that gap.
  linarith

end Binary64

namespace Decimal

open Binary64 (IsNearest overflow)

variable {d e : Decimal}

/-- Different numbers on a grid are a step of it apart. -/
theorem step_le_sub {a b : Nat} {f : Int} (h : (a : ℚ) * 10 ^ f < b * 10 ^ f) :
    (10 : ℚ) ^ f ≤ b * 10 ^ f - a * 10 ^ f := by
  have hpow : (0 : ℚ) < 10 ^ f := zpow_pos (by norm_num) _
  have hlt : a < b := by exact_mod_cast lt_of_mul_lt_mul_right h hpow.le
  have hsucc : (a : ℚ) + 1 ≤ b := by exact_mod_cast hlt
  have hle := mul_le_mul_of_nonneg_right hsucc hpow.le
  linarith

/-- A number on a grid is on every finer one. -/
theorem exists_on_grid (b : Nat) {f g : Int} (h : f ≤ g) :
    ∃ c : Nat, (b : ℚ) * 10 ^ g = c * 10 ^ f := by
  obtain ⟨k, rfl⟩ : ∃ k : Nat, g = f + k := ⟨(g - f).toNat, by omega⟩
  refine ⟨b * 10 ^ k, ?_⟩
  rw [zpow_add₀ (by norm_num), zpow_natCast, Nat.cast_mul, Nat.cast_pow, Nat.cast_ofNat]
  ring

/-- Different numbers of at most `k` digits are more than a part in `10 ^ k` apart. -/
theorem lt_sub_mul_of_significantDigits {k : Nat} (hd : d.significantDigits ≤ k)
    (he : e.significantDigits ≤ k) (h : d.exact < e.exact) :
    d.exact < (e.exact - d.exact) * 10 ^ k := by
  obtain ⟨a, f, ha, hdvalue⟩ := significantDigits_le_iff.1 hd
  obtain ⟨b, g, hb, hevalue⟩ := significantDigits_le_iff.1 he
  rw [hdvalue, hevalue] at h ⊢
  have haQ : (a : ℚ) < 10 ^ k := by exact_mod_cast ha
  have hbQ : (b : ℚ) < 10 ^ k := by exact_mod_cast hb
  have hpow : (0 : ℚ) < 10 ^ k := by positivity
  -- On the finer one of the two grids, a step is a part in `10 ^ k` of the bound of the number
  -- that is written on it.
  rcases le_total f g with hfg | hgf
  · obtain ⟨c, hc⟩ := exists_on_grid b hfg
    rw [hc] at h ⊢
    calc (a : ℚ) * 10 ^ f < 10 ^ k * 10 ^ f :=
          mul_lt_mul_of_pos_right haQ (zpow_pos (by norm_num) _)
      _ = 10 ^ f * 10 ^ k := mul_comm _ _
      _ ≤ (c * 10 ^ f - a * 10 ^ f) * 10 ^ k :=
          mul_le_mul_of_nonneg_right (step_le_sub h) hpow.le
  · obtain ⟨c, hc⟩ := exists_on_grid a hgf
    rw [hc] at h ⊢
    calc (c : ℚ) * 10 ^ g < b * 10 ^ g := h
      _ < 10 ^ k * 10 ^ g := mul_lt_mul_of_pos_right hbQ (zpow_pos (by norm_num) _)
      _ = 10 ^ g * 10 ^ k := mul_comm _ _
      _ ≤ (b * 10 ^ g - c * 10 ^ g) * 10 ^ k :=
          mul_le_mul_of_nonneg_right (step_le_sub h) hpow.le

/-- Of two different numbers of at most fifteen digits the greater one is too far away to be
    nearest to the same magnitude. -/
theorem not_exact_lt_of_isNearest {n : Nat} (hn : 2 ^ 52 ≤ n) (hd : d.significantDigits ≤ 15)
    (he : e.significantDigits ≤ 15) (hdn : IsNearest d.inUnits n) (hen : IsNearest e.inUnits n) :
    ¬ d.exact < e.exact := by
  intro hlt
  have hclose := hdn.sub_mul_le hen hn
  have hapart := lt_sub_mul_of_significantDigits hd he hlt
  rw [inUnits, inUnits, ← exact, ← exact, ← sub_mul, mul_right_comm,
    mul_le_mul_iff_left₀ unitsPerOne_pos] at hclose
  linarith

/-- Numbers of at most fifteen digits that are read as the same magnitude are equal. -/
theorem exact_eq_of_ordinal_eq (hd : d.significantDigits ≤ 15) (he : e.significantDigits ≤ 15)
    (hnormal : 2 ^ 52 ≤ d.ordinal) (hfinite : d.ordinal < overflow)
    (h : d.ordinal = e.ordinal) : d.exact = e.exact := by
  have hdn : IsNearest d.inUnits d.ordinal := ordinal_isNearest hfinite
  have hen : IsNearest e.inUnits d.ordinal := h ▸ ordinal_isNearest (h ▸ hfinite)
  have hnotLt := not_exact_lt_of_isNearest hnormal hd he hdn hen
  have hnotGt := not_exact_lt_of_isNearest hnormal he hd hen hdn
  exact le_antisymm (not_lt.1 hnotGt) (not_lt.1 hnotLt)

/-- A greater number is not read as a smaller magnitude. -/
theorem ordinal_le_of_exact_le (he : e.ordinal < overflow) (h : d.exact ≤ e.exact) :
    d.ordinal ≤ e.ordinal := by
  have hd : d.ordinal < overflow := by
    rw [ordinal_lt_overflow_iff] at he ⊢
    exact h.trans_lt he
  exact (ordinal_isNearest hd).le_of_le (ordinal_isNearest he)
    (mul_le_mul_of_nonneg_right h unitsPerOne_pos.le)

/-- A number of at most fifteen digits is less than another one if and only if its magnitude
    is. -/
theorem ordinal_lt_iff_exact_lt (hd : d.significantDigits ≤ 15) (he : e.significantDigits ≤ 15)
    (hnormal : 2 ^ 52 ≤ e.ordinal) (hdfinite : d.ordinal < overflow)
    (hefinite : e.ordinal < overflow) : d.ordinal < e.ordinal ↔ d.exact < e.exact := by
  constructor
  · intro h
    by_contra hle
    exact absurd (ordinal_le_of_exact_le hdfinite (not_lt.1 hle)) (by omega)
  · intro h
    refine (ordinal_le_of_exact_le hefinite h.le).lt_of_ne fun heq => ?_
    exact h.ne (exact_eq_of_ordinal_eq hd he (heq ▸ hnormal) hdfinite heq)

/-! ## The range of the numbers -/

/-- Zero, or a magnitude from 10^-307 to 10^308. -/
def InRange (d : Decimal) : Prop :=
  d.exact = 0 ∨ (10 : ℚ) ^ (-307 : Int) ≤ d.exact ∧ d.exact ≤ 10 ^ 308

theorem exact_power (e : Int) : exact ⟨1, e⟩ = 10 ^ e := by
  rw [exact, Nat.cast_one, one_mul]

theorem ordinal_eq_zero_of_exact (h : d.exact = 0) : d.ordinal = 0 := by
  rw [ordinal_eq_zero_iff, inUnits, ← exact, h, zero_mul, mul_zero]
  exact zero_le_one

theorem InRange.ordinal_lt_overflow (h : d.InRange) : d.ordinal < overflow := by
  rcases h with hzero | ⟨-, hhigh⟩
  · rw [ordinal_eq_zero_of_exact hzero]
    decide
  · have hbound : ordinal ⟨1, 308⟩ < overflow := by decide +kernel
    refine (ordinal_le_of_exact_le hbound ?_).trans_lt hbound
    rw [exact_power]
    exact hhigh

/-- The magnitudes in the range have all their 53 binary digits. -/
theorem InRange.two_pow_le_ordinal (h : d.InRange) (hzero : d.exact ≠ 0) :
    2 ^ 52 ≤ d.ordinal := by
  have hlow := (h.resolve_left hzero).1
  rw [← exact_power] at hlow
  have hbound : 2 ^ 52 ≤ ordinal ⟨1, -307⟩ := by decide +kernel
  exact hbound.trans (ordinal_le_of_exact_le h.ordinal_lt_overflow hlow)

/-- The digits that are written for a magnitude are those of the number that was read. -/
theorem exact_written_of_fifteen (hd : d.significantDigits ≤ 15) (h : d.InRange) :
    (written d.ordinal).exact = d.exact := by
  by_cases hzero : d.exact = 0
  · rw [ordinal_eq_zero_of_exact hzero, hzero, written, if_pos rfl, exact, Nat.cast_zero,
      zero_mul]
  · have hfinite := h.ordinal_lt_overflow
    have hnormal := h.two_pow_le_ordinal hzero
    have hread := ordinal_written hfinite
    have hshort : (written d.ordinal).significantDigits ≤ 15 := by
      rw [written, if_neg (by omega)]
      exact (significantDigits_shortest_le (by omega) hfinite rfl).trans hd
    exact (exact_eq_of_ordinal_eq hd hshort hnormal hfinite hread.symm).symm

/-! ## The two layouts -/

/-- Zero, or a number from 10^-4 to just below 10^15. -/
def IsModerate (d : Decimal) : Prop :=
  d.exact = 0 ∨ (10 : ℚ) ^ (-4 : Int) ≤ d.exact ∧ d.exact < 10 ^ 15

/-- The layout that is chosen for the magnitude is the one of the number. -/
theorem isModerate_iff (hd : d.significantDigits ≤ 15) (h : d.InRange) (s : Bool) :
    Binary64.IsModerate (.finite s ⟨d.ordinal, h.ordinal_lt_overflow⟩) ↔ d.IsModerate := by
  rw [← Layout.isPositional_iff, Layout.isPositional_iff_ordinal, IsModerate]
  by_cases hzero : d.exact = 0
  · exact iff_of_true (.inl (ordinal_eq_zero_of_exact hzero)) (.inl hzero)
  · have hnormal := h.two_pow_le_ordinal hzero
    have hordinal : d.ordinal ≠ 0 := by omega
    have hfrom : ordinal ⟨1, -4⟩ = 0x3F1A36E2EB1C432D := by decide +kernel
    have hbelow : ordinal ⟨1, 15⟩ = 0x430C6BF526340000 := by decide +kernel
    have hone (e : Int) : significantDigits ⟨1, e⟩ ≤ 15 := by
      rw [significantDigits_le_iff]
      exact ⟨1, e, by decide, rfl⟩
    -- The bounds have one digit themselves, so no other number is read as one of them.
    have hless (e : Int) (he : 2 ^ 52 ≤ ordinal ⟨1, e⟩) (hfinite : ordinal ⟨1, e⟩ < overflow) :
        d.ordinal < ordinal ⟨1, e⟩ ↔ d.exact < 10 ^ e := by
      rw [ordinal_lt_iff_exact_lt hd (hone e) he h.ordinal_lt_overflow hfinite, exact_power]
    have hlow := hless (-4) (by rw [hfrom]; decide) (by rw [hfrom]; decide)
    have hhigh := hless 15 (by rw [hbelow]; decide) (by rw [hbelow]; decide)
    rw [hfrom, ← not_le, ← not_le, not_iff_not] at hlow
    rw [hbelow] at hhigh
    have hpow : (10 : ℚ) ^ (15 : Int) = 10 ^ 15 := by norm_num
    rw [or_iff_right hordinal, or_iff_right hzero, hlow, hhigh, hpow]

end Decimal

namespace Spelling

variable {t : Spelling}

/-- The notation of results: digits with a point where it is needed for zero and the numbers
    from 10^-4 to just below 10^15, and an exponent for all others. -/
structure IsCanonical (t : Spelling) : Prop where
  positional : t.decimal.IsModerate → t.IsPositional
  scientific : ¬ t.decimal.IsModerate → t.IsScientific

theorem IsCanonical.isNumeral (h : t.IsCanonical) : t.IsNumeral := by
  by_cases hmoderate : t.decimal.IsModerate
  · exact (h.positional hmoderate).isNumeral
  · exact (h.scientific hmoderate).isNumeral

/-- The numbers with exponent zero are written without one. -/
theorem IsScientific.exponentValue_ne (h : t.IsScientific) (hmoderate : ¬ t.decimal.IsModerate) :
    t.exponentValue ≠ 0 := by
  intro hzero
  obtain ⟨hlow, hhigh⟩ := h.exact_bounds
  rw [hzero, zpow_zero] at hlow
  rw [hzero, zero_add, zpow_one] at hhigh
  refine hmoderate (.inr ⟨le_trans ?_ hlow, hhigh.trans ?_⟩) <;> norm_num

/-- A canonical spelling is the one of a result if the numbers and the layouts agree. -/
theorem IsCanonical.eq_ofFinite (h : t.IsCanonical) {n : Fin Binary64.overflow}
    (hexact : (Decimal.written n).exact = t.decimal.exact)
    (hlayout : Binary64.IsModerate (.finite t.negative n) ↔ t.decimal.IsModerate) :
    t = ofFinite t.negative n := by
  have hnegative := (negative_ofFinite t.negative n).symm
  rw [← exact_ofFinite t.negative n, eq_comm] at hexact
  by_cases hmoderate : t.decimal.IsModerate
  · exact (h.positional hmoderate).eq_of_exact (isPositional_ofFinite (hlayout.2 hmoderate))
      hnegative hexact
  · have hscientific := h.scientific hmoderate
    exact hscientific.eq_of_exact (isScientific_ofFinite (mt hlayout.1 hmoderate))
      hnegative (hscientific.exponentValue_ne hmoderate) hexact

/-! ## Integers -/

/-- An integer in decimal. -/
def ofInt (i : Int) : Spelling := ⟨i < 0, Nat.toDigits 10 i.natAbs, [], none⟩

theorem text_ofInt (i : Int) : (ofInt i).text = Text.integer i := by
  rw [text, unsigned, Text.integer, Text.integerDigits]
  simp [ofInt, exponentChars]

theorem exact_ofInt (i : Int) : (ofInt i).decimal.exact = i.natAbs := by
  rw [exact_eq_mul_pow]
  simp [ofInt, exponentValue]

theorem isPositional_ofInt (i : Int) : (ofInt i).IsPositional where
  whole := Numeral.allDigits_toDigits _
  leading := by
    by_cases hzero : i.natAbs = 0
    · left
      rw [ofInt, hzero]
      rfl
    · exact .inr (Numeral.startsNonzero_toDigits hzero)
  fraction := Numeral.allDigits_nil
  trailing := Numeral.endsNonzero_nil
  exponent := rfl

/-- The integers of at most fifteen digits are in the range of the positional layout. -/
theorem isModerate_ofInt {i : Int} (h : i.natAbs < 10 ^ 15) : (ofInt i).decimal.IsModerate := by
  rw [Decimal.IsModerate, exact_ofInt]
  rcases Nat.eq_zero_or_pos i.natAbs with hzero | hpos
  · left
    rw [hzero, Nat.cast_zero]
  · have hone : (1 : ℚ) ≤ i.natAbs := by exact_mod_cast hpos
    refine .inr ⟨le_trans ?_ hone, by exact_mod_cast h⟩
    norm_num

theorem isCanonical_ofInt {i : Int} (h : i.natAbs < 10 ^ 15) : (ofInt i).IsCanonical where
  positional _ := isPositional_ofInt i
  scientific hlarge := absurd (isModerate_ofInt h) hlarge

end Spelling

/-- The numbers of the positional layout are in the range. -/
theorem Decimal.IsModerate.inRange {d : Decimal} (h : d.IsModerate) : d.InRange := by
  refine h.imp_right fun ⟨hlow, hhigh⟩ => ⟨le_trans ?_ hlow, hhigh.le.trans ?_⟩
  · exact zpow_le_zpow_right₀ (by norm_num) (by decide)
  · exact pow_le_pow_right₀ (by norm_num) (by decide)

/-- An integer is rounded to the value that its decimal is read as. -/
theorem Binary64.ofInt?_of_exact {d : Decimal} {i : Int} (h : d.exact = i.natAbs)
    (hfinite : d.ordinal < Binary64.overflow) :
    Binary64.ofInt? i = some (d.toBinary64 (i < 0)) := by
  have hnearest := nearestOrdinal_isNearest (i.natAbs * unitsPerOne) Nat.one_pos
  have hunits : ((i.natAbs * unitsPerOne : Nat) : ℚ) / (1 : Nat) = d.inUnits := by
    rw [Decimal.inUnits, ← Decimal.exact, h, Nat.cast_mul, Nat.cast_one, div_one]
  rw [hunits] at hnearest
  have hratio : ofRatio (i < 0) i.natAbs 1 = d.toBinary64 (i < 0) := by
    rw [ofRatio, ofUnits, hnearest.unique (Decimal.ordinal_isNearest hfinite), Decimal.toBinary64]
  rw [ofInt?, hratio, Decimal.toBinary64, ofOrdinal, dif_pos hfinite]
  rfl

namespace NumberText

open Decimal (significantDigits)

/-- What is in the notation of results and has at most fifteen digits is written as the text
    that it was read from. -/
theorem format_toBinary64 {t : Spelling} (h : t.IsCanonical)
    (hdigits : t.decimal.significantDigits ≤ 15) (hrange : t.decimal.InRange) :
    format (t.decimal.toBinary64 t.negative) = t.text := by
  have hfinite := hrange.ordinal_lt_overflow
  have hsame := h.eq_ofFinite (n := ⟨t.decimal.ordinal, hfinite⟩)
    (Decimal.exact_written_of_fifteen hdigits hrange)
    (Decimal.isModerate_iff hdigits hrange t.negative)
  rw [Decimal.toBinary64, Binary64.ofOrdinal, dif_pos hfinite, ← Spelling.text_ofFinite, ← hsame]

/-- An integer of at most fifteen digits is written in decimal. -/
theorem exists_format_integer {i : Int} (h : i.natAbs < 10 ^ 15) :
    ∃ x, Number.toBinary64? (.int i) = some x ∧ format x = Text.integer i := by
  have hmoderate := Spelling.isModerate_ofInt h
  have hdigits : (Spelling.ofInt i).decimal.significantDigits ≤ 15 := by
    rw [Decimal.significantDigits_le_iff]
    refine ⟨i.natAbs, 0, h, ?_⟩
    rw [Spelling.exact_ofInt, zpow_zero, mul_one]
  have hfinite := hmoderate.inRange.ordinal_lt_overflow
  refine ⟨_, Binary64.ofInt?_of_exact (Spelling.exact_ofInt i) hfinite, ?_⟩
  rw [← Spelling.text_ofInt]
  exact format_toBinary64 (Spelling.isCanonical_ofInt h) hdigits hmoderate.inRange

/-- A text in the notation of results with at most fifteen significant digits is read as a
    value that is written as this text, if the number is zero or its magnitude is from 10^-307
    to 10^308.  So every integer of at most fifteen digits is written in decimal. -/
theorem format_parse_of_fifteen_digits :
    (∀ t : Spelling, t.IsCanonical → t.decimal.significantDigits ≤ 15 → t.decimal.InRange →
      ∃ x, parse (.text t.text) = .ok x ∧ format x = t.text) ∧
    ∀ i : Int, |i| < 10 ^ 15 →
      ∃ x, Number.toBinary64? (.int i) = some x ∧ format x = Text.integer i := by
  constructor
  · intro t h hdigits hrange
    exact ⟨_, parse_text h.isNumeral.parse?, format_toBinary64 h hdigits hrange⟩
  · intro i hi
    rw [Int.abs_eq_natAbs] at hi
    exact exists_format_integer (by omega)

/-- The least magnitude of the range, which is read as one with all its binary digits, and
    the least integer. -/
theorem format_parse_of_fifteen_digits_least :
    (∃ t : Spelling, t.text = "-1E-307" ∧ t.IsCanonical ∧ t.decimal.significantDigits ≤ 15 ∧
      t.decimal.InRange ∧ ∃ x, parse (.text "-1E-307") = .ok x ∧ format x = "-1E-307") ∧
    |(-999999999999999 : Int)| < 10 ^ 15 ∧
      ∃ x, Number.toBinary64? (.int (-999999999999999)) = some x ∧
        format x = "-999999999999999" := by
  obtain ⟨t, ht⟩ : ∃ t : Spelling, t = ⟨true, ['1'], [], some (true, ['3', '0', '7'])⟩ := ⟨_, rfl⟩
  have htext : t.text = "-1E-307" := by
    rw [ht]
    decide
  have hexact : t.decimal.exact = 10 ^ (-307 : Int) := by
    rw [ht]
    exact Decimal.exact_power _
  have hlarge : ¬ t.decimal.IsModerate := by
    rw [Decimal.IsModerate, hexact]
    rintro (hzero | ⟨hlow, -⟩)
    · exact absurd hzero (zpow_pos (by norm_num) _).ne'
    · exact absurd hlow (not_le.2 (zpow_lt_zpow_right₀ (by norm_num) (by decide)))
  have hcanonical : t.IsCanonical := by
    refine ⟨fun hmoderate => absurd hmoderate hlarge, fun _ => ?_⟩
    have hstarts : Numeral.StartsNonzero ['1'] := ⟨'1', rfl, by decide⟩
    have hexponent : Numeral.StartsNonzero ['3', '0', '7'] := ⟨'3', rfl, by decide⟩
    rw [ht]
    exact ⟨by decide, rfl, hstarts, Numeral.allDigits_nil, Numeral.endsNonzero_nil,
      _, rfl, by decide, by decide, fun _ => hexponent⟩
  have hdigits : t.decimal.significantDigits ≤ 15 := by
    rw [Decimal.significantDigits_le_iff]
    exact ⟨1, -307, by decide, by rw [hexact, Nat.cast_one, one_mul]⟩
  have hrange : t.decimal.InRange := by
    refine .inr ⟨hexact.ge, hexact.le.trans ?_⟩
    rw [← zpow_natCast]
    exact zpow_le_zpow_right₀ (by norm_num) (by decide)
  refine ⟨⟨t, htext, hcanonical, hdigits, hrange, ?_⟩, by decide, ?_⟩
  · rw [← htext]
    exact format_parse_of_fifteen_digits.1 t hcanonical hdigits hrange
  · exact format_parse_of_fifteen_digits.2 (-999999999999999) (by decide)

end NumberText

end InfixArithmetic
