/-
  InfixArithmetic.Proofs.DecimalValue

  A decimal number as a rational number of units, and the magnitude that it is read
  as.

  `Decimal.ordinal` computes no quotient for numbers far outside the range of the
  format.  `ordinal_isNearest` and `ordinal_eq_of_isNearest` show that it gives the
  nearest ordinal all the same, so that the magnitude depends on the rational number
  only and not on how it is written (`ordinal_congr`).
-/

import InfixArithmetic.Decimal.Basic
import InfixArithmetic.Proofs.Rounding
import Mathlib.Algebra.Order.Field.Power

namespace InfixArithmetic.Decimal

open Binary64 (IsNearest units unitsPerOne overflow nearestOrdinal nearestOrdinal_isNearest)
open Exact (digitCount)

/-- The exact number, in units of the floating-point format. -/
def inUnits (d : Decimal) : ℚ := d.digits * 10 ^ d.exponent * unitsPerOne

/-- The fraction that is rounded is the exact number. -/
theorem numerator_div_denominator (d : Decimal) :
    ((d.numerator * unitsPerOne : Nat) : ℚ) / d.denominator = d.inUnits := by
  obtain ⟨digits, exponent⟩ := d
  have hten : (10 : ℚ) ≠ 0 := by norm_num
  rw [inUnits, numerator, denominator]
  generalize unitsPerOne = u
  obtain ⟨n, rfl | rfl⟩ := exponent.eq_nat_or_neg
  · simp
  · have hneg : (-(n : Int)).toNat = 0 := by omega
    simp only [hneg, neg_neg, Int.toNat_natCast, zpow_neg, zpow_natCast]
    push_cast
    field_simp

theorem denominator_pos (d : Decimal) : 0 < d.denominator := Nat.pow_pos (by decide)

/-! ## Size -/

theorem inUnits_of_digits_eq_zero {d : Decimal} (h : d.digits = 0) : d.inUnits = 0 := by
  rw [inUnits, h, Nat.cast_zero, zero_mul, zero_mul]

theorem unitsPerOne_pos : (0 : ℚ) < unitsPerOne := by
  have hpos := Binary64.zero_lt_unitsPerOne
  generalize unitsPerOne = u at hpos
  exact_mod_cast hpos

/-- Half a unit as a power of two. -/
theorem two_mul_unitsPerOne_le_one_iff {v : ℚ} :
    2 * (v * unitsPerOne) ≤ 1 ↔ v ≤ 2 ^ (-1075 : Int) := by
  -- Stated for any exponent, so that the power is not evaluated in the rationals.
  have hcast {u k : Nat} (h : u * 2 = 2 ^ k) : (u : ℚ) * 2 = 2 ^ k := by exact_mod_cast h
  have hunits : (unitsPerOne : ℚ) * 2 = 2 ^ 1075 := hcast (by decide +kernel)
  rw [zpow_neg, ← one_div, show (2 : ℚ) ^ (1075 : Int) = 2 ^ 1075 from zpow_natCast 2 1075,
    ← hunits, le_div_iff₀ (mul_pos unitsPerOne_pos two_pos)]
  generalize (unitsPerOne : ℚ) = u
  rw [mul_comm 2, mul_assoc]

theorem inUnits_lt (d : Decimal) : d.inUnits < 10 ^ d.magnitude * unitsPerOne := by
  have hdigits : (d.digits : ℚ) < 10 ^ digitCount d.digits := by
    exact_mod_cast Exact.lt_pow_digitCount d.digits
  have hpow : (0 : ℚ) < 10 ^ d.exponent := zpow_pos (by norm_num) _
  rw [inUnits, magnitude, zpow_add₀ (by norm_num), zpow_natCast]
  exact mul_lt_mul_of_pos_right (mul_lt_mul_of_pos_right hdigits hpow) unitsPerOne_pos

theorem le_inUnits {d : Decimal} (h : d.digits ≠ 0) :
    10 ^ (d.magnitude - 1) * unitsPerOne ≤ d.inUnits := by
  have hcount : digitCount d.digits ≠ 0 := by
    rw [digitCount, if_neg h]
    omega
  have hdigits : (10 : ℚ) ^ (digitCount d.digits - 1) ≤ d.digits := by
    exact_mod_cast Exact.pow_digitCount_le h
  have hpow : (0 : ℚ) < 10 ^ d.exponent := zpow_pos (by norm_num) _
  have hexp : d.magnitude - 1 = ((digitCount d.digits - 1 : Nat) : Int) + d.exponent := by
    rw [magnitude]
    omega
  rw [inUnits, hexp, zpow_add₀ (by norm_num), zpow_natCast]
  exact mul_le_mul_of_nonneg_right (mul_le_mul_of_nonneg_right hdigits hpow.le)
    unitsPerOne_pos.le

/-- The first magnitude that is not finite. -/
theorem units_overflow : units overflow = 2 ^ 52 * 2 ^ 2046 := by
  have hoverflow : overflow = 2 ^ 52 + 2046 * 2 ^ 52 := by decide
  have hle : (2 : Nat) ^ 52 ≤ 2 ^ 53 := by decide
  rw [hoverflow]
  exact Binary64.units_of_significand hle (.inr (Nat.le_refl _))

/-- A number from 10^310 on is not nearest to a finite magnitude. -/
theorem not_isNearest_of_large {d : Decimal} (hd : d.digits ≠ 0) (h : 310 < d.magnitude)
    {n : Nat} (hn : n < overflow) : ¬ IsNearest d.inUnits n := by
  intro hnearest
  have hfinite : units n + units (n + 1) ≤ 2 * units overflow := by
    have h₁ : units n ≤ units overflow := Binary64.units_strictMono.monotone hn.le
    have h₂ : units (n + 1) ≤ units overflow := Binary64.units_strictMono.monotone hn
    omega
  -- The last midpoint is still below 10^310, a bound of closed natural numbers.
  have hconst : units overflow < 10 ^ 310 * unitsPerOne := by
    rw [units_overflow]
    decide +kernel
  have hlarge : (10 ^ 310 : Nat) * (unitsPerOne : ℚ) ≤ d.inUnits := by
    refine le_trans ?_ (le_inUnits hd)
    refine mul_le_mul_of_nonneg_right ?_ unitsPerOne_pos.le
    rw [Nat.cast_pow, Nat.cast_ofNat, ← zpow_natCast]
    exact zpow_le_zpow_right₀ (by norm_num) (by omega)
  have habove := hnearest.le_above
  -- From here on the two constants must not be evaluated.
  generalize unitsPerOne = u at hconst hlarge
  generalize 10 ^ 310 = B at hconst hlarge
  have hfiniteQ : (units n : ℚ) + units (n + 1) ≤ 2 * units overflow := by
    exact_mod_cast hfinite
  have hconstQ : (units overflow : ℚ) < B * u := by exact_mod_cast hconst
  linarith

/-- A number below 10^-330 is nearest to zero. -/
theorem isNearest_zero_of_small {d : Decimal} (h : d.magnitude < -330) :
    IsNearest d.inUnits 0 := by
  have hsmall : d.inUnits < 1 / 2 := by
    have hpow : (10 : ℚ) ^ d.magnitude ≤ 10 ^ (-331 : Int) :=
      zpow_le_zpow_right₀ (by norm_num) (by omega)
    have hlt := (inUnits_lt d).trans_le (mul_le_mul_of_nonneg_right hpow unitsPerOne_pos.le)
    -- Half a unit is more than 10^-331 times one.
    have hnat : unitsPerOne * 2 < 10 ^ 331 := by decide +kernel
    have hinv : (10 : ℚ) ^ (-331 : Int) = ((10 ^ 331 : Nat) : ℚ)⁻¹ := by
      rw [zpow_neg, Nat.cast_pow, Nat.cast_ofNat]
      rfl
    rw [hinv] at hlt
    generalize unitsPerOne = u at hlt hnat
    generalize 10 ^ 331 = B at hlt hnat
    have hB : (0 : ℚ) < B := by exact_mod_cast Nat.lt_of_le_of_lt (Nat.zero_le _) hnat
    have hnatQ : (u : ℚ) * 2 < B := by exact_mod_cast hnat
    refine hlt.trans ?_
    rw [inv_mul_eq_div, div_lt_div_iff₀ hB (by norm_num)]
    linarith
  exact Binary64.isNearest_zero_iff.2 (by linarith)

/-! ## The nearest magnitude -/

/-- A decimal number that is read as a finite magnitude is nearest to it. -/
theorem ordinal_isNearest {d : Decimal} (h : d.ordinal < overflow) :
    IsNearest d.inUnits d.ordinal := by
  rw [ordinal] at h ⊢
  split at h
  next hzero =>
    rw [if_pos hzero, inUnits_of_digits_eq_zero hzero]
    exact Binary64.isNearest_zero_iff.2 (by norm_num)
  next hzero =>
    rw [if_neg hzero]
    split at h
    -- The shortcut for large numbers gives `overflow`, which is excluded.
    next hlarge => exact absurd h (Nat.lt_irrefl _)
    next hlarge =>
      rw [if_neg hlarge]
      split
      next hsmall => exact isNearest_zero_of_small hsmall
      next hsmall =>
        rw [← numerator_div_denominator]
        exact nearestOrdinal_isNearest _ d.denominator_pos

/-- A decimal number is read as the finite magnitude that is nearest to it. -/
theorem ordinal_eq_of_isNearest {d : Decimal} {n : Nat} (hn : n < overflow)
    (h : IsNearest d.inUnits n) : d.ordinal = n := by
  rw [ordinal]
  split
  next hzero =>
    rw [inUnits_of_digits_eq_zero hzero] at h
    exact IsNearest.unique (Binary64.isNearest_zero_iff.2 (by norm_num)) h
  next hzero =>
    split
    next hlarge => exact absurd h (not_isNearest_of_large hzero hlarge hn)
    next hlarge =>
      split
      next hsmall => exact (isNearest_zero_of_small hsmall).unique h
      next hsmall =>
        rw [← numerator_div_denominator] at h
        exact (nearestOrdinal_isNearest _ d.denominator_pos).unique h

/-- A decimal number is read as zero if it is at most half of the least positive
    magnitude, and only then. -/
theorem ordinal_eq_zero_iff (d : Decimal) : d.ordinal = 0 ↔ 2 * d.inUnits ≤ 1 := by
  rw [← Binary64.isNearest_zero_iff]
  constructor
  · intro hzero
    have hnearest := ordinal_isNearest (d := d) (by rw [hzero]; decide)
    rwa [hzero] at hnearest
  · exact ordinal_eq_of_isNearest (by decide)

/-- How a number is written makes no difference to the magnitude it is read as. -/
theorem ordinal_congr {d e : Decimal} (h : d.inUnits = e.inUnits)
    (hd : d.ordinal < overflow) : e.ordinal = d.ordinal :=
  ordinal_eq_of_isNearest hd (h ▸ ordinal_isNearest hd)

/-- Nor does it to the value, which may be infinite. -/
theorem toBinary64_congr {d e : Decimal} (h : d.inUnits = e.inUnits) (negative : Bool) :
    d.toBinary64 negative = e.toBinary64 negative := by
  rw [toBinary64, toBinary64, Binary64.ofOrdinal, Binary64.ofOrdinal]
  by_cases hd : d.ordinal < overflow
  · rw [ordinal_congr h hd]
  · have he : ¬ e.ordinal < overflow := fun he => hd (ordinal_congr h.symm he ▸ he)
    rw [dif_neg hd, dif_neg he]

theorem toBinary64_eq_finite_iff {d : Decimal} {negative s : Bool} {n : Fin overflow} :
    d.toBinary64 negative = .finite s n ↔ negative = s ∧ d.ordinal = n :=
  Binary64.ofOrdinal_eq_finite_iff

end InfixArithmetic.Decimal
