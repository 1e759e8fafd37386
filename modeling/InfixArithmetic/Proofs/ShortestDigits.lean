/-
  InfixArithmetic.Proofs.ShortestDigits

  `Decimal.shortest` always finds digits that read back.

  Seventeen digits are enough: the neighbours on that grid are less than a part in
  10^16 of the magnitude apart, and a magnitude is never more than 2^53 times its
  distance to the next one (`Binary64.units_succ_le`), which holds below a power of
  two as well, where the magnitudes lie twice as dense.  So the nearer neighbour is on
  the right side of both midpoints, and the search ends on the last grid at the latest.
-/

import InfixArithmetic.Decimal.Shortest
import InfixArithmetic.Proofs.DecimalValue

namespace InfixArithmetic.Decimal

open Binary64 (IsNearest units unitsPerOne overflow gap)
open Exact (digitCount)

/-! ## Zeros at the end -/

/-- Moving a zero from the digits into the exponent keeps the number. -/
theorem normalize_inUnits (d : Decimal) : d.normalize.inUnits = d.inUnits := by
  induction d using normalize.induct with
  | case1 d h ih =>
    rw [normalize, dif_pos h, ih, inUnits, inUnits]
    have hdigits : d.digits = d.digits / 10 * 10 := by omega
    have hdigitsQ : (d.digits : ℚ) = (d.digits / 10 : Nat) * 10 := by exact_mod_cast hdigits
    dsimp only
    rw [hdigitsQ, zpow_add₀ (by norm_num), zpow_one]
    ring
  | case2 d h => rw [normalize, dif_neg h]

/-! ## Close numbers -/

/-- A number within half a part in 10^16 of a magnitude is read as that magnitude. -/
theorem isNearest_of_close {v : ℚ} {n : Nat} (hn : 0 < n)
    (habove : 2 * (v - units n) * 10 ^ 16 ≤ units n)
    (hbelow : 2 * (units n - v) * 10 ^ 16 ≤ units n) : IsNearest v n := by
  have hpos : 0 < units n := Binary64.units_strictMono hn
  have hposQ : (0 : ℚ) < units n := by exact_mod_cast hpos
  apply Binary64.isNearest_of_strict
  · have hgap : units (n + 1) ≤ 2 ^ 53 * gap n := Binary64.units_succ_le n
    rw [Binary64.units_succ] at hgap ⊢
    have hgapQ : (units n : ℚ) + gap n ≤ 2 ^ 53 * gap n := by exact_mod_cast hgap
    push_cast
    linarith
  · rintro m rfl
    have hgap : units (m + 1) ≤ 2 ^ 53 * gap m := Binary64.units_succ_le m
    have hgapQ : (units (m + 1) : ℚ) ≤ 2 ^ 53 * gap m := by exact_mod_cast hgap
    have hsucc : (units (m + 1) : ℚ) = units m + gap m := by
      rw [Binary64.units_succ]
      push_cast
      rfl
    linarith

/-! ## The grid -/

/-- The place of the first digit of a quotient, seen from the whole part of a
    multiple of it that is at least one. -/
theorem pow_digitCount_le_quotient {m u B k : Nat} (hm : 0 < m) (hu : 0 < u)
    (hB : B = 10 ^ k) (hk : u ≤ B) :
    (10 : ℚ) ^ ((digitCount (m * B / u) : Int) - 1 - k) * u ≤ m := by
  subst hB
  -- The scaled quotient is at least one, so its digits can be counted.
  have hwhole : m * 10 ^ k / u ≠ 0 :=
    (Nat.div_pos (hk.trans (Nat.le_mul_of_pos_left _ hm)) hu).ne'
  have hcount := Exact.pow_digitCount_le hwhole
  have hdigits : digitCount (m * 10 ^ k / u) ≠ 0 := by
    rw [digitCount, if_neg hwhole]
    omega
  have hfloor : m * 10 ^ k / u * u ≤ m * 10 ^ k := Nat.div_mul_le_self _ _
  generalize m * 10 ^ k / u = w at hcount hdigits hfloor
  generalize digitCount w = c at hcount hdigits ⊢
  have hbound : 10 ^ (c - 1) * u ≤ m * 10 ^ k := (Nat.mul_le_mul_right u hcount).trans hfloor
  have hboundQ : (10 : ℚ) ^ (c - 1) * u ≤ m * 10 ^ k := by exact_mod_cast hbound
  rw [show (c : Int) - 1 - k = ((c - 1 : Nat) : Int) - k by omega, zpow_sub₀ (by norm_num),
    zpow_natCast, zpow_natCast, div_mul_eq_mul_div, div_le_iff₀ (by positivity)]
  exact hboundQ

/-- The place of the first digit: the magnitude is not below that power of ten. -/
theorem pow_leadingExponent_le {m : Nat} (hm : 0 < m) :
    10 ^ leadingExponent m * (unitsPerOne : ℚ) ≤ m := by
  rw [leadingExponent]
  refine pow_digitCount_le_quotient (k := 324) hm Binary64.zero_lt_unitsPerOne ?_ ?_
  · decide +kernel
  · decide +kernel

/-- The quotient on the grid is the magnitude in steps of the grid. -/
theorem scaled_spec (m : Nat) (e : Int) :
    0 < (scaled m e).2 ∧
      ((scaled m e).1 : ℚ) / (scaled m e).2 * (10 ^ e * unitsPerOne) = m := by
  have hU := unitsPerOne_pos
  rw [scaled]
  generalize unitsPerOne = u at hU ⊢
  have hu : 0 < u := by exact_mod_cast hU
  refine ⟨Nat.mul_pos hu (Nat.pow_pos (by decide)), ?_⟩
  obtain ⟨n, rfl | rfl⟩ := e.eq_nat_or_neg
  · have hneg : (-(n : Int)).toNat = 0 := by omega
    simp only [hneg, Int.toNat_natCast, zpow_natCast]
    push_cast
    field_simp
  · have hneg : (-(n : Int)).toNat = 0 := by omega
    simp only [hneg, neg_neg, Int.toNat_natCast, zpow_neg, zpow_natCast]
    push_cast
    field_simp

/-- The digits of the neighbour below a magnitude on a grid. -/
def gridBelow (n : Nat) (e : Int) : Nat := (scaled (units n) e).1 / (scaled (units n) e).2

/-- The magnitude lies between its neighbours on the grid. -/
theorem gridBelow_spec (n : Nat) (e : Int) :
    inUnits ⟨gridBelow n e, e⟩ ≤ units n ∧ (units n : ℚ) < inUnits ⟨gridBelow n e + 1, e⟩ := by
  obtain ⟨hden, hscaled⟩ := scaled_spec (units n) e
  have hstep : (0 : ℚ) < 10 ^ e * unitsPerOne :=
    mul_pos (zpow_pos (by norm_num) _) unitsPerOne_pos
  rw [inUnits, inUnits, gridBelow, mul_assoc, mul_assoc, ← hscaled]
  generalize (10 : ℚ) ^ e * unitsPerOne = g at hstep
  generalize (scaled (units n) e).1 = num
  generalize (scaled (units n) e).2 = den at hden
  have hdenQ : (0 : ℚ) < den := by exact_mod_cast hden
  constructor
  · refine mul_le_mul_of_nonneg_right ?_ hstep.le
    rw [le_div_iff₀ hdenQ]
    exact_mod_cast Nat.div_mul_le_self num den
  · refine mul_lt_mul_of_pos_right ?_ hstep
    rw [div_lt_iff₀ hdenQ]
    exact_mod_cast Nat.lt_mul_of_div_lt (Nat.lt_succ_self _) hden

/-- What is found on a grid reads back. -/
theorem ordinal_of_onGrid? {n : Nat} {e : Int} {d : Decimal} (h : onGrid? n e = some d) :
    d.ordinal = n := by
  simp only [onGrid?] at h
  split at h
  next => exact absurd h (by simp)
  next hbelow _ =>
    obtain rfl := Option.some.inj h
    exact beq_iff_eq.1 hbelow
  next _ habove =>
    obtain rfl := Option.some.inj h
    exact beq_iff_eq.1 habove
  next hbelow habove =>
    obtain rfl := Option.some.inj h
    split
    · exact beq_iff_eq.1 hbelow
    · exact beq_iff_eq.1 habove

/-- Something is found on a grid if one of the two neighbours reads back. -/
theorem onGrid?_isSome {n : Nat} {e : Int}
    (h : ordinal ⟨gridBelow n e, e⟩ = n ∨ ordinal ⟨gridBelow n e + 1, e⟩ = n) :
    (onGrid? n e).isSome = true := by
  simp only [gridBelow, ← beq_iff_eq (b := n)] at h
  simp only [onGrid?]
  split
  next hbelow habove =>
    rw [hbelow, habove] at h
    simp at h
  next => rfl
  next => rfl
  next => rfl

/-- On the grid of seventeen digits one of the two neighbours reads back. -/
theorem onGrid?_seventeen {n : Nat} (hn : 0 < n) (hfinite : n < overflow) :
    (onGrid? n (leadingExponent (units n) - 16)).isSome = true := by
  have hfirst := pow_leadingExponent_le (Binary64.units_strictMono hn)
  obtain ⟨hlow, hhigh⟩ := gridBelow_spec n (leadingExponent (units n) - 16)
  apply onGrid?_isSome
  generalize gridBelow n (leadingExponent (units n) - 16) = q at hlow hhigh ⊢
  generalize leadingExponent (units n) = first at hfirst hlow hhigh ⊢
  -- One step of the grid, of which the magnitude has at least 10^16.
  obtain ⟨g, hg⟩ : ∃ g : ℚ, g = 10 ^ (first - 16) * unitsPerOne := ⟨_, rfl⟩
  have hstep : g * 10 ^ 16 ≤ units n := by
    have hpow : (10 : ℚ) ^ (first - 16) * 10 ^ 16 = 10 ^ first := by
      rw [← zpow_natCast, ← zpow_add₀ (by norm_num)]
      congr 1
      omega
    refine le_trans (le_of_eq ?_) hfirst
    rw [hg, mul_right_comm, hpow]
  have hunits (k : Nat) : inUnits ⟨k, first - 16⟩ = k * g := by
    rw [inUnits, mul_assoc, ← hg]
  rw [hunits] at hlow hhigh
  push_cast at hhigh
  -- Whichever neighbour is the nearer one, it is at most half a step away.
  by_cases hnearer : 2 * (units n : ℚ) ≤ 2 * (q * g) + g
  · left
    refine ordinal_eq_of_isNearest hfinite ?_
    rw [hunits]
    refine isNearest_of_close hn ?_ ?_ <;> linarith
  · right
    refine ordinal_eq_of_isNearest hfinite ?_
    rw [hunits]
    push_cast
    refine isNearest_of_close hn ?_ ?_ <;> linarith

/-! ## The search -/

/-- The search ends with digits that read back. -/
theorem ordinal_shortest {n : Nat} (hn : 0 < n) (hfinite : n < overflow) :
    (shortest n).ordinal = n := by
  have hsome : ((List.range 17).findSome? fun (places : Nat) =>
      onGrid? n (leadingExponent (units n) - places)).isSome = true := by
    rw [List.findSome?_isSome_iff]
    exact ⟨16, by decide, onGrid?_seventeen hn hfinite⟩
  obtain ⟨d, hd⟩ := Option.isSome_iff_exists.1 hsome
  obtain ⟨places, -, hgrid⟩ := List.exists_of_findSome?_eq_some hd
  have hordinal : d.ordinal = n := ordinal_of_onGrid? hgrid
  -- Dropping the zeros at the end changes the digits, not the number.
  have hnormalize := ordinal_congr (normalize_inUnits d).symm (hordinal ▸ hfinite)
  simp only [shortest, hd, Option.getD_some, hnormalize, hordinal]

end InfixArithmetic.Decimal
