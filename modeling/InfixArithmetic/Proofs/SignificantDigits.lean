/-
  InfixArithmetic.Proofs.SignificantDigits

  No decimal with fewer significant digits than `Decimal.shortest` is read as the same
  magnitude.

  The search looks at two numbers on each grid only, the neighbours of the magnitude.
  That is enough: the numbers that are read as one magnitude are an interval
  (`Binary64.IsNearest.between`), so if any number of a grid is among them, one of the
  neighbours is (`onGrid?_isSome_of_ordinal`).  The grids are placed by the first digit of
  the magnitude, and a shorter decimal may have its first digit at another place.  Then a
  power of ten lies between the decimal and the magnitude, and a single digit is enough.
-/

import InfixArithmetic.Proofs.ExactIntegers
import InfixArithmetic.Proofs.ShortestDigits

namespace InfixArithmetic

/-! ## The numbers nearest to one magnitude -/

namespace Binary64

/-- A number between two that are nearest to a magnitude is nearest to it as well. -/
theorem IsNearest.between {u v w : ℚ} {n : Nat} (hu : IsNearest u n) (hw : IsNearest w n)
    (huv : u ≤ v) (hvw : v ≤ w) : IsNearest v n where
  le_above := by
    have habove := hw.le_above
    linarith
  even_above h := hw.even_above (le_antisymm hw.le_above (by linarith))
  below_le m hm := by
    have hbelow := hu.below_le m hm
    linarith
  even_below m hm h := hu.even_below m hm (le_antisymm (hu.below_le m hm) (by linarith))

/-- A greater number is not nearest to a smaller magnitude. -/
theorem IsNearest.le_of_le {v w : ℚ} {m n : Nat} (hm : IsNearest v m) (hn : IsNearest w n)
    (h : v ≤ w) : m ≤ n := by
  rcases h.eq_or_lt with rfl | hlt
  · exact (hm.unique hn).le
  · by_contra hnm
    obtain ⟨k, rfl⟩ : ∃ k, m = k + 1 := ⟨m - 1, by omega⟩
    have habove := hn.le_above
    have hbelow := hm.below_le k rfl
    have hlow : (units n : ℚ) ≤ units k := by
      exact_mod_cast units_strictMono.monotone (by omega : n ≤ k)
    have hhigh : (units (n + 1) : ℚ) ≤ units (k + 1) := by
      exact_mod_cast units_strictMono.monotone (by omega : n + 1 ≤ k + 1)
    linarith

end Binary64

theorem Exact.digitCount_le_iff {n k : Nat} : Exact.digitCount n ≤ k ↔ n < 10 ^ k := by
  constructor
  · intro h
    exact (Exact.lt_pow_digitCount n).trans_le (Nat.pow_le_pow_right (by decide) h)
  · intro h
    by_contra hk
    rcases Nat.eq_zero_or_pos n with rfl | hpos
    · rw [Exact.digitCount, if_pos rfl] at hk
      omega
    · have hle := Exact.pow_digitCount_le hpos.ne'
      have hmono : 10 ^ k ≤ 10 ^ (Exact.digitCount n - 1) :=
        Nat.pow_le_pow_right (by decide) (by omega)
      omega

namespace Decimal

open Binary64 (IsNearest units unitsPerOne overflow isNearest_units)
open Exact (digitCount digitCount_le_iff)

/-! ## Significant digits -/

/-- The exact number. -/
def exact (d : Decimal) : ℚ := d.digits * 10 ^ d.exponent

/-- How many digits the number needs, without zeros at either end. -/
def significantDigits (d : Decimal) : Nat := digitCount d.normalize.digits

theorem inUnits_eq_iff {d e : Decimal} : d.inUnits = e.inUnits ↔ d.exact = e.exact :=
  mul_left_inj' unitsPerOne_pos.ne'

theorem exact_normalize (d : Decimal) : d.normalize.exact = d.exact :=
  inUnits_eq_iff.1 (normalize_inUnits d)

theorem normalize_trailing (d : Decimal) :
    d.normalize.digits = 0 ∨ d.normalize.digits % 10 ≠ 0 := by
  induction d using normalize.induct with
  | case1 d h ih =>
    rw [normalize, dif_pos h]
    exact ih
  | case2 d h =>
    rw [normalize, dif_neg h]
    omega

/-- Digits without a zero at the end cannot be moved to a higher place. -/
theorem le_exponent_of_trailing {m a : Nat} {f e : Int} (hm : m % 10 ≠ 0)
    (h : (m : ℚ) * 10 ^ f = a * 10 ^ e) : e ≤ f := by
  by_contra hlt
  obtain ⟨k, rfl⟩ : ∃ k : Nat, e = f + (k + 1 : Nat) := ⟨(e - f - 1).toNat, by omega⟩
  have hpow : (10 : ℚ) ^ f ≠ 0 := zpow_ne_zero _ (by norm_num)
  rw [zpow_add₀ (by norm_num), zpow_natCast, mul_left_comm, mul_comm, mul_right_inj' hpow] at h
  have hnat : m = a * 10 ^ (k + 1) := by exact_mod_cast h
  rw [pow_succ, ← Nat.mul_assoc] at hnat
  omega

/-- A number needs at most `k` digits if it is a number of `k` digits at some place. -/
theorem significantDigits_le_iff {d : Decimal} {k : Nat} :
    d.significantDigits ≤ k ↔ ∃ (a : Nat) (e : Int), a < 10 ^ k ∧ d.exact = a * 10 ^ e := by
  rw [significantDigits, digitCount_le_iff]
  constructor
  · intro h
    exact ⟨d.normalize.digits, d.normalize.exponent, h, (exact_normalize d).symm⟩
  · rintro ⟨a, e, ha, hvalue⟩
    rw [← exact_normalize, exact] at hvalue
    rcases normalize_trailing d with hzero | htrailing
    · rw [hzero]
      exact Nat.pow_pos (by decide)
    · have hle := le_exponent_of_trailing htrailing hvalue
      obtain ⟨j, hj⟩ : ∃ j : Nat, d.normalize.exponent = e + j :=
        ⟨(d.normalize.exponent - e).toNat, by omega⟩
      have hpow : (10 : ℚ) ^ e ≠ 0 := zpow_ne_zero _ (by norm_num)
      rw [hj, zpow_add₀ (by norm_num), zpow_natCast, mul_left_comm, mul_comm,
        mul_left_inj' hpow] at hvalue
      have hnat : d.normalize.digits * 10 ^ j = a := by exact_mod_cast hvalue
      exact (Nat.le_mul_of_pos_right _ (Nat.pow_pos (by decide))).trans_lt (hnat ▸ ha)

/-- How a number is written makes no difference to the digits it needs. -/
theorem significantDigits_congr {d e : Decimal} (h : d.exact = e.exact) :
    d.significantDigits = e.significantDigits := by
  apply Nat.le_antisymm
  · rw [significantDigits_le_iff, h]
    exact significantDigits_le_iff.1 le_rfl
  · rw [significantDigits_le_iff, ← h]
    exact significantDigits_le_iff.1 le_rfl

theorem exact_eq_zero_of_significantDigits {d : Decimal} (h : d.significantDigits = 0) :
    d.exact = 0 := by
  obtain ⟨a, e, ha, hvalue⟩ := significantDigits_le_iff.1 h.le
  rw [pow_zero, Nat.lt_one_iff] at ha
  rw [hvalue, ha, Nat.cast_zero, zero_mul]

/-! ## The place of the first digit -/

theorem quotient_lt_pow_digitCount {m u B k : Nat} (hu : 0 < u) (hB : B = 10 ^ k) :
    (m : ℚ) < 10 ^ ((digitCount (m * B / u) : Int) - 1 - k + 1) * u := by
  subst hB
  have hcount := Exact.lt_pow_digitCount (m * 10 ^ k / u)
  generalize digitCount (m * 10 ^ k / u) = c at hcount ⊢
  have hlt : m * 10 ^ k < 10 ^ c * u := Nat.lt_mul_of_div_lt hcount hu
  have hltQ : (m : ℚ) * 10 ^ k < 10 ^ c * u := by exact_mod_cast hlt
  rw [show (c : Int) - 1 - k + 1 = c - k by omega, zpow_sub₀ (by norm_num), zpow_natCast,
    zpow_natCast, div_mul_eq_mul_div, lt_div_iff₀ (by positivity)]
  exact hltQ

/-- The place of the first digit: the magnitude is below the next power of ten. -/
theorem lt_pow_leadingExponent (m : Nat) :
    (m : ℚ) < 10 ^ (leadingExponent m + 1) * unitsPerOne := by
  rw [leadingExponent]
  refine quotient_lt_pow_digitCount (k := 324) Binary64.zero_lt_unitsPerOne ?_
  decide +kernel

/-! ## The search -/

/-- If a number on a grid is read as a magnitude, something is found on that grid. -/
theorem onGrid?_isSome_of_ordinal {n c : Nat} {e : Int} (hfinite : n < overflow)
    (h : ordinal ⟨c, e⟩ = n) : (onGrid? n e).isSome = true := by
  obtain ⟨hlow, hhigh⟩ := gridBelow_spec n e
  have hnearest : IsNearest (inUnits ⟨c, e⟩) n := h ▸ ordinal_isNearest (h.symm ▸ hfinite)
  have hstep : (0 : ℚ) < 10 ^ e * unitsPerOne :=
    mul_pos (zpow_pos (by norm_num) _) unitsPerOne_pos
  have hmono {a b : Nat} (hab : a ≤ b) : inUnits ⟨a, e⟩ ≤ inUnits ⟨b, e⟩ := by
    rw [inUnits, inUnits, mul_assoc, mul_assoc]
    exact mul_le_mul_of_nonneg_right (by exact_mod_cast hab) hstep.le
  apply onGrid?_isSome
  -- The number is on one side of the magnitude, and the neighbour there is between them.
  rcases Nat.lt_or_ge (gridBelow n e) c with habove | hbelow
  · right
    refine ordinal_eq_of_isNearest hfinite ?_
    exact (isNearest_units n).between hnearest hhigh.le (hmono habove)
  · left
    refine ordinal_eq_of_isNearest hfinite ?_
    exact hnearest.between (isNearest_units n) (hmono hbelow) hlow

/-- Only the neighbours of the magnitude are found on a grid. -/
theorem mem_neighbours_of_onGrid? {n : Nat} {e : Int} {d : Decimal} (h : onGrid? n e = some d) :
    d = ⟨gridBelow n e, e⟩ ∨ d = ⟨gridBelow n e + 1, e⟩ := by
  simp only [onGrid?] at h
  split at h
  next => exact absurd h (by simp)
  next => exact .inl (Option.some.inj h).symm
  next => exact .inr (Option.some.inj h).symm
  next =>
    obtain rfl := Option.some.inj h
    split
    · exact .inl rfl
    · exact .inr rfl

/-- The neighbour above a magnitude is at most the power of ten above it. -/
theorem gridBelow_lt (n places : Nat) :
    gridBelow n (leadingExponent (units n) - places) < 10 ^ (places + 1) := by
  obtain ⟨hlow, -⟩ := gridBelow_spec n (leadingExponent (units n) - places)
  have hfirst := lt_pow_leadingExponent (units n)
  generalize gridBelow n (leadingExponent (units n) - places) = q at hlow ⊢
  generalize leadingExponent (units n) = first at hlow hfirst
  have hpow : (10 : ℚ) ^ (first + 1) = 10 ^ (places + 1) * 10 ^ (first - places) := by
    rw [← zpow_natCast, ← zpow_add₀ (by norm_num)]
    congr 1
    omega
  have hlt := hlow.trans_lt hfirst
  rw [inUnits, hpow, mul_assoc, mul_assoc] at hlt
  have hltQ := lt_of_mul_lt_mul_right hlt
    (mul_pos (zpow_pos (by norm_num) _) unitsPerOne_pos).le
  exact_mod_cast hltQ

/-- What is found on the grid of some places needs no more digits than that. -/
theorem significantDigits_of_onGrid? {n places : Nat} {d : Decimal}
    (h : onGrid? n (leadingExponent (units n) - places) = some d) :
    d.significantDigits ≤ places + 1 := by
  have hbelow := gridBelow_lt n places
  have hneighbour := mem_neighbours_of_onGrid? h
  generalize leadingExponent (units n) - places = e at hbelow hneighbour
  generalize gridBelow n e = q at hbelow hneighbour
  rw [significantDigits_le_iff]
  rcases hneighbour with rfl | rfl
  · exact ⟨q, e, hbelow, rfl⟩
  · rcases Nat.lt_or_ge (q + 1) (10 ^ (places + 1)) with hlt | hcarry
    · exact ⟨q + 1, e, hlt, rfl⟩
    -- The neighbour above is a power of ten, which has a single digit.
    · have hpower : q + 1 = 10 ^ (places + 1) := by omega
      refine ⟨1, (places + 1 : Nat) + e, Nat.one_lt_pow (by omega) (by decide), ?_⟩
      rw [exact, hpower, zpow_add₀ (by norm_num), zpow_natCast, Nat.cast_pow, Nat.cast_one,
        one_mul, Nat.cast_ofNat]

/-- The search ends on the first grid on which something is found. -/
theorem significantDigits_shortest_le_of_onGrid? {n : Nat} (places : Nat) (hplaces : places < 17)
    (h : (onGrid? n (leadingExponent (units n) - places)).isSome = true) :
    (shortest n).significantDigits ≤ places + 1 := by
  have hsome : ((List.range 17).findSome? fun (p : Nat) =>
      onGrid? n (leadingExponent (units n) - p)).isSome = true := by
    rw [List.findSome?_isSome_iff]
    exact ⟨places, List.mem_range.2 hplaces, h⟩
  obtain ⟨d, hd⟩ := Option.isSome_iff_exists.1 hsome
  obtain ⟨before, p, after, hrange, hgrid, hnone⟩ := List.findSome?_eq_some_iff.1 hd
  have hle : p ≤ places := by
    have hsorted := List.pairwise_lt_range (n := 17)
    have hmem := List.mem_range.2 hplaces
    rw [hrange] at hsorted hmem
    rcases List.mem_append.1 hmem with hbefore | hrest
    · rw [hnone places hbefore] at h
      cases h
    · rcases List.mem_cons.1 hrest with rfl | hafter
      · exact le_rfl
      · exact (List.rel_of_pairwise_cons (List.pairwise_append.1 hsorted).2.1 hafter).le
  have hvalue : (shortest n).significantDigits = d.significantDigits := by
    simp only [shortest, hd, Option.getD_some]
    exact significantDigits_congr (exact_normalize d)
  rw [hvalue]
  exact (significantDigits_of_onGrid? hgrid).trans (by omega)

/-- One digit is enough if the power of ten at or after the first digit is read as the
    magnitude. -/
theorem significantDigits_shortest_le_one {n c : Nat} (hfinite : n < overflow)
    (h : ordinal ⟨c, leadingExponent (units n)⟩ = n) : (shortest n).significantDigits ≤ 1 := by
  apply significantDigits_shortest_le_of_onGrid? 0 (by decide)
  rw [Nat.cast_zero, Int.sub_zero]
  exact onGrid?_isSome_of_ordinal hfinite h

/-- A decimal from the first digit of the magnitude on lies on the grid of as many places as
    it has digits. -/
theorem exists_ordinal_on_grid {n places : Nat} {d : Decimal} (hfinite : n < overflow)
    (h : d.ordinal = n) (hdigits : d.significantDigits ≤ places + 1)
    (hlow : 10 ^ leadingExponent (units n) * (unitsPerOne : ℚ) ≤ d.inUnits) :
    ∃ c, ordinal ⟨c, leadingExponent (units n) - places⟩ = n := by
  obtain ⟨a, e, ha, hvalue⟩ := significantDigits_le_iff.1 hdigits
  generalize leadingExponent (units n) = first at hlow ⊢
  have hplace : first - places ≤ e := by
    by_contra hlt
    have hpow : (0 : ℚ) < 10 ^ e := zpow_pos (by norm_num) _
    have haQ : (a : ℚ) < 10 ^ (places + 1) := by exact_mod_cast ha
    have hle := le_of_mul_le_mul_right (show (10 : ℚ) ^ first * unitsPerOne
      ≤ a * 10 ^ e * unitsPerOne by rw [← hvalue]; exact hlow) unitsPerOne_pos
    have hfirst : (10 : ℚ) ^ (places + 1) * 10 ^ e ≤ 10 ^ first := by
      rw [← zpow_natCast, ← zpow_add₀ (by norm_num)]
      exact zpow_le_zpow_right₀ (by norm_num) (by omega)
    have hlt := mul_lt_mul_of_pos_right haQ hpow
    linarith
  obtain ⟨j, rfl⟩ : ∃ j : Nat, e = first - places + j := ⟨(e - (first - places)).toNat, by omega⟩
  refine ⟨a * 10 ^ j, ?_⟩
  have hsame : d.inUnits = inUnits ⟨a * 10 ^ j, first - places⟩ := by
    rw [inUnits_eq_iff, hvalue, exact, zpow_add₀ (by norm_num), zpow_natCast, Nat.cast_mul,
      Nat.cast_pow, Nat.cast_ofNat]
    ring
  rw [ordinal_congr hsame (h.symm ▸ hfinite), h]

/-- No decimal that is read as a magnitude has fewer significant digits than the one that
    `shortest` finds. -/
theorem significantDigits_shortest_le {n : Nat} (hn : 0 < n) (hfinite : n < overflow)
    {d : Decimal} (h : d.ordinal = n) : (shortest n).significantDigits ≤ d.significantDigits := by
  have hnearest : IsNearest d.inUnits n := h ▸ ordinal_isNearest (h.symm ▸ hfinite)
  have hunits := isNearest_units n
  have hfirst := pow_leadingExponent_le (Binary64.units_strictMono hn)
  have hnext := lt_pow_leadingExponent (units n)
  have hpositive : 1 ≤ d.significantDigits := by
    by_contra hzero
    have hexact := exact_eq_zero_of_significantDigits (d := d) (by omega)
    have hordinal : d.ordinal = 0 := by
      rw [ordinal_eq_zero_iff, inUnits, ← exact, hexact, zero_mul, mul_zero]
      exact zero_le_one
    omega
  have hone : inUnits ⟨1, leadingExponent (units n)⟩
      = 10 ^ leadingExponent (units n) * unitsPerOne := by
    rw [inUnits, Nat.cast_one, one_mul]
  have hten : inUnits ⟨10, leadingExponent (units n)⟩
      = 10 ^ (leadingExponent (units n) + 1) * unitsPerOne := by
    rw [inUnits, zpow_add₀ (by norm_num), zpow_one, Nat.cast_ofNat, mul_comm (10 : ℚ)]
  -- Where is the decimal, seen from the powers of ten around the magnitude?
  rcases lt_or_ge d.inUnits (inUnits ⟨1, leadingExponent (units n)⟩) with hbelow | hlow
  · have hread := ordinal_eq_of_isNearest hfinite
      (hnearest.between hunits hbelow.le (hone ▸ hfirst))
    exact (significantDigits_shortest_le_one hfinite hread).trans hpositive
  · rcases le_or_gt (inUnits ⟨10, leadingExponent (units n)⟩) d.inUnits with habove | hhigh
    · have hread := ordinal_eq_of_isNearest hfinite
        (hunits.between hnearest (hten ▸ hnext.le) habove)
      exact (significantDigits_shortest_le_one hfinite hread).trans hpositive
    · obtain ⟨places, hplaces⟩ : ∃ places, d.significantDigits = places + 1 :=
        ⟨d.significantDigits - 1, by omega⟩
      rw [hplaces]
      rcases Nat.lt_or_ge places 17 with hfew | hmany
      · obtain ⟨c, hc⟩ := exists_ordinal_on_grid hfinite h hplaces.le (hone ▸ hlow)
        have hsome := onGrid?_isSome_of_ordinal hfinite hc
        exact significantDigits_shortest_le_of_onGrid? places hfew hsome
      · have hseventeen := significantDigits_shortest_le_of_onGrid? 16 (by decide)
          (onGrid?_seventeen hn hfinite)
        omega

end Decimal

end InfixArithmetic
