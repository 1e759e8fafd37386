/-
  InfixArithmetic.Proofs.ExactIntegers

  Integers among the floating-point values.

  Every integer up to 2^53 is a value (`exists_units_eq`), and rounding keeps what is a
  value (`nearestOrdinal_eq_of_units`), so sums, differences and products that do not
  leave this range are exact.  Quotients and roots are not, but they cannot be rounded
  up to the next integer: that would take a number within 2^-53 of it, relative to its
  size (`nearestOrdinal_lt`), and a quotient or root of smaller integers that is not an
  integer stays farther away.
-/

import InfixArithmetic.Binary64.Arithmetic
import InfixArithmetic.Proofs.DecimalValue
import Mathlib.Algebra.Order.Floor.Ring
import Mathlib.Data.Rat.Floor

namespace InfixArithmetic.Binary64

open Decimal (unitsPerOne_pos units_overflow)
open Exact (floorRoot floorRoot_bounds)

/-! ## Exact values -/

theorem unitsPerOne_bounds :
    2 ^ 78 < unitsPerOne ∧ 2 ^ 53 * unitsPerOne < 2 ^ 52 * 2 ^ 2046 := by decide +kernel

/-- The exact value of a finite value. -/
def value? : Binary64 → Option ℚ
  | finite s n => some (signedUnits s n / unitsPerOne)
  | _ => none

@[simp] theorem value?_finite (s : Bool) (n : Fin overflow) :
    (finite s n).value? = some (signedUnits s n / unitsPerOne : ℚ) := rfl

theorem natAbs_signedUnits (s : Bool) (n : Nat) : (signedUnits s n).natAbs = units n := by
  cases s <;> simp [signedUnits]

theorem value?_eq_some_iff {x : Binary64} {q : ℚ} :
    x.value? = some q ↔
      ∃ s n, x = finite s n ∧ (signedUnits s n : ℚ) = q * unitsPerOne := by
  have hu := unitsPerOne_pos.ne'
  cases x with
  | nan | infinite s =>
    constructor
    · exact nofun
    · rintro ⟨t, n, h, -⟩
      cases h
  | finite s n =>
    rw [value?_finite, Option.some.injEq, div_eq_iff hu]
    constructor
    · exact fun h => ⟨s, n, rfl, h⟩
    · rintro ⟨s, n, ⟨⟩, h⟩
      exact h

/-- An integer with the given sign and magnitude. -/
def signed (s : Bool) (k : Nat) : Int := if s then -k else k

/-- The units of a value that is an integer. -/
theorem exists_of_value? {x : Binary64} {i : Int} (h : x.value? = some (i : ℚ)) :
    ∃ s n, x = finite s n ∧ signedUnits s n = i * unitsPerOne ∧
      units n = i.natAbs * unitsPerOne ∧ i = signed s i.natAbs := by
  obtain ⟨s, n, rfl, hunits⟩ := value?_eq_some_iff.1 h
  have hpos := zero_lt_unitsPerOne
  have hsigned : signedUnits s n = signed s (units n) := rfl
  have hmagnitude := natAbs_signedUnits s n
  refine ⟨s, n, rfl, ?_⟩
  generalize unitsPerOne = u at hunits hpos
  have hint : signedUnits s n = i * u := by exact_mod_cast hunits
  rw [hint, Int.natAbs_mul, Int.natAbs_natCast] at hmagnitude
  refine ⟨hint, hmagnitude.symm, ?_⟩
  rw [hint, ← hmagnitude] at hsigned
  have hfactor : signed s (i.natAbs * u) = signed s i.natAbs * u := by cases s <;> simp [signed]
  rw [hfactor] at hsigned
  exact Int.eq_of_mul_eq_mul_right (by omega) hsigned

/-! ## Integers as magnitudes -/

theorem isNearest_units (n : Nat) : IsNearest (units n) n := by
  have hlt {m : Nat} : (units m : ℚ) < units (m + 1) := by
    exact_mod_cast units_strictMono (Nat.lt_succ_self m)
  refine isNearest_of_strict ?_ ?_
  · have habove := hlt (m := n)
    linarith
  · rintro m rfl
    have hbelow := hlt (m := m)
    linarith

theorem units_eq_zero_iff {n : Nat} : units n = 0 ↔ n = 0 :=
  units_strictMono.injective.eq_iff' rfl

/-- A magnitude is rounded to itself. -/
theorem nearestOrdinal_eq_of_units {num den n : Nat} (hden : 0 < den)
    (h : num = units n * den) : nearestOrdinal num den = n := by
  have hnearest := nearestOrdinal_isNearest num hden
  have hdenQ : (den : ℚ) ≠ 0 := by exact_mod_cast hden.ne'
  rw [h, Nat.cast_mul, mul_div_cancel_right₀ _ hdenQ] at hnearest
  rw [h]
  exact hnearest.unique (isNearest_units n)

/-- An integer of at most 53 binary digits is a magnitude: it is brought to exactly 53 by
    doubling, and its units have as many factors two fewer. -/
theorem exists_units_eq {k : Nat} (hk : k ≤ 2 ^ 53) :
    ∃ n, units n = k * unitsPerOne ∧ n < overflow := by
  have hfinite {n : Nat} (hn : units n = k * unitsPerOne) : n < overflow := by
    rw [← units_strictMono.lt_iff_lt, hn, units_overflow]
    exact (Nat.mul_le_mul_right _ hk).trans_lt unitsPerOne_bounds.2
  rcases Nat.eq_zero_or_pos k with rfl | hpos
  · exact ⟨0, by rw [Nat.zero_mul]; rfl, by decide⟩
  · obtain ⟨j, hj, hlow, hhigh⟩ : ∃ j ≤ 52, 2 ^ 52 ≤ k * 2 ^ j ∧ k * 2 ^ j ≤ 2 ^ 53 := by
      have hself : 2 ^ k.log2 ≤ k := Nat.log2_self_le hpos.ne'
      have hnext : k < 2 ^ (k.log2 + 1) := Nat.lt_log2_self
      by_cases hlog : k.log2 ≤ 52
      · refine ⟨52 - k.log2, by omega, ?_, ?_⟩
        · calc 2 ^ 52 = 2 ^ k.log2 * 2 ^ (52 - k.log2) := by rw [← pow_add]; congr 1; omega
            _ ≤ k * 2 ^ (52 - k.log2) := Nat.mul_le_mul_right _ hself
        · calc k * 2 ^ (52 - k.log2) ≤ 2 ^ (k.log2 + 1) * 2 ^ (52 - k.log2) :=
                Nat.mul_le_mul_right _ hnext.le
            _ = 2 ^ 53 := by rw [← pow_add]; congr 1; omega
      · have hge : 2 ^ 53 ≤ 2 ^ k.log2 := Nat.pow_le_pow_right (by decide) (by omega)
        exact ⟨0, by omega, by omega, by omega⟩
    have hunits := units_of_significand hhigh (s := 1074 - j) (.inr hlow)
    have hk : units (k * 2 ^ j + (1074 - j) * 2 ^ 52) = k * unitsPerOne := by
      rw [hunits, Nat.mul_assoc, ← pow_add, show j + (1074 - j) = 1074 by omega]
    exact ⟨_, hk, hfinite hk⟩

/-- A quotient that is an integer of at most 53 binary digits is not rounded. -/
theorem value?_ofUnits {k num den : Nat} (s : Bool) (hk : k ≤ 2 ^ 53) (hden : 0 < den)
    (h : num = k * unitsPerOne * den) :
    (ofUnits s num den).value? = some (signed s k : ℚ) := by
  obtain ⟨n, hn, hfinite⟩ := exists_units_eq hk
  rw [ofUnits, nearestOrdinal_eq_of_units hden (by rw [h, hn]), ofOrdinal, dif_pos hfinite,
    value?_eq_some_iff]
  refine ⟨s, ⟨n, hfinite⟩, rfl, ?_⟩
  simp only [signedUnits, signed, hn]
  generalize unitsPerOne = u
  cases s <;> simp

/-! ## Between two integers -/

/-- The part cut off toward zero. -/
def towardZero (q : ℚ) : Int := if 0 ≤ q then ⌊q⌋ else ⌈q⌉

theorem towardZero_neg (q : ℚ) : towardZero (-q) = -towardZero q := by
  rcases lt_trichotomy q 0 with hq | rfl | hq
  · rw [towardZero, towardZero, if_pos (by linarith), if_neg (by linarith), Int.floor_neg]
  · rfl
  · rw [towardZero, towardZero, if_neg (by linarith), if_pos hq.le, Int.ceil_neg]

theorem towardZero_div (n d : Nat) : towardZero (n / d) = (n / d : Nat) := by
  have hnonneg : (0 : ℚ) ≤ n / d := div_nonneg n.cast_nonneg d.cast_nonneg
  rw [towardZero, if_pos hnonneg, Rat.floor_natCast_div_natCast, Int.natCast_div]

/-- Cutting off the exact quotient of integers. -/
theorem towardZero_intCast_div (a b : Int) : towardZero (a / b) = a.tdiv b := by
  obtain ⟨n, rfl | rfl⟩ := a.eq_nat_or_neg <;> obtain ⟨d, rfl | rfl⟩ := b.eq_nat_or_neg <;>
    simp only [Int.cast_neg, Int.cast_natCast, neg_div, div_neg, towardZero_neg,
      towardZero_div, Int.neg_tdiv, Int.tdiv_neg, Int.ofNat_tdiv]

/-- Cutting off the units below one is cutting off the exact value. -/
theorem truncate?_eq {x : Binary64} {q : ℚ} (h : x.value? = some q) :
    x.truncate? = some (towardZero q) := by
  cases x with
  | nan | infinite s => cases h
  | finite s n =>
    obtain rfl := Option.some.inj h
    rw [truncate?, ← towardZero_div]
    cases s with
    | false => rfl
    | true =>
      rw [if_pos rfl, ← towardZero_neg, signedUnits, if_pos rfl, Int.cast_neg, Int.cast_natCast,
        neg_div]

theorem le_nearestOrdinal {num den n : Nat} (hden : 0 < den) (h : units n * den ≤ num) :
    n ≤ nearestOrdinal num den := by
  have hnearest := nearestOrdinal_isNearest num hden
  generalize nearestOrdinal num den = r at hnearest
  by_contra hlt
  have hdenQ : (0 : ℚ) < den := by exact_mod_cast hden
  have hfrom : (units n : ℚ) ≤ num / den := by
    rw [le_div_iff₀ hdenQ]
    exact_mod_cast h
  have hstep : (units r : ℚ) < units (r + 1) := by
    exact_mod_cast units_strictMono (Nat.lt_succ_self r)
  have hnext : (units (r + 1) : ℚ) ≤ units n := by
    exact_mod_cast units_strictMono.monotone (by omega : r + 1 ≤ n)
  have habove := hnearest.le_above
  linarith

/-- The distance to the magnitude below is at most 2^-52 of the magnitude itself. -/
theorem two_pow_mul_gap_le {m : Nat} (h : 2 ^ 52 ≤ m + 1) : 2 ^ 52 * gap m ≤ units (m + 1) := by
  rcases Nat.lt_or_ge m (2 ^ 52) with hlast | hnormal
  · have hfirst := units_of_significand (q := m + 1) (s := 0) (by omega) (.inl rfl)
    rw [Nat.zero_mul, Nat.add_zero, Nat.pow_zero, Nat.mul_one] at hfirst
    rw [hfirst, gap, Nat.div_eq_of_lt hlast]
    omega
  · have hunits : units m = (2 ^ 52 + m % 2 ^ 52) * gap m := by
      rw [units, if_neg (by omega), gap]
    have hle : units m ≤ units (m + 1) := units_strictMono.monotone (Nat.le_succ m)
    calc 2 ^ 52 * gap m ≤ (2 ^ 52 + m % 2 ^ 52) * gap m := Nat.mul_le_mul_right _ (by omega)
      _ ≤ units (m + 1) := by rw [← hunits]; exact hle

/-- A number that is smaller than a magnitude by more than 2^-53 of it is rounded to a
    smaller one. -/
theorem nearestOrdinal_lt {num den m : Nat} (hden : 0 < den) (hm : 2 ^ 52 ≤ m)
    (h : num * 2 ^ 53 < (2 ^ 53 - 1) * (units m * den)) : nearestOrdinal num den < m := by
  have hnearest := nearestOrdinal_isNearest num hden
  generalize nearestOrdinal num den = r at hnearest
  by_contra hge
  obtain ⟨p, rfl⟩ : ∃ p, m = p + 1 := ⟨m - 1, by omega⟩
  obtain ⟨k, rfl⟩ : ∃ k, r = k + 1 := ⟨r - 1, by omega⟩
  -- Otherwise the midpoint below the magnitude would not be above the number.
  have hbelow : (units p + units (p + 1)) * den ≤ 2 * num := by
    have hdenQ : (0 : ℚ) < den := by exact_mod_cast hden
    have hmid : (units p + units (p + 1) : ℚ) ≤ 2 * (num / den) := by
      have hlow : (units p : ℚ) ≤ units k := by
        exact_mod_cast units_strictMono.monotone (by omega : p ≤ k)
      have hhigh : (units (p + 1) : ℚ) ≤ units (k + 1) := by
        exact_mod_cast units_strictMono.monotone (by omega : p + 1 ≤ k + 1)
      have hk := hnearest.below_le k rfl
      linarith
    rw [← mul_div_assoc, le_div_iff₀ hdenQ] at hmid
    exact_mod_cast hmid
  have hgap := two_pow_mul_gap_le hm
  have hsucc := units_succ p
  have hmid : (2 ^ 53 - 1) * units (p + 1) ≤ 2 ^ 52 * (units p + units (p + 1)) := by omega
  have hmul := Nat.mul_le_mul_right den hmid
  rw [Nat.mul_assoc, Nat.mul_assoc] at hmul
  omega

/-- A number from an integer on is not rounded up to the next one unless it is very close to
    it. -/
theorem units_nearestOrdinal_div {num den k : Nat} (hden : 0 < den) (hk : k < 2 ^ 53)
    (hlow : k * unitsPerOne * den ≤ num)
    (hhigh : num * 2 ^ 53 < (2 ^ 53 - 1) * ((k + 1) * unitsPerOne * den)) :
    units (nearestOrdinal num den) / unitsPerOne = k ∧ nearestOrdinal num den < overflow := by
  obtain ⟨n, hn, -⟩ := exists_units_eq hk.le
  obtain ⟨m, hm, hfinite⟩ := exists_units_eq (k := k + 1) hk
  have hnormal : 2 ^ 52 ≤ m := by
    have hfirst := units_of_significand (q := 2 ^ 52) (s := 0) (by decide) (.inl rfl)
    rw [Nat.zero_mul, Nat.add_zero, Nat.pow_zero, Nat.mul_one] at hfirst
    have hone : 2 ^ 52 ≤ unitsPerOne :=
      le_trans (Nat.pow_le_pow_right (by decide) (by decide)) unitsPerOne_bounds.1.le
    rw [← units_strictMono.le_iff_le, hfirst, hm]
    exact hone.trans (Nat.le_mul_of_pos_left _ k.succ_pos)
  have hlt : nearestOrdinal num den < m := nearestOrdinal_lt hden hnormal (by rw [hm]; exact hhigh)
  have hle : n ≤ nearestOrdinal num den := le_nearestOrdinal hden (by rw [hn]; exact hlow)
  refine ⟨Nat.div_eq_of_lt_le ?_ ?_, hlt.trans hfinite⟩
  · rw [← hn]
    exact units_strictMono.monotone hle
  · rw [← hm]
    exact units_strictMono hlt

/-- The integer part of such a number is kept. -/
theorem truncate?_ofUnits {num den k : Nat} (s : Bool) (hden : 0 < den) (hk : k < 2 ^ 53)
    (hlow : k * unitsPerOne * den ≤ num)
    (hhigh : num * 2 ^ 53 < (2 ^ 53 - 1) * ((k + 1) * unitsPerOne * den)) :
    (ofUnits s num den).truncate? = some (signed s k) := by
  obtain ⟨hwhole, hfinite⟩ := units_nearestOrdinal_div hden hk hlow hhigh
  rw [ofUnits, ofOrdinal, dif_pos hfinite, truncate?]
  simp only [hwhole]
  rfl

theorem exists_value?_of_truncate? {x : Binary64} {i : Int} (h : x.truncate? = some i) :
    ∃ q, x.value? = some q ∧ towardZero q = i := by
  cases x with
  | nan | infinite s => cases h
  | finite s n =>
    refine ⟨_, value?_finite s n, ?_⟩
    rw [truncate?_eq (value?_finite s n)] at h
    exact Option.some.inj h

/-! ## Operations on integers -/

section Operations

variable {x y : Binary64} {a b : Int}

theorem isFinite_of_value? {q : ℚ} (h : x.value? = some q) : x.isFinite = true := by
  obtain ⟨s, n, rfl, -⟩ := value?_eq_some_iff.1 h
  rfl

theorem value?_ofOrdinal_zero (s : Bool) : (ofOrdinal s 0).value? = some 0 := by
  rw [value?_eq_some_iff]
  refine ⟨s, 0, rfl, ?_⟩
  rw [zero_mul]
  cases s <;> simp [signedUnits, units]

theorem value?_neg {q : ℚ} (h : x.value? = some q) : x.neg.value? = some (-q) := by
  obtain ⟨s, n, rfl, hunits⟩ := value?_eq_some_iff.1 h
  rw [value?_eq_some_iff]
  refine ⟨!s, n, rfl, ?_⟩
  rw [neg_mul, ← hunits]
  cases s <;> simp [signedUnits]

theorem value?_abs {q : ℚ} (h : x.value? = some q) : x.abs.value? = some |q| := by
  obtain ⟨s, n, rfl, hunits⟩ := value?_eq_some_iff.1 h
  rw [value?_eq_some_iff]
  refine ⟨false, n, rfl, ?_⟩
  rw [← abs_of_pos unitsPerOne_pos, ← abs_mul, ← hunits]
  cases s <;> simp [signedUnits]

theorem signed_natAbs (i : Int) : signed (i < 0) i.natAbs = i := by
  by_cases h : i < 0 <;> simp only [signed, h, decide_true, decide_false, if_true, if_false,
    Bool.false_eq_true] <;> omega

theorem value?_add (hx : x.value? = some (a : ℚ)) (hy : y.value? = some (b : ℚ))
    (h : (a + b).natAbs ≤ 2 ^ 53) : (x.add y).value? = some ((a + b : Int) : ℚ) := by
  obtain ⟨s, m, rfl, hm, -, -⟩ := exists_of_value? hx
  obtain ⟨t, n, rfl, hn, -, -⟩ := exists_of_value? hy
  have hpos : (0 : Int) < unitsPerOne := Int.natCast_pos.2 zero_lt_unitsPerOne
  have hsum : signedUnits s m + signedUnits t n = (a + b) * unitsPerOne := by
    rw [hm, hn, Int.add_mul]
  simp only [add, hsum]
  split
  next hzero =>
    -- The sign of a sum that is zero follows a rule of its own, but not its value.
    have hab : a + b = 0 := (Int.mul_eq_zero.1 hzero).resolve_right hpos.ne'
    rw [value?_ofOrdinal_zero, hab, Int.cast_zero]
  next hne =>
    have hunits : ((a + b) * (unitsPerOne : Int)).natAbs = (a + b).natAbs * unitsPerOne * 1 := by
      rw [Int.natAbs_mul, Int.natAbs_natCast, Nat.mul_one]
    have hsign : decide ((a + b) * (unitsPerOne : Int) < 0) = decide (a + b < 0) :=
      decide_eq_decide.2 (by rw [← not_le, ← not_le, mul_nonneg_iff_of_pos_right hpos])
    rw [value?_ofUnits _ h Nat.one_pos hunits, hsign, signed_natAbs]

theorem value?_sub (hx : x.value? = some (a : ℚ)) (hy : y.value? = some (b : ℚ))
    (h : (a - b).natAbs ≤ 2 ^ 53) : (x.sub y).value? = some ((a - b : Int) : ℚ) := by
  have hneg : y.neg.value? = some ((-b : Int) : ℚ) := by rw [value?_neg hy, Int.cast_neg]
  rw [Int.sub_eq_add_neg] at h ⊢
  exact value?_add hx hneg h

theorem value?_mul (hx : x.value? = some (a : ℚ)) (hy : y.value? = some (b : ℚ))
    (h : (a * b).natAbs ≤ 2 ^ 53) : (x.mul y).value? = some ((a * b : Int) : ℚ) := by
  obtain ⟨s, m, rfl, -, hm, ha⟩ := exists_of_value? hx
  obtain ⟨t, n, rfl, -, hn, hb⟩ := exists_of_value? hy
  have hpos := zero_lt_unitsPerOne
  have hunits : units m * units n = (a * b).natAbs * unitsPerOne * unitsPerOne := by
    rw [hm, hn, Int.natAbs_mul]
    generalize unitsPerOne = u
    ring
  have hsign : signed (s != t) (a * b).natAbs = a * b := by
    rw [Int.natAbs_mul]
    generalize a.natAbs = k at ha
    generalize b.natAbs = l at hb
    rw [ha, hb]
    cases s <;> cases t <;> simp [signed]
  rw [mul, value?_ofUnits _ h hpos hunits, hsign]

/-- A quotient of integers with a sum below 2^53 keeps its distance from the next integer. -/
theorem quotient_bounds {k l u : Nat} (h : k + l < 2 ^ 53) (hl : 0 < l) (hu : 0 < u) :
    k / l * u * (l * u) ≤ k * u * u ∧
      k * u * u * 2 ^ 53 < (2 ^ 53 - 1) * ((k / l + 1) * u * (l * u)) := by
  have hfloor : k / l * l ≤ k := Nat.div_mul_le_self k l
  have hnext : k < (k / l + 1) * l := Nat.lt_mul_of_div_lt (Nat.lt_succ_self _) hl
  have hexpand : (k / l + 1) * l = k / l * l + l := Nat.succ_mul _ _
  have hfar : k * 2 ^ 53 < (2 ^ 53 - 1) * ((k / l + 1) * l) := by omega
  constructor
  · calc k / l * u * (l * u) = k / l * l * (u * u) := by ring
      _ ≤ k * (u * u) := Nat.mul_le_mul_right _ hfloor
      _ = k * u * u := by ring
  · calc k * u * u * 2 ^ 53 = k * 2 ^ 53 * (u * u) := by ring
      _ < (2 ^ 53 - 1) * ((k / l + 1) * l) * (u * u) :=
        Nat.mul_lt_mul_of_pos_right hfar (Nat.mul_pos hu hu)
      _ = (2 ^ 53 - 1) * ((k / l + 1) * u * (l * u)) := by ring

/-- The quotient of two integers is rounded, but not across an integer. -/
theorem truncate?_div (hx : x.value? = some (a : ℚ)) (hy : y.value? = some (b : ℚ)) (hb : b ≠ 0)
    (h : a.natAbs + b.natAbs < 2 ^ 53) : (x.div y).truncate? = some (a.tdiv b) := by
  obtain ⟨s, m, rfl, -, hm, ha⟩ := exists_of_value? hx
  obtain ⟨t, n, rfl, -, hn, hb'⟩ := exists_of_value? hy
  have hpos := zero_lt_unitsPerOne
  have hbpos : 0 < b.natAbs := Int.natAbs_pos.2 hb
  have hden : 0 < units n := by
    rw [hn]
    exact Nat.mul_pos hbpos hpos
  have hzero : n.val ≠ 0 := by
    rw [ne_eq, ← units_eq_zero_iff]
    exact hden.ne'
  have hsign : signed (s != t) (a.natAbs / b.natAbs) = a.tdiv b := by
    generalize a.natAbs = k at ha
    generalize b.natAbs = l at hb'
    rw [ha, hb']
    cases s <;> cases t <;> simp [signed, Int.neg_tdiv, Int.tdiv_neg]
  obtain ⟨hlow, hhigh⟩ := quotient_bounds h hbpos hpos
  rw [div, if_neg hzero, ← hsign]
  rw [← hm, ← hn] at hlow hhigh
  exact truncate?_ofUnits _ hden ((Nat.div_le_self _ _).trans_lt (by omega)) hlow hhigh

end Operations

/-! ## Roots of integers -/

theorem le_floorRoot {m n : Nat} (h : m * m ≤ n) : m ≤ floorRoot n :=
  Nat.lt_succ_iff.1 (Nat.mul_self_lt_mul_self_iff.1 (h.trans_lt (floorRoot_bounds n).2))

/-- The root of an integer that is below `k * k` keeps its distance from `k`, in units of
    which `u` make one. -/
theorem root_distance {a r k u : Nat} (hr : r * r ≤ a * u * u) (ha : a < k * k) (hu : 0 < u) :
    2 * (k * r) + u ≤ 2 * (k * k * u) := by
  have hsquares : r * r + u * u ≤ k * u * (k * u) := by
    calc r * r + u * u ≤ a * u * u + u * u := Nat.add_le_add_right hr _
      _ = (a + 1) * (u * u) := by ring
      _ ≤ k * k * (u * u) := Nat.mul_le_mul_right _ ha
      _ = k * u * (k * u) := by ring
  have hle : r ≤ k * u := Nat.mul_self_le_mul_self_iff.1 (by omega)
  obtain ⟨d, hd⟩ := Nat.exists_eq_add_of_le hle
  -- The squares differ by the difference `d` of the roots times their sum.
  have hdifference : u * u ≤ d * (2 * (k * u)) := by
    have hsum : k * u * (k * u) = r * r + d * (k * u + r) := by
      rw [hd]
      ring
    calc u * u ≤ d * (k * u + r) := by omega
      _ ≤ d * (2 * (k * u)) := Nat.mul_le_mul_left _ (by omega)
  have hd' : u ≤ 2 * (k * d) := by
    refine Nat.le_of_mul_le_mul_right ?_ hu
    calc u * u ≤ d * (2 * (k * u)) := hdifference
      _ = 2 * (k * d) * u := by ring
  calc 2 * (k * r) + u ≤ 2 * (k * r) + 2 * (k * d) := Nat.add_le_add_left hd' _
    _ = 2 * (k * (r + d)) := by ring
    _ = 2 * (k * k * u) := by rw [← hd, Nat.mul_assoc k k u]

/-- The integer part of a root is not above the root in units. -/
theorem floorRoot_mul_le (a u : Nat) : floorRoot a * u ≤ floorRoot (a * u * u) := by
  refine le_floorRoot ?_
  calc floorRoot a * u * (floorRoot a * u) = floorRoot a * floorRoot a * (u * u) :=
        Nat.mul_mul_mul_comm _ _ _ _
    _ ≤ a * (u * u) := Nat.mul_le_mul_right _ (floorRoot_bounds a).1
    _ = a * u * u := (Nat.mul_assoc _ _ _).symm

/-- A root in half units that keeps this distance from `k` is below `k` by more than 2^-53
    of it, and `c` half units do not make up for that. -/
theorem root_below {k r c u : Nat} (hk : k ≤ 2 ^ 25) (hu : 2 ^ 78 < u) (hc : c ≤ 1)
    (h : 2 * (k * r) + u ≤ 2 * (k * k * u)) :
    (2 * r + c) * 2 ^ 53 < (2 ^ 53 - 1) * (k * u * 2) := by
  have hproduct : k * k * u ≤ 2 ^ 25 * 2 ^ 25 * u := Nat.mul_le_mul_right u (Nat.mul_le_mul hk hk)
  have hrest : k * c ≤ k := by
    calc k * c ≤ k * 1 := Nat.mul_le_mul_left _ hc
      _ = k := Nat.mul_one _
  -- Both sides are compared after multiplication by `k`.
  refine Nat.lt_of_mul_lt_mul_left (a := k) ?_
  calc k * ((2 * r + c) * 2 ^ 53) = (2 * (k * r) + k * c) * 2 ^ 53 := by ring
    _ < (2 ^ 53 - 1) * (2 * (k * k * u)) := by omega
    _ = k * ((2 ^ 53 - 1) * (k * u * 2)) := by ring

/-- The root of an integer is rounded, but not up to an integer. -/
theorem truncate?_rootOfUnits {a : Nat} (ha : a < 2 ^ 50) :
    (rootOfUnits (a * unitsPerOne)).truncate? = some (floorRoot a : Int) := by
  obtain ⟨hsquare, hnext⟩ := floorRoot_bounds a
  have hroot := (floorRoot_bounds (a * unitsPerOne * unitsPerOne)).1
  have hsmall : floorRoot a + 1 ≤ 2 ^ 25 := by
    have hlt : floorRoot a * floorRoot a < 2 ^ 25 * 2 ^ 25 := by omega
    exact Nat.mul_self_lt_mul_self_iff.1 hlt
  have hlow := floorRoot_mul_le a unitsPerOne
  have hdistance := root_distance hroot hnext zero_lt_unitsPerOne
  rw [rootOfUnits]
  generalize floorRoot (a * unitsPerOne * unitsPerOne) = r at hlow hdistance ⊢
  -- The half unit that stands for a remainder of the root is there or not.
  obtain ⟨c, hc, hc'⟩ : ∃ c ≤ 1, (if r * r = a * unitsPerOne * unitsPerOne then 0 else 1) = c :=
    ⟨_, by split <;> omega, rfl⟩
  have hhigh := root_below hsmall unitsPerOne_bounds.1 hc hdistance
  rw [hc']
  exact truncate?_ofUnits false (by decide) (by omega) (by omega) hhigh

theorem truncate?_sqrt {x : Binary64} {a : Int} (hx : x.value? = some (a : ℚ)) (hnonneg : 0 ≤ a)
    (ha : a < 2 ^ 50) : x.sqrt.truncate? = some (floorRoot a.toNat : Int) := by
  obtain ⟨s, n, rfl, -, hn, hsigned⟩ := exists_of_value? hx
  have hpos := zero_lt_unitsPerOne
  by_cases hzero : a = 0
  · have hn0 : n.val = 0 := by
      rw [← units_eq_zero_iff, hn, hzero, Int.natAbs_zero, Nat.zero_mul]
    have hroot : floorRoot (Int.toNat 0) = 0 := by
      rw [floorRoot]
      rfl
    rw [sqrt, if_pos hn0, truncate?_eq hx, hzero, hroot]
    simp [towardZero]
  · have hpositive : s = false := by
      cases s with
      | false => rfl
      | true =>
        rw [signed, if_pos rfl] at hsigned
        omega
    have hn0 : n.val ≠ 0 := by
      rw [ne_eq, ← units_eq_zero_iff, hn]
      exact (Nat.mul_pos (Int.natAbs_pos.2 hzero) hpos).ne'
    rw [sqrt, if_neg hn0, if_neg (by simp [hpositive]), hn, truncate?_rootOfUnits (by omega)]
    congr 3
    omega

theorem nonneg_of_value?_ofOrdinal {n : Nat} {q : ℚ} (h : (ofOrdinal false n).value? = some q) :
    0 ≤ q := by
  rw [ofOrdinal] at h
  split at h
  · obtain rfl := Option.some.inj h
    exact div_nonneg (Int.cast_nonneg (Int.natCast_nonneg _)) unitsPerOne_pos.le
  · cases h

theorem nonneg_of_value?_sqrt {x : Binary64} {q : ℚ} (h : x.sqrt.value? = some q) : 0 ≤ q := by
  cases x with
  | nan => cases h
  | infinite s => cases s <;> cases h
  | finite s n =>
    rw [sqrt] at h
    split at h
    next hzero =>
      -- A zero of either sign has the value zero.
      obtain ⟨t, m, ⟨⟩, hunits⟩ := value?_eq_some_iff.1 h
      rw [hzero] at hunits
      have hq : q * unitsPerOne = 0 := by
        rw [← hunits]
        cases s <;> rfl
      exact ((mul_eq_zero.1 hq).resolve_right unitsPerOne_pos.ne').ge
    next hpositive =>
      split at h
      · cases h
      · exact nonneg_of_value?_ofOrdinal h

end InfixArithmetic.Binary64
