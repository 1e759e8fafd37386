/-
  InfixArithmetic.Proofs.NearestValue

  The value that a number is rounded to, without reference to how it is found.

  `Binary64.RoundsTo` compares distances: a finite value is nearer to the number than every
  other one, or as near and the even one, and from the midpoint after the greatest magnitude
  on the value is infinite.  `IsNearest` says the same with the two neighbouring midpoints
  only (`roundsTo_finite_iff`), so a decimal number is read as a value if and only if it is
  rounded to it (`Decimal.toBinary64_eq_iff`).
-/

import InfixArithmetic.Proofs.SignificantDigits

namespace InfixArithmetic

namespace Binary64

open Decimal (unitsPerOne_pos)

/-- The exact magnitude with the given ordinal. -/
def exactAbs (ordinal : Nat) : ℚ := units ordinal / unitsPerOne

/-! ## Distances -/

section Distances

variable {v a b : ℚ}

theorem abs_sub_le_iff_mul_nonneg : |v - a| ≤ |v - b| ↔ 0 ≤ (a + b - 2 * v) * (b - a) := by
  have hsquares : (v - b) ^ 2 - (v - a) ^ 2 = (a + b - 2 * v) * (b - a) := by ring
  rw [← sq_le_sq, ← sub_nonneg, hsquares]

/-- Of two numbers the smaller one is not farther away up to their midpoint. -/
theorem abs_sub_le_iff_le_midpoint (h : a < b) : |v - a| ≤ |v - b| ↔ 2 * v ≤ a + b := by
  rw [abs_sub_le_iff_mul_nonneg, mul_nonneg_iff_of_pos_right (sub_pos.2 h), sub_nonneg]

/-- The greater one is not farther away from their midpoint on. -/
theorem abs_sub_le_iff_midpoint_le (h : a < b) : |v - b| ≤ |v - a| ↔ a + b ≤ 2 * v := by
  rw [abs_sub_le_iff_mul_nonneg, ← neg_mul_neg, neg_sub, neg_sub,
    mul_nonneg_iff_of_pos_right (sub_pos.2 h), sub_nonneg, add_comm]

end Distances

/-- The first magnitude is nearer to the number, or as near and even. -/
def IsNearer (v : ℚ) (n m : Nat) : Prop :=
  |v - exactAbs n| < |v - exactAbs m| ∨ |v - exactAbs n| = |v - exactAbs m| ∧ n % 2 = 0

variable {v : ℚ} {m n : Nat}

theorem exactAbs_lt (h : m < n) : exactAbs m < exactAbs n :=
  div_lt_div_of_pos_right (by exact_mod_cast units_strictMono h) unitsPerOne_pos

/-- The midpoint of two magnitudes in units. -/
theorem exactAbs_add (m n : Nat) :
    exactAbs m + exactAbs n = ((units m : ℚ) + units n) / unitsPerOne := by
  rw [exactAbs, exactAbs, ← add_div]

theorem le_midpoint_iff :
    2 * v ≤ exactAbs m + exactAbs n ↔ 2 * (v * unitsPerOne) ≤ units m + units n := by
  rw [exactAbs_add, le_div_iff₀ unitsPerOne_pos, mul_assoc]

theorem midpoint_le_iff :
    exactAbs m + exactAbs n ≤ 2 * v ↔ (units m + units n : ℚ) ≤ 2 * (v * unitsPerOne) := by
  rw [exactAbs_add, div_le_iff₀ unitsPerOne_pos, mul_assoc]

/-- Not farther, and even if as near. -/
theorem isNearer_iff : IsNearer v n m ↔
    |v - exactAbs n| ≤ |v - exactAbs m| ∧
      (|v - exactAbs n| = |v - exactAbs m| → n % 2 = 0) := by
  constructor
  · rintro (hlt | ⟨heq, heven⟩)
    · exact ⟨hlt.le, fun heq => absurd heq hlt.ne⟩
    · exact ⟨heq.le, fun _ => heven⟩
  · rintro ⟨hle, heven⟩
    exact hle.lt_or_eq.imp_right fun heq => ⟨heq, heven heq⟩

/-- A magnitude is nearer than a greater one below their midpoint, and on it if it is
    even. -/
theorem isNearer_of_lt (h : n < m) : IsNearer v n m ↔
    2 * (v * unitsPerOne) ≤ units n + units m ∧
      (2 * (v * unitsPerOne) = units n + units m → n % 2 = 0) := by
  have hle := (abs_sub_le_iff_le_midpoint (v := v) (exactAbs_lt h)).trans le_midpoint_iff
  have hge := (abs_sub_le_iff_midpoint_le (v := v) (exactAbs_lt h)).trans midpoint_le_iff
  have heq : |v - exactAbs n| = |v - exactAbs m|
      ↔ 2 * (v * unitsPerOne) = units n + units m := by
    rw [le_antisymm_iff, le_antisymm_iff, hle, hge]
  rw [isNearer_iff, hle, heq]

/-- A magnitude is nearer than a smaller one above their midpoint, and on it if it is
    even. -/
theorem isNearer_of_gt (h : m < n) : IsNearer v n m ↔
    (units m + units n : ℚ) ≤ 2 * (v * unitsPerOne) ∧
      ((units m + units n : ℚ) = 2 * (v * unitsPerOne) → n % 2 = 0) := by
  have hle := (abs_sub_le_iff_le_midpoint (v := v) (exactAbs_lt h)).trans le_midpoint_iff
  have hge := (abs_sub_le_iff_midpoint_le (v := v) (exactAbs_lt h)).trans midpoint_le_iff
  have heq : |v - exactAbs n| = |v - exactAbs m|
      ↔ (units m + units n : ℚ) = 2 * (v * unitsPerOne) := by
    rw [le_antisymm_iff, le_antisymm_iff, hle, hge]
  rw [isNearer_iff, hge, heq]

/-! ## The nearest value -/

/-- The midpoint after the greatest finite magnitude. -/
def overflowFrom : ℚ := 2 ^ 1024 - 2 ^ 970

/-- A magnitude with a sign is rounded to a value: to infinity from `overflowFrom` on, and
    else to the finite value that is nearer than every other one, or as near and even. -/
def RoundsTo (negative : Bool) (v : ℚ) : Binary64 → Prop
  | nan => False
  | infinite s => s = negative ∧ overflowFrom ≤ v
  | finite s n =>
    s = negative ∧ v < overflowFrom ∧ ∀ m : Fin overflow, m ≠ n → IsNearer v n m

theorem units_last_add_units_overflow :
    (units (overflow - 1) : ℚ) + units overflow = 2 * (overflowFrom * unitsPerOne) := by
  have hnat : units (overflow - 1) + units overflow + 2 * (2 ^ 970 * unitsPerOne)
      = 2 * (2 ^ 1024 * unitsPerOne) := by decide +kernel
  rw [overflowFrom]
  -- From here on the powers must not be evaluated.
  generalize unitsPerOne = u at hnat ⊢
  generalize units (overflow - 1) = a at hnat ⊢
  generalize units overflow = b at hnat ⊢
  have hrat := congrArg (Nat.cast (R := ℚ)) hnat
  simp only [Nat.cast_add, Nat.cast_mul, Nat.cast_pow, Nat.cast_ofNat] at hrat
  generalize (2 : ℚ) ^ 1024 = p at hrat ⊢
  generalize (2 : ℚ) ^ 970 = q at hrat ⊢
  linear_combination hrat

/-- A number is nearest to a finite magnitude, if to any, before the midpoint after the
    greatest one. -/
theorem IsNearest.lt_overflow_iff {w : ℚ} (h : IsNearest w n) :
    n < overflow ↔ 2 * w < units (overflow - 1) + units overflow := by
  have hpos : 0 < overflow := by decide
  have hlast : overflow - 1 + 1 = overflow := rfl
  rcases Nat.lt_trichotomy n (overflow - 1) with hinner | rfl | houter
  · have habove := h.le_above
    have hmono : (units (n + 1) : ℚ) ≤ units (overflow - 1) := by
      exact_mod_cast units_strictMono.monotone (by omega : n + 1 ≤ overflow - 1)
    have hlt : (units n : ℚ) < units overflow := by
      exact_mod_cast units_strictMono (by omega : n < overflow)
    exact iff_of_true (by omega) (by linarith)
  -- The greatest magnitude is odd, so the midpoint after it is not rounded to it.
  · have habove := h.le_above
    have hodd := h.even_above
    rw [hlast] at habove hodd
    exact iff_of_true (by decide) (habove.lt_of_ne fun heq => absurd (hodd heq) (by decide))
  · obtain ⟨k, rfl⟩ : ∃ k, n = k + 1 := ⟨n - 1, by omega⟩
    have hbelow := h.below_le k rfl
    have hmono : (units (overflow - 1) : ℚ) ≤ units k := by
      exact_mod_cast units_strictMono.monotone (by omega : overflow - 1 ≤ k)
    have hnext : (units overflow : ℚ) ≤ units (k + 1) := by
      exact_mod_cast units_strictMono.monotone (by omega : overflow ≤ k + 1)
    exact iff_of_false (by omega) (by linarith)

/-- The magnitude that a number is nearest to is nearer than every other one. -/
theorem IsNearest.isNearer (h : IsNearest (v * unitsPerOne) n) (hm : m ≠ n) :
    IsNearer v n m := by
  rcases lt_or_gt_of_ne hm with hbelow | habove
  · obtain ⟨k, rfl⟩ : ∃ k, n = k + 1 := ⟨n - 1, by omega⟩
    have hmono : (units m : ℚ) ≤ units k := by
      exact_mod_cast units_strictMono.monotone (by omega : m ≤ k)
    have hmid := h.below_le k rfl
    rw [isNearer_of_gt hbelow]
    exact ⟨by linarith, fun heq => h.even_below k rfl (by linarith)⟩
  · have hmono : (units (n + 1) : ℚ) ≤ units m := by
      exact_mod_cast units_strictMono.monotone habove
    have hmid := h.le_above
    rw [isNearer_of_lt habove]
    exact ⟨by linarith, fun heq => h.even_above (by linarith)⟩

/-- It is enough that the magnitude is nearer than the finite ones, if the number is below
    the bound. -/
theorem isNearest_of_isNearer (hv : v < overflowFrom) (n : Fin overflow)
    (h : ∀ m : Fin overflow, m ≠ n → IsNearer v n m) : IsNearest (v * unitsPerOne) n := by
  -- The magnitude after the last finite one is not among those compared.
  have habove : 2 * (v * unitsPerOne) ≤ units n + units (n + 1) ∧
      (2 * (v * unitsPerOne) = units n + units (n + 1) → n.val % 2 = 0) := by
    rcases Nat.lt_or_ge (n + 1) overflow with hinner | houter
    · have hne : (⟨n + 1, hinner⟩ : Fin overflow) ≠ n := Fin.ne_of_val_ne (Nat.succ_ne_self n)
      exact (isNearer_of_lt (Nat.lt_succ_self n)).1 (h ⟨n + 1, hinner⟩ hne)
    · have hn : n.val = overflow - 1 := by omega
      have hnext : overflow - 1 + 1 = overflow := rfl
      have hlt : 2 * (v * unitsPerOne) < (units (overflow - 1) : ℚ) + units overflow := by
        rw [units_last_add_units_overflow, mul_lt_mul_iff_right₀ (by norm_num)]
        exact mul_lt_mul_of_pos_right hv unitsPerOne_pos
      rw [hn, hnext]
      exact ⟨hlt.le, fun heq => absurd heq hlt.ne⟩
  have hbelow (k : Nat) (hk : k + 1 = n.val) :
      (units k + units n : ℚ) ≤ 2 * (v * unitsPerOne) ∧
        ((units k + units n : ℚ) = 2 * (v * unitsPerOne) → n.val % 2 = 0) := by
    have hlt : k < n.val := by omega
    have hfinite : k < overflow := by omega
    have hne : (⟨k, hfinite⟩ : Fin overflow) ≠ n := Fin.ne_of_val_ne hlt.ne
    exact (isNearer_of_gt hlt).1 (h ⟨k, hfinite⟩ hne)
  exact ⟨habove.1, habove.2, fun k hk => (hbelow k hk).1, fun k hk => (hbelow k hk).2⟩

/-- A finite value is what a number is rounded to if the midpoints next to it say so. -/
theorem roundsTo_finite_iff {negative s : Bool} {n : Fin overflow} :
    RoundsTo negative v (finite s n) ↔
      s = negative ∧ v < overflowFrom ∧ IsNearest (v * unitsPerOne) n := by
  rw [RoundsTo]
  refine and_congr_right fun _ => and_congr_right fun hv => ?_
  exact ⟨isNearest_of_isNearer hv n, fun h m hm => h.isNearer (Fin.val_ne_of_ne hm)⟩

/-! ## Ordinals -/

theorem lt_overflowFrom_iff : v < overflowFrom ↔
    2 * (v * unitsPerOne) < units (overflow - 1) + units overflow := by
  rw [units_last_add_units_overflow, mul_lt_mul_iff_right₀ (by norm_num),
    mul_lt_mul_iff_left₀ unitsPerOne_pos]

theorem IsNearest.lt_overflow_iff_lt_overflowFrom (h : IsNearest (v * unitsPerOne) n) :
    n < overflow ↔ v < overflowFrom := by
  rw [h.lt_overflow_iff, lt_overflowFrom_iff]

/-- An ordinal is the value that a number is rounded to if it is nearest to the number, or
    both are too large. -/
theorem ofOrdinal_eq_iff (hfinite : n < overflow ↔ v < overflowFrom)
    (hnearest : n < overflow → IsNearest (v * unitsPerOne) n) {negative : Bool} {x : Binary64} :
    ofOrdinal negative n = x ↔ RoundsTo negative v x := by
  cases x with
  | nan =>
    rw [ofOrdinal, RoundsTo, iff_false]
    intro h
    split at h <;> cases h
  | infinite s =>
    rw [ofOrdinal, RoundsTo, ← not_lt, ← hfinite]
    split
    next hn =>
      refine iff_of_false (fun h => ?_) fun h => h.2 hn
      cases h
    next hn =>
      rw [infinite.injEq, eq_comm]
      exact (and_iff_left hn).symm
  | finite s m =>
    rw [ofOrdinal_eq_finite_iff, roundsTo_finite_iff, ← hfinite, eq_comm]
    refine and_congr_right fun _ => ?_
    constructor
    · rintro rfl
      exact ⟨m.isLt, hnearest m.isLt⟩
    · rintro ⟨hn, hm⟩
      exact (hnearest hn).unique hm

/-! ## Finite values and zeros -/

section Classes

variable {negative : Bool} {x : Binary64} (h : RoundsTo negative v x)

include h

theorem RoundsTo.isNegative_eq : x.isNegative = negative := by
  cases x with
  | nan => exact absurd h id
  | infinite s => exact h.1
  | finite s n => exact h.1

theorem RoundsTo.isFinite_iff : x.isFinite = true ↔ v < overflowFrom := by
  cases x with
  | nan => exact absurd h id
  | infinite s => exact iff_of_false Bool.false_ne_true (not_lt.2 h.2)
  | finite s n => exact iff_of_true rfl h.2.1

/-- Half of the least positive magnitude is still rounded to zero. -/
theorem RoundsTo.isZero_iff : x.isZero = true ↔ v ≤ 2 ^ (-1075 : Int) := by
  rw [← Decimal.two_mul_unitsPerOne_le_one_iff, ← isNearest_zero_iff]
  cases x with
  | nan => exact absurd h id
  | infinite s =>
    refine iff_of_false Bool.false_ne_true fun hzero => ?_
    exact absurd (hzero.lt_overflow_iff_lt_overflowFrom.1 (by decide)) (not_lt.2 h.2)
  | finite s n =>
    obtain ⟨-, -, hnearest⟩ := roundsTo_finite_iff.1 h
    rw [isZero, beq_iff_eq]
    constructor
    · intro hn
      rwa [hn] at hnearest
    · exact hnearest.unique

end Classes

end Binary64

namespace Decimal

open Binary64 (RoundsTo overflow overflowFrom unitsPerOne nearestOrdinal_isNearest
  ofOrdinal_eq_iff)

/-! ## Decimal numbers -/

/-- A decimal number is read as a finite magnitude if it is below the midpoint after the
    greatest one, and only then. -/
theorem ordinal_lt_overflow_iff (d : Decimal) : d.ordinal < overflow ↔ d.exact < overflowFrom := by
  constructor
  · intro h
    exact (ordinal_isNearest h).lt_overflow_iff_lt_overflowFrom.1 h
  · intro h
    have hnearest := nearestOrdinal_isNearest (d.numerator * unitsPerOne) d.denominator_pos
    rw [numerator_div_denominator] at hnearest
    have hfinite := hnearest.lt_overflow_iff_lt_overflowFrom.2 h
    rw [ordinal_eq_of_isNearest hfinite hnearest]
    exact hfinite

/-- A decimal number is read as the value that it is rounded to. -/
theorem toBinary64_eq_iff {d : Decimal} {negative : Bool} {x : Binary64} :
    d.toBinary64 negative = x ↔ RoundsTo negative d.exact x :=
  ofOrdinal_eq_iff d.ordinal_lt_overflow_iff ordinal_isNearest

end Decimal

end InfixArithmetic
