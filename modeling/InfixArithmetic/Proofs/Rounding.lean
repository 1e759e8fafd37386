/-
  InfixArithmetic.Proofs.Rounding

  `nearestOrdinal` gives the magnitude nearest to a quotient, the even ordinal of
  two that are equally near.

  `IsNearest v n` says so of a rational number of units: `v` lies between the two
  midpoints around the magnitude with ordinal `n`, and on a midpoint only if `n` is
  even.  Since the midpoints increase with the ordinal, at most one ordinal is nearest
  (`IsNearest.unique`), so everything that rounds can be compared by this property
  alone.

  The ordinals are taken beyond the finite ones here: `units` goes on with the same
  rule, as if the exponents had no end.
-/

import InfixArithmetic.Binary64.Rounding
import Mathlib.Algebra.Order.Field.Rat
import Mathlib.Data.Nat.Log
import Mathlib.Tactic.FieldSimp
import Mathlib.Tactic.LinearCombination
import Mathlib.Tactic.Linarith
import Mathlib.Tactic.NormNum
import Mathlib.Tactic.Positivity
import Mathlib.Tactic.Ring

namespace InfixArithmetic.Exact

/-- Both bounds of a quotient that is rounded half to even, and what holds at them. -/
theorem roundHalfEven_spec (num : Nat) {den : Nat} (hden : 0 < den) :
    let r := roundHalfEven num den
    2 * num ≤ (2 * r + 1) * den ∧ (2 * num = (2 * r + 1) * den → r % 2 = 0) ∧
      2 * r * den ≤ 2 * num + den ∧ (2 * r * den = 2 * num + den → r % 2 = 0) := by
  have hdiv := Nat.div_add_mod num den
  have hmod := Nat.mod_lt num hden
  simp only [roundHalfEven]
  generalize num / den = q at hdiv ⊢
  generalize num % den = m at hdiv hmod ⊢
  have hexpand (k : Nat) : (2 * k + 1) * den = 2 * (den * k) + den := by ring
  have hexpand' (k : Nat) : 2 * k * den = 2 * (den * k) := by ring
  have hsucc : den * (q + 1) = den * q + den := by ring
  rw [hexpand, hexpand']
  split
  · omega
  · split
    · rw [hsucc]
      omega
    · rcases Nat.mod_two_eq_zero_or_one q with hq | hq
      · rw [hq, Nat.add_zero]
        omega
      · rw [hq, hsucc]
        omega

end InfixArithmetic.Exact

namespace InfixArithmetic.Binary64

open Exact (roundHalfEven)

/-! ## Magnitudes -/

theorem ofOrdinal_eq_finite_iff {negative s : Bool} {m : Nat} {n : Fin overflow} :
    ofOrdinal negative m = finite s n ↔ negative = s ∧ m = n := by
  rw [ofOrdinal]
  split
  next hfinite => rw [finite.injEq, Fin.ext_iff]
  next hinfinite =>
    refine iff_of_false (fun h => ?_) fun h => hinfinite ?_
    · cases h
    · rw [h.2]
      exact n.isLt

theorem zero_lt_unitsPerOne : 0 < unitsPerOne := by
  unfold unitsPerOne
  positivity

/-- How far the magnitude after an ordinal is away, in units. -/
def gap (ordinal : Nat) : Nat := 2 ^ (ordinal / 2 ^ 52 - 1)

theorem gap_pos (n : Nat) : 0 < gap n := Nat.two_pow_pos _

/-- A multiple of the spacing in its range is the magnitude that `nearestOrdinal`
    takes it for. The first magnitude of the next range is among them. -/
theorem units_of_significand {q s : Nat} (hq : q ≤ 2 ^ 53) (hs : s = 0 ∨ 2 ^ 52 ≤ q) :
    units (q + s * 2 ^ 52) = q * 2 ^ s := by
  rw [units]
  by_cases hsmall : q + s * 2 ^ 52 < 2 ^ 52
  · have hzero : s = 0 := by omega
    rw [if_pos hsmall, hzero]
    omega
  · rw [if_neg hsmall]
    by_cases hcarry : q = 2 ^ 53
    · rw [hcarry, show (2 ^ 53 + s * 2 ^ 52) % 2 ^ 52 = 0 by omega,
        show (2 ^ 53 + s * 2 ^ 52) / 2 ^ 52 - 1 = s + 1 by omega, Nat.pow_succ]
      ring
    · rw [show (q + s * 2 ^ 52) / 2 ^ 52 - 1 = s by omega,
        show 2 ^ 52 + (q + s * 2 ^ 52) % 2 ^ 52 = q by omega]

theorem units_succ (n : Nat) : units (n + 1) = units n + gap n := by
  rw [gap]
  by_cases hsmall : n < 2 ^ 52
  · have hlow := units_of_significand (q := n) (s := 0) (by omega) (.inl rfl)
    have hnext := units_of_significand (q := n + 1) (s := 0) (by omega) (.inl rfl)
    simp only [Nat.zero_mul, Nat.add_zero, Nat.pow_zero, Nat.mul_one] at hlow hnext
    rw [hlow, hnext, Nat.div_eq_of_lt hsmall, Nat.zero_sub, Nat.pow_zero]
  · obtain ⟨s, hs⟩ : ∃ s, n / 2 ^ 52 = s + 1 := ⟨n / 2 ^ 52 - 1, by omega⟩
    have hlow := units_of_significand (q := n - s * 2 ^ 52) (s := s) (by omega) (by omega)
    have hnext := units_of_significand (q := n - s * 2 ^ 52 + 1) (s := s) (by omega) (by omega)
    rw [show n - s * 2 ^ 52 + s * 2 ^ 52 = n by omega] at hlow
    rw [show n - s * 2 ^ 52 + 1 + s * 2 ^ 52 = n + 1 by omega] at hnext
    rw [hlow, hnext, hs, Nat.add_sub_cancel]
    ring

theorem units_strictMono : StrictMono units :=
  strictMono_nat_of_lt_succ fun n => by
    have hgap := gap_pos n
    rw [units_succ]
    omega

/-- No magnitude is more than 2^53 times the distance to the one below it. -/
theorem units_succ_le (n : Nat) : units (n + 1) ≤ 2 ^ 53 * gap n := by
  rw [gap]
  by_cases hsmall : n < 2 ^ 52
  · have hnext := units_of_significand (q := n + 1) (s := 0) (by omega) (.inl rfl)
    simp only [Nat.zero_mul, Nat.add_zero, Nat.pow_zero, Nat.mul_one] at hnext
    rw [hnext, Nat.div_eq_of_lt hsmall]
    omega
  · obtain ⟨s, hs⟩ : ∃ s, n / 2 ^ 52 = s + 1 := ⟨n / 2 ^ 52 - 1, by omega⟩
    have hnext := units_of_significand (q := n - s * 2 ^ 52 + 1) (s := s) (by omega) (by omega)
    rw [show n - s * 2 ^ 52 + 1 + s * 2 ^ 52 = n + 1 by omega] at hnext
    rw [hnext, hs, Nat.add_sub_cancel]
    exact Nat.mul_le_mul_right _ (by omega)

/-! ## The nearest ordinal -/

/-- The magnitude with the ordinal is the nearest to a number of units, and it is
    even if the next one is as near. -/
structure IsNearest (v : ℚ) (n : Nat) : Prop where
  le_above : 2 * v ≤ units n + units (n + 1)
  even_above : 2 * v = units n + units (n + 1) → n % 2 = 0
  below_le : ∀ m, m + 1 = n → (units m + units n : ℚ) ≤ 2 * v
  even_below : ∀ m, m + 1 = n → (units m + units n : ℚ) = 2 * v → n % 2 = 0

theorem IsNearest.not_lt {v : ℚ} {m n : Nat} (hm : IsNearest v m) (hn : IsNearest v n) :
    ¬ m < n := by
  intro hlt
  obtain ⟨k, rfl⟩ : ∃ k, n = k + 1 := ⟨n - 1, by omega⟩
  have habove := hm.le_above
  have hbelow := hn.below_le k rfl
  have hk : units m ≤ units k := units_strictMono.monotone (by omega)
  have hk' : units (m + 1) ≤ units (k + 1) := units_strictMono.monotone (by omega)
  have hkQ : (units m : ℚ) ≤ units k := by exact_mod_cast hk
  have hkQ' : (units (m + 1) : ℚ) ≤ units (k + 1) := by exact_mod_cast hk'
  -- Both midpoints are `v`, so the two ordinals are neighbours, and both are even.
  have hsame : (units m : ℚ) = units k := by linarith
  have hmk : m = k := units_strictMono.injective (by exact_mod_cast hsame)
  subst hmk
  have heven := hm.even_above (by linarith)
  have heven' := hn.even_below m rfl (by linarith)
  omega

/-- At most one ordinal is the nearest. -/
theorem IsNearest.unique {v : ℚ} {m n : Nat} (hm : IsNearest v m) (hn : IsNearest v n) :
    m = n := by
  have h := hm.not_lt hn
  have h' := hn.not_lt hm
  omega

/-- A number strictly between the midpoints is nearest without regard to parity. -/
theorem isNearest_of_strict {v : ℚ} {n : Nat} (habove : 2 * v < units n + units (n + 1))
    (hbelow : ∀ m, m + 1 = n → (units m + units n : ℚ) < 2 * v) : IsNearest v n where
  le_above := habove.le
  even_above h := absurd h habove.ne
  below_le m hm := (hbelow m hm).le
  even_below m hm h := absurd h (hbelow m hm).ne

/-- Up to half a unit zero is nearest. -/
theorem isNearest_zero_iff {v : ℚ} : IsNearest v 0 ↔ 2 * v ≤ 1 := by
  have hmidpoint : ((units 0 : Nat) : ℚ) + units (0 + 1) = 1 := by
    have hzero : units 0 = 0 := rfl
    have hone : units (0 + 1) = 1 := rfl
    rw [hzero, hone]
    norm_num
  constructor
  · intro h
    exact hmidpoint ▸ h.le_above
  · intro h
    exact ⟨hmidpoint ▸ h, fun _ => rfl, by omega, by omega⟩

/-- The spacing that `nearestOrdinal` takes for a quotient: in it the quotient has at
    most 53 binary digits, and exactly 53 if it is not the least spacing. -/
theorem spacing_bounds (num den : Nat) :
    let s := Nat.log2 (num / den) - 52
    num / (den * 2 ^ s) < 2 ^ 53 ∧ (s = 0 ∨ 2 ^ 52 ≤ num / (den * 2 ^ s)) := by
  intro s
  have hlt : num / den < 2 ^ (Nat.log2 (num / den) + 1) := Nat.lt_log2_self
  rw [← Nat.div_div_eq_div_mul]
  constructor
  · apply Nat.div_lt_of_lt_mul
    rw [← Nat.pow_add]
    exact Nat.lt_of_lt_of_le hlt (Nat.pow_le_pow_right (by decide) (by omega))
  · by_cases hs : s = 0
    · exact .inl hs
    · right
      have hne : num / den ≠ 0 := by
        intro hzero
        simp [s, hzero] at hs
      rw [Nat.le_div_iff_mul_le (Nat.two_pow_pos s), ← Nat.pow_add,
        show 52 + s = Nat.log2 (num / den) by omega]
      exact Nat.log2_self_le hne

/-! ## Rounding to a spacing -/

/-- `r` is the number rounded to multiples of `2 ^ s`, half to even. -/
structure IsRounded (v : ℚ) (s r : Nat) : Prop where
  le_above : 2 * v ≤ 2 * (r * 2 ^ s) + 2 ^ s
  even_above : 2 * v = 2 * (r * 2 ^ s) + 2 ^ s → r % 2 = 0
  below_le : 2 * (r * 2 ^ s) ≤ 2 * v + 2 ^ s
  even_below : 2 * (r * 2 ^ s) = 2 * v + 2 ^ s → r % 2 = 0

theorem roundHalfEven_isRounded (num : Nat) {den : Nat} (hden : 0 < den) (s : Nat) :
    IsRounded (num / den) s (roundHalfEven num (den * 2 ^ s)) := by
  have hstep : 0 < den * 2 ^ s := Nat.mul_pos hden (Nat.two_pow_pos s)
  obtain ⟨habove, habove', hbelow, hbelow'⟩ := Exact.roundHalfEven_spec num hstep
  generalize roundHalfEven num (den * 2 ^ s) = r at habove habove' hbelow hbelow' ⊢
  have hdenQ : (0 : ℚ) < den := by exact_mod_cast hden
  obtain ⟨v, hv⟩ : ∃ v : ℚ, v = num / den := ⟨_, rfl⟩
  have hnum : (num : ℚ) = v * den := by rw [hv, div_mul_cancel₀ _ hdenQ.ne']
  rw [← hv]
  rw [← Nat.cast_le (α := ℚ)] at habove hbelow
  rw [← Nat.cast_inj (R := ℚ)] at habove' hbelow'
  push_cast [hnum] at habove habove' hbelow hbelow'
  -- The bounds of `Exact.roundHalfEven_spec`, divided by the denominator.
  constructor
  · refine le_of_mul_le_mul_right ?_ hdenQ
    linarith
  · intro h
    exact habove' (by linear_combination den * h)
  · refine le_of_mul_le_mul_right ?_ hdenQ
    linarith
  · intro h
    exact hbelow' (by linear_combination den * h)

theorem floor_mul_le (num : Nat) {den : Nat} (hden : 0 < den) (s : Nat) :
    ((num / (den * 2 ^ s) : Nat) : ℚ) * 2 ^ s ≤ num / den := by
  have hdenQ : (0 : ℚ) < den := by exact_mod_cast hden
  have hfloor : num / (den * 2 ^ s) * 2 ^ s * den ≤ num := by
    rw [Nat.mul_assoc, Nat.mul_comm (2 ^ s)]
    exact Nat.div_mul_le_self _ _
  rw [le_div_iff₀ hdenQ]
  exact_mod_cast hfloor

theorem le_gap {n s : Nat} (h : s = 0 ∨ (s + 1) * 2 ^ 52 ≤ n) : (2 : ℚ) ^ s ≤ gap n := by
  have hexp : 2 ^ s ≤ gap n := Nat.pow_le_pow_right (by decide) (by omega)
  exact_mod_cast hexp

/-- A significand of at most 53 binary digits, exactly 53 if the spacing is not the least,
    is the nearest magnitude.  The spacing is half as wide below the first of them, but
    then the number is not below the magnitude. -/
theorem IsRounded.isNearest {v : ℚ} {s r : Nat} (h : IsRounded v s r) (hr : r ≤ 2 ^ 53)
    (hleading : s = 0 ∨ 2 ^ 52 ≤ r) (hfirst : s = 0 ∨ 2 ^ 52 < r ∨ (r : ℚ) * 2 ^ s ≤ v) :
    IsNearest v (r + s * 2 ^ 52) := by
  have hunits : (units (r + s * 2 ^ 52) : ℚ) = r * 2 ^ s := by
    exact_mod_cast units_of_significand hr hleading
  have hnext : (units (r + s * 2 ^ 52 + 1) : ℚ) = r * 2 ^ s + gap (r + s * 2 ^ 52) := by
    rw [units_succ, Nat.cast_add, hunits]
  have hup : (2 : ℚ) ^ s ≤ gap (r + s * 2 ^ 52) := le_gap (by omega)
  have hprev (m : Nat) (hm : m + 1 = r + s * 2 ^ 52) : (units m : ℚ) = r * 2 ^ s - gap m := by
    have hsucc : (units m : ℚ) + gap m = r * 2 ^ s := by
      rw [← hunits, ← hm, units_succ, Nat.cast_add]
    linarith
  have hdown (m : Nat) (hm : m + 1 = r + s * 2 ^ 52) :
      (2 : ℚ) ^ s ≤ gap m ∨ (r : ℚ) * 2 ^ s ≤ v := by
    rcases hfirst with hs | hcarry | hv
    · exact .inl (le_gap (.inl hs))
    · exact .inl (le_gap (.inr (by omega)))
    · exact .inr hv
  have hpos (m : Nat) : (0 : ℚ) < gap m := by exact_mod_cast gap_pos m
  have hparity : (r + s * 2 ^ 52) % 2 = r % 2 := by omega
  constructor
  · rw [hunits, hnext]
    have habove := h.le_above
    linarith
  · intro heq
    rw [hunits, hnext] at heq
    rw [hparity]
    have habove := h.le_above
    exact h.even_above (by linarith)
  · intro m hm
    rw [hunits, hprev m hm]
    have hbelow := h.below_le
    have hposm := hpos m
    rcases hdown m hm with hgap | hv <;> linarith
  · intro m hm heq
    rw [hunits, hprev m hm] at heq
    rw [hparity]
    have hbelow := h.below_le
    have hposm := hpos m
    rcases hdown m hm with hgap | hv
    · exact h.even_below (by linarith)
    · exact absurd heq (by linarith)

/-- Rounding a quotient of natural numbers gives the nearest ordinal. -/
theorem nearestOrdinal_isNearest (num : Nat) {den : Nat} (hden : 0 < den) :
    IsNearest (num / den) (nearestOrdinal num den) := by
  obtain ⟨hdigits, hleading⟩ := spacing_bounds num den
  rw [nearestOrdinal]
  generalize Nat.log2 (num / den) - 52 = s at hdigits hleading ⊢
  have hrounded := roundHalfEven_isRounded num hden s
  have hmem := Exact.roundHalfEven_mem num (den * 2 ^ s)
  have hfloor := floor_mul_le num hden s
  generalize roundHalfEven num (den * 2 ^ s) = r at hrounded hmem ⊢
  generalize num / (den * 2 ^ s) = q at hdigits hleading hmem hfloor
  refine hrounded.isNearest (by omega) (by omega) ?_
  -- If the first 53-digit significand was not reached by rounding up, it is the floor.
  by_cases hcarry : s = 0 ∨ 2 ^ 52 < r
  · rcases hcarry with hs | hcarry
    · exact .inl hs
    · exact .inr (.inl hcarry)
  · have hr : r = q := by omega
    rw [hr]
    exact .inr (.inr hfloor)

end InfixArithmetic.Binary64
