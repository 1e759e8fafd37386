/-
  InfixArithmetic.Proofs.WrappedArithmetic

  Wrapping at every step of a computation on 32-bit integers, and wrapping its exact
  result once.

  `wrap` forgets nothing but multiples of 2^32, and sums, differences, products and
  powers do not see those (`wrap_add`, `wrap_sub`, `wrap_mul`, `wrap_pow`).  A wrapped
  operand may therefore stand for the exact one at every node of a tree
  (`Tree.value_eq`), and the repeated squaring of `wrappedPower` is the power wrapped
  at the end (`wrappedPower_eq_wrap`).
-/

import InfixArithmetic.Operation.Int32
import Mathlib.Data.Int.ModEq
import Mathlib.Tactic.Ring

namespace InfixArithmetic.Int32

/-! ## Congruence -/

theorem wrap_modEq (i : Int) : wrap i ≡ i [ZMOD 2 ^ 32] := Int.bmod_emod

/-- Only one integer in range is congruent to a given one. -/
theorem eq_wrap_of_modEq {i j : Int} (hi : inRange i = true) (h : i ≡ j [ZMOD 2 ^ 32]) :
    i = wrap j := by
  have hmod : i % ((2 ^ 32 : Nat) : Int) = j % ((2 ^ 32 : Nat) : Int) := h
  rw [← wrap_of_inRange hi, wrap, wrap, Int.bmod_def, Int.bmod_def, hmod]

theorem wrap_eq_of_modEq {i j : Int} (h : i ≡ j [ZMOD 2 ^ 32]) : wrap i = wrap j :=
  eq_wrap_of_modEq (inRange_wrap i) ((wrap_modEq i).trans h)

theorem wrap_add (i j : Int) : wrap (wrap i + wrap j) = wrap (i + j) :=
  wrap_eq_of_modEq ((wrap_modEq i).add (wrap_modEq j))

theorem wrap_sub (i j : Int) : wrap (wrap i - wrap j) = wrap (i - j) :=
  wrap_eq_of_modEq ((wrap_modEq i).sub (wrap_modEq j))

theorem wrap_mul (i j : Int) : wrap (wrap i * wrap j) = wrap (i * j) :=
  wrap_eq_of_modEq ((wrap_modEq i).mul (wrap_modEq j))

theorem wrap_pow (i : Int) (n : Nat) : wrap (wrap i ^ n) = wrap (i ^ n) :=
  wrap_eq_of_modEq ((wrap_modEq i).pow n)

/-! ## The operations on integers in range -/

theorem checked_int {i : Int} (h : inRange i = true) : checked (.int i) = .ok i := by
  rw [checked, if_pos h]

/-- Repeated squaring, every product wrapped, is the power wrapped once. -/
theorem wrappedPower_eq_wrap (base : Int) (exponent : Nat) :
    wrappedPower base exponent = wrap (base ^ exponent) := by
  induction exponent using Nat.strongRecOn with
  | _ exponent ih =>
    rw [wrappedPower]
    split
    next hzero =>
      rw [hzero, pow_zero]
      rfl
    next hpos =>
      have hroot := ih (exponent / 2) (by omega)
      have hsquare : wrap (wrappedPower base (exponent / 2) * wrappedPower base (exponent / 2))
          = wrap (base ^ (2 * (exponent / 2))) := by
        rw [hroot, wrap_mul, two_mul, pow_add]
      simp only [hsquare]
      split
      next heven => rw [show 2 * (exponent / 2) = exponent by omega]
      next hodd =>
        -- The last factor is not wrapped before it is multiplied.
        have hlast : wrap (base ^ (2 * (exponent / 2))) * base
            ≡ base ^ (2 * (exponent / 2)) * base [ZMOD 2 ^ 32] := (wrap_modEq _).mul_right base
        rw [wrap_eq_of_modEq hlast, ← pow_succ,
          show 2 * (exponent / 2) + 1 = exponent by omega]

theorem add_wrap (i j : Int) :
    add (.int (wrap i)) (.int (wrap j)) = .ok (wrap (i + j)) := by
  rw [add, checked_int (inRange_wrap i), checked_int (inRange_wrap j), ← wrap_add]
  rfl

theorem subtract_wrap (i j : Int) :
    subtract (.int (wrap i)) (.int (wrap j)) = .ok (wrap (i - j)) := by
  rw [subtract, checked_int (inRange_wrap i), checked_int (inRange_wrap j), ← wrap_sub]
  rfl

theorem multiply_wrap (i j : Int) :
    multiply (.int (wrap i)) (.int (wrap j)) = .ok (wrap (i * j)) := by
  rw [multiply, checked_int (inRange_wrap i), checked_int (inRange_wrap j), ← wrap_mul]
  rfl

theorem power_wrap (i : Int) {n : Nat} (hn : n ≤ 2147483647) :
    power (.int (wrap i)) (.int n) = .ok (wrap (i ^ n)) := by
  have hexponent : inRange n = true := inRange_iff.2 (by omega)
  have hnegative : ¬ (n : Int) < 0 := by omega
  rw [power, checked_int (inRange_wrap i), checked_int hexponent, ← wrap_pow,
    ← wrappedPower_eq_wrap]
  simp only [bind, Except.bind, if_neg hnegative, Int.toNat_natCast]
  rfl

/-! ## Trees -/

/-- A computation on 32-bit integers. The exponents are constants. -/
inductive Tree where
  | leaf (i : Int) (h : inRange i = true)
  | add (a b : Tree)
  | subtract (a b : Tree)
  | multiply (a b : Tree)
  | power (base : Tree) (exponent : Nat) (h : exponent ≤ 2147483647)

namespace Tree

/-- The value with the operation of every node applied to the values below it. -/
def value : Tree → Except Fault Int
  | leaf i _ => .ok i
  | add a b => do Int32.add (.int (← a.value)) (.int (← b.value))
  | subtract a b => do Int32.subtract (.int (← a.value)) (.int (← b.value))
  | multiply a b => do Int32.multiply (.int (← a.value)) (.int (← b.value))
  | power base exponent _ => do Int32.power (.int (← base.value)) (.int exponent)

/-- The value over all integers. -/
def exact : Tree → Int
  | leaf i _ => i
  | add a b => a.exact + b.exact
  | subtract a b => a.exact - b.exact
  | multiply a b => a.exact * b.exact
  | power base exponent _ => base.exact ^ exponent

/-- No node fails, and every node has the exact value below it, wrapped. -/
theorem value_eq (t : Tree) : t.value = .ok (wrap t.exact) := by
  induction t with
  | leaf i h => rw [value, exact, wrap_of_inRange h]
  | add a b iha ihb =>
    rw [value, iha, ihb]
    exact add_wrap a.exact b.exact
  | subtract a b iha ihb =>
    rw [value, iha, ihb]
    exact subtract_wrap a.exact b.exact
  | multiply a b iha ihb =>
    rw [value, iha, ihb]
    exact multiply_wrap a.exact b.exact
  | power base exponent h ih =>
    rw [value, ih]
    exact power_wrap base.exact h

end Tree

/-! ## Powers as products -/

/-- One multiplied by a base so many times, every product wrapped. -/
def product (base : Int) : Nat → Except Fault Int
  | 0 => .ok 1
  | n + 1 => do multiply (.int (← product base n)) (.int base)

theorem product_eq {base : Int} (h : inRange base = true) (n : Nat) :
    product base n = .ok (wrap (base ^ n)) := by
  induction n with
  | zero =>
    rw [pow_zero, wrap_of_inRange rfl]
    rfl
  | succ n ih =>
    have hstep := multiply_wrap (base ^ n) base
    rw [wrap_of_inRange h] at hstep
    rw [product, ih, pow_succ]
    exact hstep

/-- A computation that wraps at every node never fails and gives the only 32-bit integer
    that is congruent to the exact value modulo 2^32.  A power is the product of as many
    factors, each of them multiplied with wrapping. -/
theorem tree_value_congruent_exact (t : Tree) :
    (∃ i, t.value = .ok i ∧ inRange i = true ∧ i ≡ t.exact [ZMOD 2 ^ 32] ∧
      ∀ j, inRange j = true → j ≡ t.exact [ZMOD 2 ^ 32] → j = i) ∧
    ∀ (base : Int) (exponent : Nat), inRange base = true → exponent ≤ 2147483647 →
      power (.int base) (.int exponent) = product base exponent := by
  constructor
  · exact ⟨wrap t.exact, t.value_eq, inRange_wrap t.exact, wrap_modEq t.exact,
      fun j hj h => eq_wrap_of_modEq hj h⟩
  · intro base exponent hbase hexponent
    have hpower := power_wrap base hexponent
    rw [wrap_of_inRange hbase] at hpower
    rw [hpower, product_eq hbase]

/-- One less than the least integer is wrapped, and so is the cube of the least one. -/
theorem tree_value_congruent_exact_overflow :
    (∃ i, (Tree.subtract (.leaf (-2147483648) rfl) (.power (.leaf (-1) rfl) 2 (by decide))).value
        = .ok i ∧ i ≡ -2147483649 [ZMOD 2 ^ 32]) ∧
      inRange (-2147483648) = true ∧ 3 ≤ 2147483647 ∧
      power (.int (-2147483648)) (.int (3 : Nat)) = product (-2147483648) 3 := by
  obtain ⟨⟨i, hvalue, -, hmod, -⟩, hpower⟩ := tree_value_congruent_exact
    (Tree.subtract (.leaf (-2147483648) rfl) (.power (.leaf (-1) rfl) 2 (by decide)))
  exact ⟨⟨i, hvalue, hmod⟩, rfl, by decide, hpower (-2147483648) 3 rfl (by decide)⟩

end InfixArithmetic.Int32
