/-
  InfixArithmetic.Proofs.IntegerAgreement

  The operations on 32-bit integers against those on floating-point values.

  An operand may be given to the latter as an integer or as the floating-point value that
  is this integer; both are rounded without loss (`exists_rounded`).  From there on each
  operation is one fact about `Binary64`: sums, differences and products of this size are
  exact, and a quotient or a root has the integer part of the exact one, because rounding
  does not reach the next integer (`Binary64.truncate?_div`, `Binary64.truncate?_sqrt`).
-/

import InfixArithmetic.Operation.Double
import InfixArithmetic.Proofs.ExactIntegers
import InfixArithmetic.Proofs.WrappedArithmetic

namespace InfixArithmetic

/-- The exact value of a number, none if it is not finite. -/
def Number.value? : Number → Option ℚ
  | .int i => some i
  | .double x => x.value?

namespace IntegerAgreement

open Binary64 (towardZero)
open DoubleOperation (rounded)
open InfixArithmetic.Int32 (checked_int inRange inRange_iff wrap wrap_of_inRange)

/-! ## Operands -/

section Operand

variable {p : Number} {a : Int}

/-- An integer of at most 53 binary digits is rounded to itself. -/
theorem exists_rounded (hp : p.value? = some (a : ℚ)) (ha : a.natAbs ≤ 2 ^ 53) :
    ∃ x, rounded p = .ok x ∧ x.value? = some (a : ℚ) := by
  cases p with
  | double x => exact ⟨x, rfl, hp⟩
  | int i =>
    obtain rfl : i = a := Int.cast_injective (Option.some.inj hp)
    have hvalue : (Binary64.ofRatio (i < 0) i.natAbs 1).value? = some (i : ℚ) := by
      rw [Binary64.ofRatio, Binary64.value?_ofUnits _ ha Nat.one_pos (Nat.mul_one _).symm,
        Binary64.signed_natAbs]
    refine ⟨_, ?_, hvalue⟩
    rw [rounded, Number.toBinary64?, Binary64.ofInt?,
      if_pos (Binary64.isFinite_of_value? hvalue)]

theorem isZero_iff (hp : p.value? = some (a : ℚ)) : p.isZero = true ↔ a = 0 := by
  cases p with
  | int i =>
    obtain rfl : i = a := Int.cast_injective (Option.some.inj hp)
    exact beq_iff_eq
  | double x =>
    obtain ⟨s, n, rfl, -, hn, -⟩ := Binary64.exists_of_value? hp
    have hpos : Binary64.unitsPerOne ≠ 0 := Binary64.zero_lt_unitsPerOne.ne'
    rw [Number.isZero, Binary64.isZero, beq_iff_eq, ← Binary64.units_eq_zero_iff, hn,
      Nat.mul_eq_zero, or_iff_left hpos, Int.natAbs_eq_zero]

theorem isBelowZero_iff (hp : p.value? = some (a : ℚ)) : p.isBelowZero = true ↔ a < 0 := by
  cases p with
  | int i =>
    obtain rfl : i = a := Int.cast_injective (Option.some.inj hp)
    exact decide_eq_true_iff
  | double x =>
    obtain ⟨s, n, rfl, hunits, -, -⟩ := Binary64.exists_of_value? hp
    have hpos : (0 : Int) < Binary64.unitsPerOne :=
      Int.natCast_pos.2 Binary64.zero_lt_unitsPerOne
    -- Zero is compared by its exact value, so negative zero is not below it.
    have hlt : (Number.double (.finite s n)).isBelowZero
        = decide (Binary64.signedUnits s n < 0 * Binary64.unitsPerOne) := rfl
    rw [hlt, decide_eq_true_iff, hunits, Int.zero_mul, ← not_le, ← not_le,
      mul_nonneg_iff_of_pos_right hpos]

end Operand

/-! ## Operations -/

section Operations

variable {p q : Number} {a b : Int} (ha : inRange a = true) (hb : inRange b = true)
  (hp : p.value? = some (a : ℚ)) (hq : q.value? = some (b : ℚ))

theorem natAbs_le_of_inRange {i : Int} (h : inRange i = true) : i.natAbs ≤ 2147483648 := by
  rw [inRange_iff] at h
  omega

include ha in
theorem exists_rounded_inRange (hp : p.value? = some (a : ℚ)) :
    ∃ x, rounded p = .ok x ∧ x.value? = some (a : ℚ) := by
  have habs := natAbs_le_of_inRange ha
  exact exists_rounded hp (by omega)

include ha hb hp hq

theorem exists_rounded_both :
    ∃ x y, rounded p = .ok x ∧ rounded q = .ok y ∧
      x.value? = some (a : ℚ) ∧ y.value? = some (b : ℚ) := by
  obtain ⟨x, hx, hxa⟩ := exists_rounded_inRange ha hp
  obtain ⟨y, hy, hyb⟩ := exists_rounded_inRange hb hq
  exact ⟨x, y, hx, hy, hxa, hyb⟩

theorem add_value :
    ∃ x, DoubleOperation.add p q = .ok x ∧ x.value? = some ((a + b : Int) : ℚ) := by
  obtain ⟨x, y, hx, hy, hxa, hyb⟩ := exists_rounded_both ha hb hp hq
  have ha' := natAbs_le_of_inRange ha
  have hb' := natAbs_le_of_inRange hb
  refine ⟨x.add y, ?_, Binary64.value?_add hxa hyb (by omega)⟩
  rw [DoubleOperation.add, hx, hy]
  rfl

theorem subtract_value :
    ∃ x, DoubleOperation.subtract p q = .ok x ∧ x.value? = some ((a - b : Int) : ℚ) := by
  obtain ⟨x, y, hx, hy, hxa, hyb⟩ := exists_rounded_both ha hb hp hq
  have ha' := natAbs_le_of_inRange ha
  have hb' := natAbs_le_of_inRange hb
  refine ⟨x.sub y, ?_, Binary64.value?_sub hxa hyb (by omega)⟩
  rw [DoubleOperation.subtract, hx, hy]
  rfl

theorem multiply_value (hab : inRange (a * b) = true) :
    ∃ x, DoubleOperation.multiply p q = .ok x ∧ x.value? = some ((a * b : Int) : ℚ) := by
  obtain ⟨x, y, hx, hy, hxa, hyb⟩ := exists_rounded_both ha hb hp hq
  have hab' := natAbs_le_of_inRange hab
  refine ⟨x.mul y, ?_, Binary64.value?_mul hxa hyb (by omega)⟩
  rw [DoubleOperation.multiply, hx, hy]
  rfl

theorem divide_value (hzero : b ≠ 0) :
    ∃ x v, DoubleOperation.divide p q = .ok x ∧ x.value? = some v ∧ towardZero v = a.tdiv b := by
  obtain ⟨x, y, hx, hy, hxa, hyb⟩ := exists_rounded_both ha hb hp hq
  have ha' := natAbs_le_of_inRange ha
  have hb' := natAbs_le_of_inRange hb
  obtain ⟨v, hv, hcut⟩ :=
    Binary64.exists_value?_of_truncate? (Binary64.truncate?_div hxa hyb hzero (by omega))
  refine ⟨x.div y, v, ?_, hv, hcut⟩
  rw [DoubleOperation.divide, if_neg (mt (isZero_iff hq).1 hzero), hx, hy]
  rfl

omit ha hb hp in
theorem divide_zero (hzero : b = 0) :
    DoubleOperation.divide p q = .error (.division .zeroDivisor) := by
  rw [DoubleOperation.divide, if_pos ((isZero_iff hq).2 hzero)]

omit hb hq in
theorem squareRoot_value (hnonneg : 0 ≤ a) :
    ∃ x v, DoubleOperation.squareRoot p = .ok x ∧ x.value? = some v ∧
      ⌊v⌋ = Exact.floorRoot a.toNat := by
  obtain ⟨x, hx, hxa⟩ := exists_rounded_inRange ha hp
  have ha' := natAbs_le_of_inRange ha
  obtain ⟨v, hv, hcut⟩ :=
    Binary64.exists_value?_of_truncate? (Binary64.truncate?_sqrt hxa hnonneg (by omega))
  refine ⟨x.sqrt, v, ?_, hv, ?_⟩
  · rw [DoubleOperation.squareRoot, if_neg (mt (isBelowZero_iff hp).1 (by omega)), hx]
    rfl
  · rw [← hcut, towardZero, if_pos (Binary64.nonneg_of_value?_sqrt hv)]

omit ha hb hq in
theorem squareRoot_negative (hnegative : a < 0) :
    DoubleOperation.squareRoot p = .error (.format .negativeRadicand) := by
  rw [DoubleOperation.squareRoot, if_pos ((isBelowZero_iff hp).2 hnegative)]

omit hb hq in
theorem abs_value :
    ∃ x, DoubleOperation.abs p = .ok x ∧ x.value? = some ((a.natAbs : Int) : ℚ) := by
  obtain ⟨x, hx, hxa⟩ := exists_rounded_inRange ha hp
  refine ⟨x.abs, ?_, ?_⟩
  · rw [DoubleOperation.abs, hx]
    rfl
  · rw [Binary64.value?_abs hxa, Int.cast_natCast, Nat.cast_natAbs, Int.cast_abs]

end Operations

/-! ## Operations on 32-bit integers -/

section Int32Operations

variable {a b : Int} (ha : inRange a = true) (hb : inRange b = true)

include ha hb in
theorem int32_divide_eq : Int32.divide (.int a) (.int b)
    = if b = 0 then .error (.division .zeroDivisor) else .ok (wrap (a.tdiv b)) := by
  rw [Int32.divide, checked_int ha, checked_int hb]
  rfl

include ha in
theorem int32_squareRoot_eq : Int32.squareRoot (.int a)
    = if a < 0 then .error (.format .negativeRadicand)
      else .ok (Exact.floorRoot a.toNat : Int) := by
  rw [Int32.squareRoot, checked_int ha]
  rfl

end Int32Operations

/-! ## Agreement -/

/-- The operations on 32-bit integers and those on floating-point values agree on operands
    that are the same 32-bit integers.  Sums, differences and absolute values of integers
    are the exact floating-point results, wrapped; products are these results where they
    are in range.  Quotients are the floating-point ones, cut off toward zero and wrapped,
    and roots are rounded down.  Both divide by zero, or neither does, and both refuse a
    root, or neither does. -/
theorem int32_agrees_with_binary64 {p q : Number} {a b : Int} (ha : inRange a = true)
    (hb : inRange b = true) (hp : p.value? = some (a : ℚ)) (hq : q.value? = some (b : ℚ)) :
    (∃ x i, DoubleOperation.add p q = .ok x ∧ x.value? = some ((i : Int) : ℚ) ∧
      Int32.add (.int a) (.int b) = .ok (wrap i)) ∧
    (∃ x i, DoubleOperation.subtract p q = .ok x ∧ x.value? = some ((i : Int) : ℚ) ∧
      Int32.subtract (.int a) (.int b) = .ok (wrap i)) ∧
    (inRange (a * b) = true → ∃ x i, DoubleOperation.multiply p q = .ok x ∧
      x.value? = some ((i : Int) : ℚ) ∧ Int32.multiply (.int a) (.int b) = .ok i) ∧
    (b ≠ 0 → ∃ x v, DoubleOperation.divide p q = .ok x ∧ x.value? = some v ∧
      Int32.divide (.int a) (.int b) = .ok (wrap (towardZero v))) ∧
    (0 ≤ a → ∃ x v, DoubleOperation.squareRoot p = .ok x ∧ x.value? = some v ∧
      Int32.squareRoot (.int a) = .ok ⌊v⌋) ∧
    (∃ x i, DoubleOperation.abs p = .ok x ∧ x.value? = some ((i : Int) : ℚ) ∧
      Int32.abs (.int a) = .ok (wrap i)) ∧
    ((∃ f, DoubleOperation.divide p q = .error (.division f)) ↔
      ∃ f, Int32.divide (.int a) (.int b) = .error (.division f)) ∧
    ((∃ f, DoubleOperation.squareRoot p = .error (.format f)) ↔
      ∃ f, Int32.squareRoot (.int a) = .error (.format f)) := by
  have hadd := Int32.add_wrap a b
  have hsubtract := Int32.subtract_wrap a b
  have hmultiply := Int32.multiply_wrap a b
  rw [wrap_of_inRange ha, wrap_of_inRange hb] at hadd hsubtract hmultiply
  refine ⟨?_, ?_, ?_, ?_, ?_, ?_, ?_, ?_⟩
  · obtain ⟨x, hx, hvalue⟩ := add_value ha hb hp hq
    exact ⟨x, a + b, hx, hvalue, hadd⟩
  · obtain ⟨x, hx, hvalue⟩ := subtract_value ha hb hp hq
    exact ⟨x, a - b, hx, hvalue, hsubtract⟩
  · intro hab
    obtain ⟨x, hx, hvalue⟩ := multiply_value ha hb hp hq hab
    rw [wrap_of_inRange hab] at hmultiply
    exact ⟨x, a * b, hx, hvalue, hmultiply⟩
  · intro hzero
    obtain ⟨x, v, hx, hvalue, hcut⟩ := divide_value ha hb hp hq hzero
    refine ⟨x, v, hx, hvalue, ?_⟩
    rw [int32_divide_eq ha hb, if_neg hzero, hcut]
  · intro hnonneg
    obtain ⟨x, v, hx, hvalue, hfloor⟩ := squareRoot_value ha hp hnonneg
    refine ⟨x, v, hx, hvalue, ?_⟩
    rw [int32_squareRoot_eq ha, if_neg (by omega), hfloor]
  · obtain ⟨x, hx, hvalue⟩ := abs_value ha hp
    refine ⟨x, a.natAbs, hx, hvalue, ?_⟩
    rw [Int32.abs, checked_int ha]
    rfl
  · rw [int32_divide_eq ha hb]
    by_cases hzero : b = 0
    · rw [divide_zero hq hzero, if_pos hzero]
      exact iff_of_true ⟨_, rfl⟩ ⟨_, rfl⟩
    · obtain ⟨x, v, hx, -, -⟩ := divide_value ha hb hp hq hzero
      rw [hx, if_neg hzero]
      exact iff_of_false nofun nofun
  · rw [int32_squareRoot_eq ha]
    by_cases hnegative : a < 0
    · rw [squareRoot_negative hp hnegative, if_pos hnegative]
      exact iff_of_true ⟨_, rfl⟩ ⟨_, rfl⟩
    · obtain ⟨x, v, hx, -, -⟩ := squareRoot_value ha hp (by omega)
      rw [hx, if_neg hnegative]
      exact iff_of_false nofun nofun

/-- The quotient of the least integer and minus one is wrapped, and the root of one less
    than a square is not the root of the square. -/
theorem int32_agrees_with_binary64_least :
    inRange (-2147483648) = true ∧ inRange (-1) = true ∧ inRange 2147395599 = true ∧
      (∃ x v, DoubleOperation.divide (.int (-2147483648)) (.int (-1)) = .ok x ∧
        x.value? = some v ∧
        Int32.divide (.int (-2147483648)) (.int (-1)) = .ok (wrap (towardZero v))) ∧
      ∃ x v, DoubleOperation.squareRoot (.int 2147395599) = .ok x ∧ x.value? = some v ∧
        Int32.squareRoot (.int 2147395599) = .ok ⌊v⌋ := by
  have hquotient := @int32_agrees_with_binary64 (.int (-2147483648)) (.int (-1)) _ _ rfl rfl rfl rfl
  have hroot := @int32_agrees_with_binary64 (.int 2147395599) (.int (-1)) _ _ rfl rfl rfl rfl
  exact ⟨rfl, rfl, rfl, hquotient.2.2.2.1 (by decide), hroot.2.2.2.2.1 (by decide)⟩

end IntegerAgreement

end InfixArithmetic
