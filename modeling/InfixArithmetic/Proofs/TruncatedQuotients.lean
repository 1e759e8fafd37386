/-
  InfixArithmetic.Proofs.TruncatedQuotients

  The quotient of two 32-bit integers and what is left over, with every result wrapped.

  Wrapping does not see multiples of 2^32, so what is left over is the exact remainder
  wrapped, whatever became of the quotient and of its product with the divisor
  (`subtract_multiply_divide`).  The exact remainder is smaller than the divisor and thus in
  range (`inRange_tmod`).  The quotient is in range too, with the one exception of the least
  integer by minus one (`inRange_tdiv`), where it is wrapped but nothing is left over.
-/

import InfixArithmetic.Proofs.IntegerAgreement

namespace InfixArithmetic.Int32

open Binary64 (towardZero towardZero_intCast_div)

variable {a b : Int}

/-! ## Exact remainders -/

theorem natAbs_tmod_lt (a : Int) (hb : b ≠ 0) : (a.tmod b).natAbs < b.natAbs := by
  rw [Int.natAbs_tmod]
  exact Nat.mod_lt _ (Int.natAbs_pos.2 hb)

/-- A remainder is on the side of the dividend. -/
theorem sign_tmod_eq (a b : Int) : a.tmod b = 0 ∨ (a.tmod b).sign = a.sign := by
  rcases lt_trichotomy a 0 with hneg | rfl | hpos
  · have hle : a.tmod b ≤ 0 := by
      have hnonneg := Int.tmod_nonneg b (show 0 ≤ -a by omega)
      rw [Int.neg_tmod] at hnonneg
      omega
    rcases hle.eq_or_lt with hzero | hlt
    · exact .inl hzero
    · exact .inr (by rw [Int.sign_eq_neg_one_of_neg hlt, Int.sign_eq_neg_one_of_neg hneg])
  · exact .inl (Int.zero_tmod b)
  · rcases (Int.tmod_nonneg b hpos.le).eq_or_lt with hzero | hlt
    · exact .inl hzero.symm
    · exact .inr (by rw [Int.sign_eq_one_of_pos hlt, Int.sign_eq_one_of_pos hpos])

theorem inRange_tmod (a : Int) (hb : inRange b = true) (hzero : b ≠ 0) :
    inRange (a.tmod b) = true := by
  have hlt := natAbs_tmod_lt a hzero
  rw [inRange_iff] at hb ⊢
  omega

/-- Only one quotient of integers in range is not in range itself. -/
theorem inRange_tdiv (ha : inRange a = true) (hb : inRange b = true) (hzero : b ≠ 0)
    (h : ¬ (a = -2147483648 ∧ b = -1)) : inRange (a.tdiv b) = true := by
  have habs : (a.tdiv b).natAbs = a.natAbs / b.natAbs := Int.natAbs_tdiv a b
  rw [inRange_iff] at ha hb ⊢
  obtain rfl | rfl | hlarge : b = 1 ∨ b = -1 ∨ 2 ≤ b.natAbs := by omega
  · rwa [Int.tdiv_one]
  · rw [Int.tdiv_neg, Int.tdiv_one]
    omega
  · have hhalf : a.natAbs / b.natAbs ≤ a.natAbs / 2 := Nat.div_le_div_left hlarge two_pos
    omega

/-! ## Wrapped results -/

/-- The remainder is exact, even if the quotient or the product is wrapped on the way. -/
theorem subtract_multiply_divide (ha : inRange a = true) (hb : inRange b = true)
    (hzero : b ≠ 0) :
    multiply (.int (wrap (a.tdiv b))) (.int b) = .ok (wrap (a.tdiv b * b)) ∧
      subtract (.int a) (.int (wrap (a.tdiv b * b))) = .ok (a.tmod b) := by
  have hproduct := multiply_wrap (a.tdiv b) b
  have hrest := subtract_wrap a (a.tdiv b * b)
  rw [wrap_of_inRange hb] at hproduct
  rw [wrap_of_inRange ha, Int.sub_eq_iff_eq_add.2 (Int.tmod_add_tdiv_mul a b).symm,
    wrap_of_inRange (inRange_tmod a hb hzero)] at hrest
  exact ⟨hproduct, hrest⟩

/-- The quotient of two integers in range and what is left over, every result wrapped: the
    rest is smaller than the divisor, and it is zero or on the side of the dividend.  But for
    -2^31 by -1, whose quotient is wrapped to -2^31, quotient and rest give the dividend over
    all integers, and the quotient is the exact one cut off toward zero. -/
theorem divide_leaves_remainder (ha : inRange a = true) (hb : inRange b = true)
    (hzero : b ≠ 0) :
    ∃ q p r, divide (.int a) (.int b) = .ok q ∧ multiply (.int q) (.int b) = .ok p ∧
      subtract (.int a) (.int p) = .ok r ∧
      |r| < |b| ∧ (r = 0 ∨ r.sign = a.sign) ∧
      (a = -2147483648 ∧ b = -1 → q = -2147483648 ∧ r = 0) ∧
      (¬ (a = -2147483648 ∧ b = -1) → q * b + r = a ∧ q = towardZero (a / b)) := by
  have hquotient : divide (.int a) (.int b) = .ok (wrap (a.tdiv b)) := by
    rw [IntegerAgreement.int32_divide_eq ha hb, if_neg hzero]
  obtain ⟨hproduct, hrest⟩ := subtract_multiply_divide ha hb hzero
  refine ⟨_, _, _, hquotient, hproduct, hrest, ?_, sign_tmod_eq a b, ?_, ?_⟩
  · rw [Int.abs_eq_natAbs, Int.abs_eq_natAbs]
    exact_mod_cast natAbs_tmod_lt a hzero
  · rintro ⟨rfl, rfl⟩
    exact ⟨rfl, rfl⟩
  · intro hinner
    rw [wrap_of_inRange (inRange_tdiv ha hb hzero hinner), towardZero_intCast_div]
    exact ⟨Int.tdiv_mul_add_tmod a b, rfl⟩

/-- The least integer by seven and by minus one. -/
theorem divide_leaves_remainder_least :
    inRange (-2147483648) = true ∧ inRange 7 = true ∧ inRange (-1) = true ∧ (7 : Int) ≠ 0 ∧
      (-1 : Int) ≠ 0 ∧
      (∃ q r, divide (.int (-2147483648)) (.int 7) = .ok q ∧ q * 7 + r = -2147483648 ∧
        |r| < 7 ∧ (r = 0 ∨ r.sign = -1)) ∧
      divide (.int (-2147483648)) (.int (-1)) = .ok (-2147483648) := by
  obtain ⟨q, _, r, hq, -, -, hsmall, hsign, -, hexact⟩ :=
    divide_leaves_remainder (a := -2147483648) (b := 7) rfl rfl (by decide)
  obtain ⟨q', _, r', hq', -, -, -, -, hwrapped, -⟩ :=
    divide_leaves_remainder (a := -2147483648) (b := -1) rfl rfl (by decide)
  obtain ⟨hsum, -⟩ := hexact (by decide)
  obtain ⟨rfl, -⟩ := hwrapped ⟨rfl, rfl⟩
  exact ⟨rfl, rfl, rfl, by decide, by decide, ⟨q, r, hq, hsum, hsmall, hsign⟩, hq'⟩

end InfixArithmetic.Int32
