/-
  InfixArithmetic.Exact

  Functions of natural numbers that the arithmetic of rounded values is made of: the
  quotient rounded to the nearest number, the square root rounded down, and the number
  of decimal digits.
-/

namespace InfixArithmetic.Exact

-- The powers are the core ones, whatever algebra is in scope.
attribute [local instance (high)] instPowNat

/-! ## Quotients -/

/-- The natural number nearest to `num / den`; a quotient half way between two
    of them goes to the even one. -/
def roundHalfEven (num den : Nat) : Nat :=
  let quotient := num / den
  let remainder := num % den
  if 2 * remainder < den then quotient
  else if den < 2 * remainder then quotient + 1
  else quotient + quotient % 2

/-- The rounded quotient is the floor or its successor. -/
theorem roundHalfEven_mem (num den : Nat) :
    roundHalfEven num den = num / den ∨ roundHalfEven num den = num / den + 1 := by
  simp only [roundHalfEven]
  split
  · exact .inl rfl
  · split
    · exact .inr rfl
    · omega

/-! ## Square roots -/

/-- The greatest natural number whose square is at most `n`. Two binary digits of
    the number give one of its root. -/
def floorRoot (n : Nat) : Nat :=
  if n < 2 then n
  else
    let low := 2 * floorRoot (n / 4)
    if (low + 1) * (low + 1) ≤ n then low + 1 else low
termination_by n

/-- The square of the root is not above the number, that of the next is. -/
theorem floorRoot_bounds (n : Nat) :
    floorRoot n * floorRoot n ≤ n ∧ n < (floorRoot n + 1) * (floorRoot n + 1) := by
  induction n using Nat.strongRecOn with
  | _ n ih =>
    rw [floorRoot]
    split
    next h =>
      have : n = 0 ∨ n = 1 := by omega
      rcases this with rfl | rfl <;> decide
    next h =>
      have hq := ih (n / 4) (by omega)
      generalize floorRoot (n / 4) = r at hq
      have hlow : 2 * r * (2 * r) = 4 * (r * r) := by
        rw [Nat.mul_mul_mul_comm]
      have hnext : (2 * r + 1 + 1) * (2 * r + 1 + 1) = 4 * ((r + 1) * (r + 1)) := by
        rw [show 2 * r + 1 + 1 = 2 * (r + 1) by omega, Nat.mul_mul_mul_comm]
      dsimp only
      split
      next hle => exact ⟨hle, by rw [hnext]; omega⟩
      next hlt => exact ⟨by rw [hlow]; omega, Nat.lt_of_not_le hlt⟩

/-! ## Decimal digits -/

/-- The number of decimal digits of `n`; zero has none. -/
def digitCount (n : Nat) : Nat :=
  if n = 0 then 0 else digitCount (n / 10) + 1
termination_by n

/-- A number of `k` digits is below the `k`-th power of ten. -/
theorem lt_pow_digitCount (n : Nat) : n < 10 ^ digitCount n := by
  induction n using Nat.strongRecOn with
  | _ n ih =>
    rw [digitCount]
    split
    next h => simp [h]
    next h =>
      have := ih (n / 10) (by omega)
      rw [Nat.pow_succ]
      omega

/-- A positive number of `k` digits is at least the power of ten before. -/
theorem pow_digitCount_le {n : Nat} (h : n ≠ 0) : 10 ^ (digitCount n - 1) ≤ n := by
  induction n using Nat.strongRecOn with
  | _ n ih =>
    rw [digitCount, if_neg h, Nat.add_sub_cancel]
    by_cases hq : n / 10 = 0
    · rw [hq, digitCount, if_pos rfl]
      omega
    · have hle := ih (n / 10) (by omega) hq
      have hpos : digitCount (n / 10) ≠ 0 := by
        rw [digitCount, if_neg hq]
        omega
      obtain ⟨k, hk⟩ := Nat.exists_eq_succ_of_ne_zero hpos
      rw [hk] at hle ⊢
      rw [Nat.succ_sub_one] at hle
      rw [Nat.pow_succ]
      omega

end InfixArithmetic.Exact
