/-
  InfixArithmetic.Proofs.FallibleSteps

  Steps that can fail, one after the other.

  Such a row has a value only if each of its steps has one (`bind_eq_ok`,
  `map_eq_of_mapM`), and its faults are those of its steps (`FaultsIn.bind`,
  `faultsIn_mapM`).
-/

namespace InfixArithmetic.FallibleSteps

variable {ε α β : Type}

/-! ## Values -/

theorem bind_eq_ok {x : Except ε α} {f : α → Except ε β} {b : β} (h : x >>= f = .ok b) :
    ∃ a, x = .ok a ∧ f a = .ok b := by
  cases x with
  | error e => cases h
  | ok a => exact ⟨a, rfl, h⟩

theorem map_eq_ok {f : α → β} {x : Except ε α} {b : β} (h : f <$> x = .ok b) :
    ∃ a, x = .ok a ∧ f a = b := by
  cases x with
  | error e => cases h
  | ok a => exact ⟨a, rfl, Except.ok.inj h⟩

theorem map_eq_of_mapM {f : α → Except ε β} {xs : List α} {ys : List β}
    (h : xs.mapM f = .ok ys) : xs.map f = ys.map Except.ok := by
  induction xs generalizing ys with
  | nil =>
    cases h
    rfl
  | cons x xs ih =>
    rw [List.mapM_cons] at h
    obtain ⟨y, hy, h⟩ := bind_eq_ok h
    obtain ⟨rest, hrest, h⟩ := bind_eq_ok h
    cases h
    rw [List.map_cons, List.map_cons, hy, ih hrest]

/-- Each step of a row with values has one of them. -/
theorem exists_mem_of_mapM {f : α → Except ε β} {xs : List α} {ys : List β}
    (h : xs.mapM f = .ok ys) {x : α} (hx : x ∈ xs) : ∃ y ∈ ys, f x = .ok y := by
  have hmem := List.mem_map_of_mem (f := f) hx
  rw [map_eq_of_mapM h] at hmem
  obtain ⟨y, hy, hfx⟩ := List.mem_map.1 hmem
  exact ⟨y, hy, hfx.symm⟩

/-- Each value of a row is that of one of its steps. -/
theorem exists_step_of_mapM {f : α → Except ε β} {xs : List α} {ys : List β}
    (h : xs.mapM f = .ok ys) {y : β} (hy : y ∈ ys) : ∃ x ∈ xs, f x = .ok y := by
  have hmem : Except.ok y ∈ xs.map f := by
    rw [map_eq_of_mapM h]
    exact List.mem_map_of_mem hy
  exact List.mem_map.1 hmem

/-! ## Faults -/

/-- All faults that a result can have are of a kind. -/
def FaultsIn (kind : ε → Prop) (r : Except ε α) : Prop := ∀ e, r = .error e → kind e

section FaultsIn

variable {kind : ε → Prop}

theorem faultsIn_ok (a : α) : FaultsIn kind (.ok a) := by
  rintro e ⟨⟩

theorem faultsIn_error {e : ε} (h : kind e) : FaultsIn kind (.error e : Except ε α) := by
  rintro _ ⟨⟩
  exact h

theorem FaultsIn.bind {r : Except ε α} (hr : FaultsIn kind r) {next : α → Except ε β}
    (hnext : ∀ a, r = .ok a → FaultsIn kind (next a)) : FaultsIn kind (r >>= next) := by
  cases r with
  | error e => exact faultsIn_error (hr e rfl)
  | ok a => exact hnext a rfl

theorem FaultsIn.map {r : Except ε α} (hr : FaultsIn kind r) (f : α → β) :
    FaultsIn kind (f <$> r) := by
  cases r with
  | error e => exact faultsIn_error (hr e rfl)
  | ok a => exact faultsIn_ok (f a)

theorem faultsIn_mapM {f : α → Except ε β} (h : ∀ a, FaultsIn kind (f a)) (as : List α) :
    FaultsIn kind (as.mapM f) := by
  induction as with
  | nil => exact faultsIn_ok []
  | cons a as ih =>
    rw [List.mapM_cons]
    exact (h a).bind fun b _ => ih.bind fun bs _ => faultsIn_ok (b :: bs)

end FaultsIn

end InfixArithmetic.FallibleSteps
