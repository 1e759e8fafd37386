/-
  InfixArithmetic.Expression.Chain

  Numbers with an operator between each two neighbours.
-/

namespace InfixArithmetic

/-- A first number, and then operators each with the number after it. -/
structure Chain (ω ν : Type) where
  first : ν
  links : List (ω × ν)
deriving DecidableEq, Repr

namespace Chain

variable {ω ν ω' ν' : Type}

/-- The numbers in order. -/
def numbers (c : Chain ω ν) : List ν := c.first :: c.links.map Prod.snd

/-- The operators in order. -/
def operators (c : Chain ω ν) : List ω := c.links.map Prod.fst

/-- The chain of a list of numbers and a list of operators, which has to be one
    shorter. -/
def ofLists? : List ν → List ω → Option (Chain ω ν)
  | [], _ => none
  | x :: xs, os => if xs.length = os.length then some ⟨x, os.zip xs⟩ else none

/-- Another number and operator before the chain. -/
def cons (x : ν) (o : ω) (c : Chain ω ν) : Chain ω ν := ⟨x, (o, c.first) :: c.links⟩

/-- The chain with its operators and numbers replaced. -/
def map (f : ω → ω') (g : ν → ν') (c : Chain ω ν) : Chain ω' ν' :=
  ⟨g c.first, c.links.map fun (o, x) => (f o, g x)⟩

/-- A chain is put together again from its numbers and operators. -/
@[simp] theorem ofLists?_numbers_operators (c : Chain ω ν) :
    ofLists? c.numbers c.operators = some c := by
  have h : (c.links.map Prod.fst).zip (c.links.map Prod.snd) = c.links :=
    (List.zip_of_prod rfl rfl).symm
  simp [ofLists?, numbers, operators, h]

/-- The chain of two lists has these numbers and operators. -/
theorem ofLists?_eq_some_iff {xs : List ν} {os : List ω} {c : Chain ω ν} :
    ofLists? xs os = some c ↔ c.numbers = xs ∧ c.operators = os := by
  constructor
  · intro h
    cases xs with
    | nil => cases h
    | cons x xs =>
      rw [ofLists?, Option.ite_none_right_eq_some] at h
      obtain ⟨hlen, ⟨⟩⟩ := h
      simp [numbers, operators, List.map_snd_zip (Nat.le_of_eq hlen),
        List.map_fst_zip (Nat.le_of_eq hlen.symm)]
  · rintro ⟨rfl, rfl⟩
    exact ofLists?_numbers_operators c

theorem ofLists?_eq_none_iff {xs : List ν} {os : List ω} :
    ofLists? xs os = none ↔ xs = [] ∨ xs.length ≠ os.length + 1 := by
  cases xs with
  | nil => simp [ofLists?]
  | cons x xs => simp [ofLists?]

@[simp] theorem numbers_map (f : ω → ω') (g : ν → ν') (c : Chain ω ν) :
    (c.map f g).numbers = c.numbers.map g := by
  simp [numbers, map, Function.comp_def]

@[simp] theorem operators_map (f : ω → ω') (g : ν → ν') (c : Chain ω ν) :
    (c.map f g).operators = c.operators.map f := by
  simp [operators, map, Function.comp_def]

end Chain

end InfixArithmetic
