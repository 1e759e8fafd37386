/-
  InfixArithmetic.Proofs.IndexedReduction

  The two passes as loops over two lists and an index.

  `Expression.multiplyOut` and `Expression.addUp` recurse on a chain, in which every
  operator comes with the number after it, so they have no index that could be wrong.
  Here the first pass changes a list of numbers and a list of operators in place, as a
  program with mutable lists would, and the second one looks its numbers up.  A look-up
  outside a list gives `none`.

  The invariant of the first pass is `Lists.between`: what lies before the place is
  finished and has as many numbers as operators, and what lies after it is a chain
  still.  A round keeps it (`step_between`), so no look-up ever fails and the passes
  compute what the recursions do (`reduceLists_eq`).
-/

import InfixArithmetic.Expression.Evaluate
import Mathlib.Data.List.Basic

namespace InfixArithmetic.IndexedReduction

open Expression (multiplyOut addUp reduceChain reduce applyOperator)

variable {ν : Type} (apply : Operator → ν → ν → Except Fault ν)

/-! ## The loops -/

/-- The lists that the first pass changes, and the place that it has come to. -/
structure Lists (ν : Type) where
  numbers : List ν
  operators : List String
  place : Nat

namespace Lists

/-- One round of the first pass. An operator of high precedence is applied to the
    number at its place and the one after it; the result is stored at the place, and the
    second number and the operator are deleted. Any other operator is passed by. -/
def step (l : Lists ν) : Option (Except Fault (Lists ν)) := do
  let s ← l.operators[l.place]?
  match (Operator.ofText? s).filter Operator.isHigh with
  | none => return .ok { l with place := l.place + 1 }
  | some o =>
    let x ← l.numbers[l.place]?
    let y ← l.numbers[l.place + 1]?
    return (apply o x y).map fun z =>
      ⟨(l.numbers.set l.place z).eraseIdx (l.place + 1), l.operators.eraseIdx l.place, l.place⟩

/-- Every round leaves one operator less to look at. -/
theorem remaining_step {l l' : Lists ν} (h : l.step apply = some (.ok l')) :
    l'.operators.length - l'.place < l.operators.length - l.place := by
  simp only [step, Option.bind_eq_bind, Option.bind_eq_some_iff] at h
  obtain ⟨s, hs, h⟩ := h
  obtain ⟨hlt, -⟩ := List.getElem?_eq_some_iff.1 hs
  split at h
  next =>
    obtain rfl := Except.ok.inj (Option.some.inj h)
    dsimp only
    omega
  next o ho =>
    simp only [Option.bind_eq_some_iff] at h
    obtain ⟨x, -, y, -, h⟩ := h
    cases hz : apply o x y with
    | error fault => simp [hz, Except.map] at h
    | ok z =>
      rw [hz] at h
      obtain rfl := Except.ok.inj (Option.some.inj h)
      simp only [List.length_eraseIdx, hlt, if_true]
      omega

end Lists

/-- The first pass: rounds as long as there is an operator at the place. -/
def firstPass (l : Lists ν) : Option (Except Fault (Lists ν)) :=
  if l.place < l.operators.length then
    match _hstep : l.step apply with
    | none => none
    | some (.error fault) => some (.error fault)
    | some (.ok l') => firstPass l'
  else some (.ok l)
termination_by l.operators.length - l.place
decreasing_by exact Lists.remaining_step apply _hstep

theorem firstPass_error {l : Lists ν} {fault : Fault} (hl : l.place < l.operators.length)
    (hstep : l.step apply = some (.error fault)) :
    firstPass apply l = some (.error fault) := by
  rw [firstPass, if_pos hl]
  split <;> simp_all

theorem firstPass_ok {l l' : Lists ν} (hl : l.place < l.operators.length)
    (hstep : l.step apply = some (.ok l')) : firstPass apply l = firstPass apply l' := by
  rw [firstPass, if_pos hl]
  split <;> simp_all

/-- The second pass: the operators in order, each with the number after its place. -/
def secondPass (numbers : List ν) : Nat → ν → List String → Option (Except Fault ν)
  | _, x, [] => some (.ok x)
  | place, x, s :: rest =>
    match (Operator.ofText? s).filter (!·.isHigh) with
    | none => some (.error (.format (.unknownOperator s)))
    | some o => do
      let y ← numbers[place + 1]?
      match apply o x y with
      | .error fault => return .error fault
      | .ok z => secondPass numbers (place + 1) z rest

/-- Both passes on two lists, which have to fit together. -/
def reduceLists (numbers : List ν) (operators : List String) : Option (Except Fault ν) :=
  if numbers = [] ∨ numbers.length ≠ operators.length + 1 then
    some (.error (.format .unbalanced))
  else do
    match ← firstPass apply ⟨numbers, operators, 0⟩ with
    | .error fault => return .error fault
    | .ok l =>
      let x ← l.numbers[0]?
      secondPass apply l.numbers 0 x l.operators

/-! ## The first pass -/

/-- The lists with everything in `done` finished, and a number and its links ahead. -/
def Lists.between (done : List (ν × String)) (x : ν) (links : List (String × ν)) : Lists ν where
  numbers := done.map Prod.fst ++ x :: links.map Prod.snd
  operators := done.map Prod.snd ++ links.map Prod.fst
  place := done.length

/-- A round looks up what lies just after the place, and nothing else. -/
theorem step_between (done : List (ν × String)) (x : ν) (s : String) (y : ν)
    (links : List (String × ν)) :
    (Lists.between done x ((s, y) :: links)).step apply
      = some (match (Operator.ofText? s).filter Operator.isHigh with
        | none => .ok (.between (done ++ [(x, s)]) y links)
        | some o => (apply o x y).map (Lists.between done · links)) := by
  have hs : (Lists.between done x ((s, y) :: links)).operators[done.length]? = some s := by
    simp [Lists.between]
  have hx : (Lists.between done x ((s, y) :: links)).numbers[done.length]? = some x := by
    simp [Lists.between]
  have hy : (Lists.between done x ((s, y) :: links)).numbers[done.length + 1]? = some y := by
    simp [Lists.between]
  have hplace : (Lists.between done x ((s, y) :: links)).place = done.length := rfl
  rw [Lists.step, hplace, hs]
  simp only [Option.bind_eq_bind, Option.bind_some]
  cases (Operator.ofText? s).filter Operator.isHigh with
  | none => simp [Lists.between]
  | some o =>
    rw [hx, hy]
    simp only [Option.bind_some]
    cases apply o x y with
    | error fault => rfl
    | ok z =>
      simp [Except.map, Lists.between, List.set_append_right, List.eraseIdx_append_of_length_le]

/-- The first pass ends with the numbers and operators that the recursion leaves,
    behind those that were finished before. -/
theorem firstPass_between (done : List (ν × String)) (x : ν) (links : List (String × ν)) :
    firstPass apply (.between done x links)
      = some ((multiplyOut apply x links).map fun c =>
          ⟨done.map Prod.fst ++ c.numbers, done.map Prod.snd ++ c.operators,
            done.length + c.links.length⟩) := by
  induction links generalizing done x with
  | nil =>
    rw [firstPass, if_neg (by simp [Lists.between])]
    simp [Lists.between, multiplyOut, Except.map, Chain.numbers, Chain.operators]
  | cons link links ih =>
    obtain ⟨s, y⟩ := link
    have hlt : (Lists.between done x ((s, y) :: links)).place
        < (Lists.between done x ((s, y) :: links)).operators.length := by
      simp [Lists.between]
    have hstep := step_between apply done x s y links
    rw [multiplyOut]
    cases hs : (Operator.ofText? s).filter Operator.isHigh with
    | none =>
      -- The operator is left for the second pass, and the place moves on over `x`.
      rw [hs] at hstep
      rw [firstPass_ok apply hlt hstep, ih (done ++ [(x, s)]) y]
      cases multiplyOut apply y links with
      | error fault => rfl
      | ok c =>
        simp [Except.map, bind, Except.bind, pure, Except.pure, Chain.numbers, Chain.operators,
          Chain.cons]
        omega
    | some o =>
      rw [hs] at hstep
      dsimp only at hstep ⊢
      cases hz : apply o x y with
      | error fault =>
        rw [hz] at hstep
        exact firstPass_error apply hlt hstep
      | ok z =>
        -- The place stays where it is, with `z` at it.
        rw [hz] at hstep
        rw [firstPass_ok apply hlt hstep, ih done z]
        rfl

/-! ## The second pass -/

/-- Every operator finds its number, whatever lies before the first of them. -/
theorem secondPass_eq (before : List ν) (x : ν) (links : List (String × ν)) {place : Nat}
    (hplace : before.length = place + 1) :
    secondPass apply (before ++ links.map Prod.snd) place x (links.map Prod.fst)
      = some (addUp apply x links) := by
  induction links generalizing before x place with
  | nil => rfl
  | cons link links ih =>
    obtain ⟨s, y⟩ := link
    have hy : (before ++ y :: links.map Prod.snd)[place + 1]? = some y := by simp [← hplace]
    simp only [List.map_cons, secondPass, addUp]
    cases (Operator.ofText? s).filter (!·.isHigh) with
    | none => rfl
    | some o =>
      simp only [hy, Option.bind_eq_bind, Option.bind_some]
      cases apply o x y with
      | error fault => rfl
      | ok z =>
        have hnext := ih (before ++ [y]) z (by simp [hplace] : (before ++ [y]).length = place + 1 + 1)
        rw [List.append_assoc, List.singleton_append] at hnext
        exact hnext

/-! ## Both passes -/

/-- On any two lists no look-up fails, and the loops compute what the recursions do. -/
theorem reduceLists_eq (numbers : List ν) (operators : List String) :
    reduceLists apply numbers operators
      = some (match Chain.ofLists? numbers operators with
        | none => .error (.format .unbalanced)
        | some c => reduceChain apply c) := by
  cases numbers with
  | nil => simp [reduceLists, Chain.ofLists?]
  | cons x xs =>
    by_cases hlen : xs.length = operators.length
    · have hzip : (⟨x :: xs, operators, 0⟩ : Lists ν) = .between [] x (operators.zip xs) := by
        simp [Lists.between, List.map_fst_zip (Nat.le_of_eq hlen.symm),
          List.map_snd_zip (Nat.le_of_eq hlen)]
      rw [reduceLists, if_neg (by simp [hlen]), hzip, firstPass_between, Chain.ofLists?,
        if_pos hlen]
      simp only [reduceChain]
      cases multiplyOut apply x (operators.zip xs) with
      | error fault => rfl
      | ok c => exact secondPass_eq apply [c.first] c.first c.links rfl
    · rw [reduceLists, if_pos (.inr (by simpa using hlen)), Chain.ofLists?, if_neg hlen]

/-- The reduction of numbers is the loops, with the last number rounded. -/
theorem reduceLists_applyOperator (numbers : List Number) (operators : List String) :
    (reduceLists applyOperator numbers operators).map (· >>= DoubleOperation.rounded)
      = some (reduce numbers operators) := by
  rw [reduceLists_eq, reduce]
  cases Chain.ofLists? numbers operators with
  | none => rfl
  | some c => rfl

end InfixArithmetic.IndexedReduction
