/-
  InfixArithmetic.Proofs.MixedNumbers

  Reductions of integers and floating-point values in one list.

  An integer stays what it is until an operator uses it, and a divisor is compared with
  zero before it is rounded.  But only zero is rounded to a zero (`Number.RoundsTo.isZero_eq`),
  so an operator does to two numbers what it does to the values they are rounded to
  (`Rounded.applyOperator_number`), and the reductions of the numbers and of these values are
  two views of one (`Rounded.apply`).  An integer that is too large stops every operator that
  uses it, and none is left out: a number that is gone after a pass was an operand
  (`multiplyOut_operands`, `addUp_operands`), and the last one is rounded at the end.
-/

import InfixArithmetic.Proofs.FallibleSteps
import InfixArithmetic.Proofs.NearestValue
import InfixArithmetic.Proofs.Precedence

namespace InfixArithmetic

/-! ## Rounded integers -/

namespace Binary64

variable {i : Int} {x : Binary64}

theorem ofRatio_eq_iff {num den : Nat} (hden : 0 < den) {negative : Bool} :
    ofRatio negative num den = x ↔ RoundsTo negative (num / den) x := by
  have hnearest := nearestOrdinal_isNearest (num * unitsPerOne) hden
  rw [Nat.cast_mul, mul_div_right_comm] at hnearest
  exact ofOrdinal_eq_iff hnearest.lt_overflow_iff_lt_overflowFrom fun _ => hnearest

theorem ofRatio_int_eq_iff :
    ofRatio (i < 0) i.natAbs 1 = x ↔ RoundsTo (i < 0) |(i : ℚ)| x := by
  rw [ofRatio_eq_iff Nat.one_pos, Nat.cast_one, div_one, Nat.cast_natAbs, Int.cast_abs]

theorem ofInt?_eq_some_iff :
    ofInt? i = some x ↔ x.isFinite = true ∧ RoundsTo (i < 0) |(i : ℚ)| x := by
  rw [← ofRatio_int_eq_iff, ofInt?, Option.ite_none_right_eq_some, Option.some.injEq]
  constructor
  · rintro ⟨hfinite, rfl⟩
    exact ⟨hfinite, rfl⟩
  · rintro ⟨hfinite, rfl⟩
    exact ⟨hfinite, rfl⟩

theorem ofInt?_eq_none_iff : ofInt? i = none ↔ overflowFrom ≤ |(i : ℚ)| := by
  have hrounds := (ofRatio_int_eq_iff (i := i)).1 rfl
  rw [← not_lt, ← hrounds.isFinite_iff, ofInt?]
  simp only [ite_eq_right_iff, reduceCtorEq, imp_false]

end Binary64

namespace Number

/-- The floating-point value that stands for a number: itself, or for an integer the finite
    value that it is rounded to. -/
def RoundsTo : Number → Binary64 → Prop
  | int i, x => x.isFinite = true ∧ Binary64.RoundsTo (i < 0) |(i : ℚ)| x
  | double y, x => y = x

/-- An integer beyond the floating-point values: from the midpoint after the greatest finite
    magnitude on. -/
def IsTooLarge : Number → Prop
  | int i => Binary64.overflowFrom ≤ |(i : ℚ)|
  | double _ => False

variable {n : Number} {x y : Binary64}

theorem toBinary64?_eq_some_iff : n.toBinary64? = some x ↔ n.RoundsTo x := by
  cases n with
  | int i => exact Binary64.ofInt?_eq_some_iff
  | double y => exact Option.some_inj

theorem RoundsTo.unique (hx : n.RoundsTo x) (hy : n.RoundsTo y) : x = y := by
  rw [← toBinary64?_eq_some_iff] at hx hy
  exact Option.some.inj (hx.symm.trans hy)

theorem exists_roundsTo_iff : (∃ x, n.RoundsTo x) ↔ ¬ n.IsTooLarge := by
  cases n with
  | int i =>
    rw [IsTooLarge, ← Binary64.ofInt?_eq_none_iff, ← ne_eq, Option.ne_none_iff_exists']
    exact exists_congr fun x => Binary64.ofInt?_eq_some_iff.symm
  | double y => exact iff_of_true ⟨y, rfl⟩ id

theorem RoundsTo.rounded_eq (h : n.RoundsTo x) : DoubleOperation.rounded n = .ok x := by
  rw [DoubleOperation.rounded, toBinary64?_eq_some_iff.2 h]

theorem roundsTo_of_rounded (h : DoubleOperation.rounded n = .ok x) : n.RoundsTo x := by
  rw [DoubleOperation.rounded] at h
  split at h
  next y hy =>
    obtain rfl := Except.ok.inj h
    exact toBinary64?_eq_some_iff.1 hy
  next => cases h

/-- Only zero is rounded to a zero: every other integer is at least one. -/
theorem RoundsTo.isZero_eq (h : n.RoundsTo x) : n.isZero = x.isZero := by
  cases n with
  | double y =>
    obtain rfl : y = x := h
    rfl
  | int i =>
    rw [Bool.eq_iff_iff, h.2.isZero_iff, isZero, beq_iff_eq]
    constructor
    · rintro rfl
      rw [Int.cast_zero, abs_zero]
      exact (zpow_pos two_pos _).le
    · intro hle
      by_contra hne
      have hone : (1 : ℚ) ≤ |(i : ℚ)| := by exact_mod_cast Int.one_le_abs hne
      have hsmall : (2 : ℚ) ^ (-1075 : Int) < 1 := zpow_lt_one_of_neg₀ one_lt_two (by decide)
      linarith

end Number

namespace MixedNumbers

open Expression (multiplyOut addUp reduceChain reduce applyOperator)
open DoubleOperation (rounded)
open FallibleSteps (bind_eq_ok map_eq_ok)
open Precedence (Arithmetic)

/-! ## Numbers and their values -/

/-- A number with the value that it is rounded to. -/
structure Rounded where
  number : Number
  value : Binary64
  rounds : number.RoundsTo value

namespace Rounded

/-- A value is rounded to itself. -/
def ofValue (x : Binary64) : Rounded := ⟨.double x, x, rfl⟩

/-- An operator on the values. -/
def apply (o : Operator) (a b : Rounded) : Except Fault Rounded :=
  (Arithmetic.binary64.apply o a.value b.value).map ofValue

theorem apply_value (o : Operator) (a b : Rounded) :
    Arithmetic.binary64.apply o a.value b.value = (apply o a b).map value := by
  rw [apply]
  cases Arithmetic.binary64.apply o a.value b.value <;> rfl

theorem apply_number (o : Operator) (a b : Rounded) :
    applyOperator o a.number b.number = (apply o a b).map number := by
  -- A division looks at its divisor before it is rounded, the others round both first.
  have hdouble : applyOperator o a.number b.number
      = applyOperator o (.double a.value) (.double b.value) := by
    have ha := a.rounds.rounded_eq
    have hb := b.rounds.rounded_eq
    have hzero := b.rounds.isZero_eq
    cases o with
    | add =>
      show Number.double <$> DoubleOperation.add a.number b.number = _
      rw [DoubleOperation.add, ha, hb]
      rfl
    | subtract =>
      show Number.double <$> DoubleOperation.subtract a.number b.number = _
      rw [DoubleOperation.subtract, ha, hb]
      rfl
    | multiply =>
      show Number.double <$> DoubleOperation.multiply a.number b.number = _
      rw [DoubleOperation.multiply, ha, hb]
      rfl
    | divide =>
      show Number.double <$> DoubleOperation.divide a.number b.number = _
      rw [DoubleOperation.divide, hzero, ha, hb]
      rfl
  rw [hdouble, Precedence.applyOperator_double, apply]
  cases Arithmetic.binary64.apply o a.value b.value <;> rfl

end Rounded

/-- Numbers and the values that they are rounded to, in one list. -/
theorem exists_rounded_list {numbers : List Number} {xs : List Binary64}
    (h : List.Forall₂ Number.RoundsTo numbers xs) :
    ∃ rs : List Rounded, rs.map Rounded.number = numbers ∧ rs.map Rounded.value = xs := by
  induction h with
  | nil => exact ⟨[], rfl, rfl⟩
  | @cons n x _ _ hrounds _ ih =>
    obtain ⟨rs, rfl, rfl⟩ := ih
    exact ⟨⟨n, x, hrounds⟩ :: rs, rfl, rfl⟩

/-- The reductions of the numbers and of their values are views of the same one. -/
theorem reduce_rounded (rs : List Rounded) (ss : List String) :
    reduce (rs.map Rounded.number) ss = reduce ((rs.map Rounded.value).map .double) ss := by
  cases hchain : Chain.ofLists? rs ss with
  | none =>
    have hnone {ν : Type} (f : Rounded → ν) : Chain.ofLists? (rs.map f) ss = none := by
      rw [Chain.ofLists?_eq_none_iff] at hchain ⊢
      simpa using hchain
    rw [List.map_map, reduce, reduce, hnone, hnone]
  | some c =>
    obtain ⟨rfl, rfl⟩ := Chain.ofLists?_eq_some_iff.1 hchain
    have hnumbers : Chain.ofLists? (c.numbers.map Rounded.number) c.operators
        = some (c.map id Rounded.number) := by
      simp [Chain.ofLists?_eq_some_iff]
    have hvalues := Precedence.reduce_double (c.map id Rounded.value)
    rw [Precedence.reduceChain_map Rounded.apply_value, Chain.numbers_map, Chain.operators_map,
      List.map_id] at hvalues
    rw [hvalues, reduce, hnumbers]
    simp only [Precedence.reduceChain_map Rounded.apply_number]
    cases reduceChain Rounded.apply c with
    | error fault => rfl
    | ok r => exact r.rounds.rounded_eq

/-! ## Operands -/

section Operands

variable {ν : Type} {apply : Operator → ν → ν → Except Fault ν} {P : ν → Prop}
  (h : ∀ o x y z, apply o x y = .ok z → P x ∧ P y)

include h

/-- A number that the first pass does not leave was an operand. -/
theorem multiplyOut_operands {x : ν} {links : List (String × ν)} {c : Chain String ν}
    (hc : multiplyOut apply x links = .ok c) (hleft : ∀ y ∈ c.numbers, P y) :
    ∀ y ∈ x :: links.map Prod.snd, P y := by
  induction links generalizing x c with
  | nil =>
    obtain rfl := Except.ok.inj hc
    exact hleft
  | cons link links ih =>
    obtain ⟨s, y⟩ := link
    rw [multiplyOut] at hc
    rw [List.map_cons]
    cases hs : (Operator.ofText? s).filter Operator.isHigh with
    | none =>
      rw [hs] at hc
      obtain ⟨d, hd, hcons⟩ := bind_eq_ok hc
      obtain rfl := Except.ok.inj hcons
      obtain ⟨hx, hrest⟩ := List.forall_mem_cons.1 hleft
      exact List.forall_mem_cons.2 ⟨hx, ih hd hrest⟩
    | some o =>
      rw [hs] at hc
      obtain ⟨z, hz, hrest⟩ := bind_eq_ok hc
      -- The result is put in the place of the two operands, so nothing is known of it.
      obtain ⟨hx, hy⟩ := h o x y z hz
      obtain ⟨-, hlinks⟩ := List.forall_mem_cons.1 (ih hrest hleft)
      exact List.forall_mem_cons.2 ⟨hx, List.forall_mem_cons.2 ⟨hy, hlinks⟩⟩

/-- The second pass leaves one number only. -/
theorem addUp_operands {x : ν} {links : List (String × ν)} {z : ν}
    (hz : addUp apply x links = .ok z) (hleft : P z) : ∀ y ∈ x :: links.map Prod.snd, P y := by
  induction links generalizing x with
  | nil =>
    obtain rfl := Except.ok.inj hz
    simpa using hleft
  | cons link links ih =>
    obtain ⟨s, y⟩ := link
    rw [addUp] at hz
    rw [List.map_cons]
    cases hs : (Operator.ofText? s).filter (!·.isHigh) with
    | none =>
      rw [hs] at hz
      cases hz
    | some o =>
      rw [hs] at hz
      obtain ⟨w, hw, hrest⟩ := bind_eq_ok hz
      obtain ⟨hx, hy⟩ := h o x y w hw
      obtain ⟨-, hlinks⟩ := List.forall_mem_cons.1 (ih hrest)
      exact List.forall_mem_cons.2 ⟨hx, List.forall_mem_cons.2 ⟨hy, hlinks⟩⟩

theorem reduceChain_operands {c : Chain String ν} {z : ν} (hz : reduceChain apply c = .ok z)
    (hleft : P z) : ∀ y ∈ c.numbers, P y := by
  obtain ⟨sums, hsums, hsum⟩ := bind_eq_ok hz
  exact multiplyOut_operands h hsums (addUp_operands h hsum hleft)

end Operands

/-- An operation on two rounded numbers has rounded both. -/
theorem roundsTo_of_both {a b : Number} {f : Binary64 → Binary64 → Binary64} {x : Binary64}
    (h : (do return f (← rounded a) (← rounded b)) = Except.ok x) :
    (∃ y, a.RoundsTo y) ∧ ∃ y, b.RoundsTo y := by
  obtain ⟨y, hy, h⟩ := bind_eq_ok h
  obtain ⟨z, hz, -⟩ := bind_eq_ok h
  exact ⟨⟨y, Number.roundsTo_of_rounded hy⟩, z, Number.roundsTo_of_rounded hz⟩

theorem roundsTo_of_applyOperator (o : Operator) (a b c : Number)
    (h : applyOperator o a b = .ok c) : (∃ x, a.RoundsTo x) ∧ ∃ y, b.RoundsTo y := by
  obtain ⟨x, hx, -⟩ := map_eq_ok h
  cases o with
  | add | subtract | multiply => exact roundsTo_of_both hx
  | divide =>
    replace hx : DoubleOperation.divide a b = .ok x := hx
    rw [DoubleOperation.divide] at hx
    split at hx
    next => cases hx
    next => exact roundsTo_of_both hx

/-- A reduction with a value has rounded all its numbers. -/
theorem roundsTo_of_reduce {numbers : List Number} {ss : List String} {x : Binary64}
    (h : reduce numbers ss = .ok x) : ∀ n ∈ numbers, ∃ y, n.RoundsTo y := by
  rw [reduce] at h
  split at h
  next => cases h
  next c hc =>
    obtain ⟨rfl, rfl⟩ := Chain.ofLists?_eq_some_iff.1 hc
    obtain ⟨z, hz, hlast⟩ := bind_eq_ok h
    exact reduceChain_operands roundsTo_of_applyOperator hz
      ⟨x, Number.roundsTo_of_rounded hlast⟩

/-! ## Reductions -/

theorem exists_values {numbers : List Number} (h : ∀ n ∈ numbers, ¬ n.IsTooLarge) :
    ∃ xs, List.Forall₂ Number.RoundsTo numbers xs := by
  induction numbers with
  | nil => exact ⟨[], .nil⟩
  | cons n numbers ih =>
    obtain ⟨hn, hrest⟩ := List.forall_mem_cons.1 h
    obtain ⟨x, hx⟩ := Number.exists_roundsTo_iff.2 hn
    obtain ⟨xs, hxs⟩ := ih hrest
    exact ⟨x :: xs, .cons hx hxs⟩

/-- Numbers of any kind with any texts between them.  If no integer is too large, each
    number is rounded to one value, and the reduction of the numbers has the outcome that
    the reduction of these values has.  If one is, the reduction of the numbers has no
    value. -/
theorem reduce_rounds_integers (numbers : List Number) (ss : List String) :
    ((∀ n ∈ numbers, ¬ n.IsTooLarge) →
      ∃ xs, List.Forall₂ Number.RoundsTo numbers xs ∧
        (∀ ys, List.Forall₂ Number.RoundsTo numbers ys → ys = xs) ∧
        reduce numbers ss = reduce (xs.map .double) ss) ∧
    ((∃ n ∈ numbers, n.IsTooLarge) → ∀ x, reduce numbers ss ≠ .ok x) := by
  constructor
  · intro hsmall
    obtain ⟨xs, hxs⟩ := exists_values hsmall
    obtain ⟨rs, hnumbers, hvalues⟩ := exists_rounded_list hxs
    have hunique : Relator.RightUnique Number.RoundsTo := fun _ _ _ => Number.RoundsTo.unique
    refine ⟨xs, hxs, fun ys hys => hunique.forall₂ hys hxs, ?_⟩
    rw [← hnumbers, ← hvalues, reduce_rounded]
  · rintro ⟨n, hn, hlarge⟩ x hx
    exact Number.exists_roundsTo_iff.1 (roundsTo_of_reduce hx n hn) hlarge

/-- An integer half way between two values, and the least one that is too large. -/
theorem reduce_rounds_integers_midpoints :
    (∀ n ∈ [Number.int 9007199254740993, .int 0, .double .one], ¬ n.IsTooLarge) ∧
    (∃ xs, List.Forall₂ Number.RoundsTo [.int 9007199254740993, .int 0, .double .one] xs ∧
      reduce [.int 9007199254740993, .int 0, .double .one] ["*", "-"]
        = reduce (xs.map .double) ["*", "-"]) ∧
    (∃ n ∈ [Number.double .one, .int (2 ^ 1024 - 2 ^ 970)], n.IsTooLarge) ∧
    ∀ x, reduce [.double .one, .int (2 ^ 1024 - 2 ^ 970)] ["*"] ≠ .ok x := by
  have hsmall : ∀ n ∈ [Number.int 9007199254740993, .int 0, .double .one],
      ¬ n.IsTooLarge := by
    have hpow : (2 : ℚ) ^ 1024 = 2 ^ 970 * 2 ^ 54 := by rw [← pow_add]
    have hone : (1 : ℚ) ≤ 2 ^ 970 := one_le_pow₀ one_le_two
    simp only [List.forall_mem_cons, List.not_mem_nil, false_imp_iff, implies_true, and_true,
      Number.IsTooLarge, Binary64.overflowFrom, hpow, not_le, not_false_eq_true]
    generalize (2 : ℚ) ^ 970 = p at hone
    norm_num
    constructor <;> linarith
  have hlarge : ∃ n ∈ [Number.double .one, .int (2 ^ 1024 - 2 ^ 970)], n.IsTooLarge := by
    refine ⟨_, List.mem_cons_of_mem _ List.mem_cons_self, ?_⟩
    rw [Number.IsTooLarge, Int.cast_sub, Int.cast_pow, Int.cast_pow, Int.cast_ofNat]
    exact le_abs_self _
  obtain ⟨xs, hxs, -, hreduce⟩ := (reduce_rounds_integers _ ["*", "-"]).1 hsmall
  exact ⟨hsmall, ⟨xs, hxs, hreduce⟩, hlarge, (reduce_rounds_integers _ ["*"]).2 hlarge⟩

end MixedNumbers

end InfixArithmetic
