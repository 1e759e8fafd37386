/-
  InfixArithmetic.Binary64.Power

  One floating-point value raised to the power of another.

  A finite positive base is written as an odd number times a power of two, and the
  exponent as a fraction whose denominator is a power of two. Square roots that
  come out exact are taken first. What is left is either computed exactly, in all
  cases in which the result could be a magnitude or a midpoint of two, or through
  the binary logarithm with 256 places, which decides every result that is not
  within 2^-190 of a midpoint.
-/

import InfixArithmetic.Binary64.Arithmetic

namespace InfixArithmetic.Binary64

open Exact (floorRoot)

-- The powers are the core ones, whatever algebra is in scope.
attribute [local instance (high)] instPowNat

/-! ## Dyadic numbers -/

/-- The positive number `odd * 2 ^ twos`. -/
structure Dyadic where
  odd : Nat
  twos : Int

/-- Moves every factor two of `n` into the exponent. -/
def Dyadic.normalize (n : Nat) (twos : Int) : Dyadic :=
  if n % 2 = 0 ∧ n ≠ 0 then normalize (n / 2) (twos + 1) else ⟨n, twos⟩
termination_by n

/-- A magnitude in units as a dyadic number. -/
def Dyadic.ofUnits (magnitude : Nat) : Dyadic := normalize magnitude (-1074)

/-- Takes up to `k` square roots as long as they are exact; also tells how many
    are left. -/
def Dyadic.takeRoots : Nat → Dyadic → Nat × Dyadic
  | 0, x => (0, x)
  | k + 1, x =>
    let root := floorRoot x.odd
    if root * root = x.odd ∧ x.twos % 2 = 0 then takeRoots k ⟨root, x.twos / 2⟩
    else (k + 1, x)

/-- The ordinal nearest to `num / den * 2 ^ twos`. A scale far outside the range
    of the format is not computed. -/
def nearestScaled (num den : Nat) (twos : Int) : Nat :=
  let scale : Int := (Nat.log2 num : Int) - Nat.log2 den + twos
  if 1026 < scale then overflow
  else if scale < -1080 then 0
  else if 0 ≤ twos + 1074 then nearestOrdinal (num * 2 ^ (twos + 1074).toNat) den
  else nearestOrdinal num (den * 2 ^ (-(twos + 1074)).toNat)

/-! ## Logarithm and exponential to base two -/

/-- The number of binary places of the logarithm. -/
abbrev places : Nat := 256

/-- The first `steps` binary places of the logarithm of `f / 2 ^ places`, a number
    from one to below two. Squaring doubles the logarithm, and a square of two or
    more tells that the next place is a one. -/
def logPlaces : Nat → Nat → Nat
  | 0, _ => 0
  | steps + 1, f =>
    let square := f * f / 2 ^ places
    if 2 ^ (places + 1) ≤ square then 2 ^ steps + logPlaces steps (square / 2)
    else logPlaces steps square

/-- Two to the power of the fraction `0.b₁b₂…`, given as the number `bits` with
    its last place first, times `2 ^ places`. Each place is one square root. -/
def expPlaces : Nat → Nat → Nat → Nat
  | 0, _, acc => acc
  | steps + 1, bits, acc =>
    expPlaces steps (bits / 2) (floorRoot (acc * 2 ^ (bits % 2) * 2 ^ places))

/-- The binary logarithm in steps of `2 ^ -places`. -/
def Dyadic.log (x : Dyadic) : Int :=
  let whole := Nat.log2 x.odd
  (x.twos + whole) * 2 ^ places
    + logPlaces places (x.odd * 2 ^ places / 2 ^ whole)

/-- The ordinal nearest to two to the power of `t * 2 ^ -places`. -/
def nearestExp (t : Int) : Nat :=
  let whole := t / 2 ^ places
  let fraction := (t % 2 ^ places).toNat
  nearestScaled (expPlaces places fraction (2 ^ places)) 1 (whole - places)

/-! ## The power -/

/-- The ordinal nearest to `base ^ (± num / 2 ^ halvings)`. An odd part above one
    raised to more than the 64th power has too many digits to be a midpoint. -/
def nearestPower (base : Dyadic) (reciprocal : Bool) (num halvings : Nat) : Nat :=
  let (halvings, base) := base.takeRoots halvings
  let sign : Int := if reciprocal then -1 else 1
  if halvings = 0 ∧ (base.odd = 1 ∨ num ≤ 64) then
    -- A power of one is not computed, since `num` may be huge then.
    let odd := if base.odd = 1 then 1 else base.odd ^ num
    if reciprocal then nearestScaled 1 odd (-(base.twos * num))
    else nearestScaled odd 1 (base.twos * num)
  else nearestExp (sign * num * base.log / 2 ^ halvings)

/-- The power of two positive magnitudes in units, the exponent's sign apart. -/
def powUnits (base : Nat) (reciprocal : Bool) (exponent : Nat) : Nat :=
  let y := Dyadic.ofUnits exponent
  nearestPower (Dyadic.ofUnits base) reciprocal (y.odd * 2 ^ y.twos.toNat) (-y.twos).toNat

/-- True of the odd integers. -/
def isOdd : Binary64 → Bool
  | finite _ n => units n % unitsPerOne = 0 && units n / unitsPerOne % 2 == 1
  | _ => false

/-- True of the integers. -/
def isInteger : Binary64 → Bool
  | finite _ n => units n % unitsPerOne = 0
  | _ => false

/-- One half. -/
def half : Binary64 := ofOrdinal false 0x3FE0000000000000

/-- `x` to the power of `y`. The power zero of anything and any power of one are
    one, and the power one half is the square root. A negative base has integer
    powers only; it keeps its sign in the odd ones. -/
def pow (x y : Binary64) : Binary64 :=
  if y.isZero then one
  else if x = one then one
  else if y = half then sqrt x
  else
    let negative := x.isNegative && y.isOdd
    match x, y with
    | nan, _ => nan
    | _, nan => nan
    | infinite _, _ => if y.isNegative then ofOrdinal negative 0 else infinite negative
    | finite _ _, infinite t =>
      if one.eq x.abs then one
      -- Either a base below one to minus infinity, or one above to plus infinity.
      else if t = (x.abs.lt one) then infinite false
      else zero
    | finite s m, finite t n =>
      if m.val = 0 then
        if t then infinite negative else ofOrdinal negative 0
      else if s && !y.isInteger then nan
      else ofOrdinal negative (powUnits (units m) t (units n))

end InfixArithmetic.Binary64
