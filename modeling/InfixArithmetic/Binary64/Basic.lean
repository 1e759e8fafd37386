/-
  InfixArithmetic.Binary64.Basic

  The values of the 64-bit binary floating-point format: one value for every NaN,
  the two infinities, and the finite values.

  A finite value is a sign and an ordinal. The finite magnitudes, in increasing
  order, are numbered from zero, and the number of a magnitude is its bit pattern
  without the sign bit. So every value has one representation, the order of
  magnitudes is the order of ordinals, and the ordinal after the last finite one
  is the bit pattern of infinity.
-/

namespace InfixArithmetic

/-- The ordinal at which the magnitudes overflow: exponent field all ones,
    fraction field zero. -/
abbrev Binary64.overflow : Nat := 0x7FF0000000000000

/-- A 64-bit floating-point value, with all NaNs made one. -/
inductive Binary64 where
  | nan
  | infinite (negative : Bool)
  | finite (negative : Bool) (ordinal : Fin Binary64.overflow)
deriving DecidableEq, Repr

namespace Binary64

-- The powers are the core ones, whatever algebra is in scope.
attribute [local instance (high)] instPowNat

instance : Inhabited Binary64 := ⟨nan⟩

/-- Positive zero. -/
def zero : Binary64 := finite false 0

/-- One: exponent field 1023, fraction field zero. -/
def one : Binary64 := finite false 0x3FF0000000000000

/-- The value with the given sign and ordinal, infinite from `overflow` on. -/
def ofOrdinal (negative : Bool) (ordinal : Nat) : Binary64 :=
  if h : ordinal < overflow then finite negative ⟨ordinal, h⟩ else infinite negative

/-! ## Sign -/

/-- The value with the opposite sign; a NaN is kept. -/
def neg : Binary64 → Binary64
  | nan => nan
  | infinite s => infinite (!s)
  | finite s n => finite (!s) n

/-- The value without its sign. -/
def abs : Binary64 → Binary64
  | nan => nan
  | infinite _ => infinite false
  | finite _ n => finite false n

/-- True of negative infinity and of the finite values written with a sign,
    negative zero among them. -/
def isNegative : Binary64 → Bool
  | nan => false
  | infinite s => s
  | finite s _ => s

@[simp] theorem neg_neg (x : Binary64) : x.neg.neg = x := by
  cases x <;> simp [neg]

/-! ## Classes -/

def isNaN : Binary64 → Bool
  | nan => true
  | _ => false

def isFinite : Binary64 → Bool
  | finite _ _ => true
  | _ => false

/-- True of both zeros. -/
def isZero : Binary64 → Bool
  | finite _ n => n.val == 0
  | _ => false

/-! ## Order -/

/-- The place of a value among all values that are not NaN; the two zeros share
    one. -/
def rank? : Binary64 → Option Int
  | nan => none
  | infinite s => some (if s then -overflow else overflow)
  | finite s n => some (if s then -n.val else n.val)

/-- Strict comparison of numbers; false when one side is NaN. -/
def lt (x y : Binary64) : Bool :=
  match x.rank?, y.rank? with
  | some a, some b => a < b
  | _, _ => false

/-- Comparison of numbers; false when one side is NaN. -/
def le (x y : Binary64) : Bool :=
  match x.rank?, y.rank? with
  | some a, some b => a ≤ b
  | _, _ => false

/-- Equality of numbers: the two zeros are equal, a NaN equals nothing. -/
def eq (x y : Binary64) : Bool :=
  match x.rank?, y.rank? with
  | some a, some b => a == b
  | _, _ => false

/-! ## Bit patterns -/

/-- The value with the given 64-bit pattern. -/
def ofBits (bits : Nat) : Binary64 :=
  let negative := bits / 2 ^ (63 : Nat) % 2 == 1
  let ordinal := bits % 2 ^ (63 : Nat)
  if overflow < ordinal then nan else ofOrdinal negative ordinal

/-- The 64-bit pattern of a value that is not NaN. -/
def toBits? : Binary64 → Option Nat
  | nan => none
  | infinite s => some ((if s then 2 ^ (63 : Nat) else 0) + overflow)
  | finite s n => some ((if s then 2 ^ (63 : Nat) else 0) + n.val)

end Binary64

end InfixArithmetic
