/-
  InfixArithmetic.Value

  Everything that can be offered as an operand, whether an operation accepts it or
  not, and how such a value is shown in a message.
-/

import InfixArithmetic.Decimal.Layout
import InfixArithmetic.Number
import InfixArithmetic.Text.Display

namespace InfixArithmetic

/-- An operand of any type. -/
inductive Value where
  | none
  | bool (b : Bool)
  | int (i : Int)
  | double (x : Binary64)
  | text (s : String)
  | list (vs : List Value)
  | record (fields : List (String × Value))

namespace Value

instance : Inhabited Value := ⟨none⟩

/-- The number that a value is, if it is one. -/
def number? : Value → Option Number
  | int i => some (.int i)
  | double x => some (.double x)
  | _ => Option.none

/-! ## Equality -/

mutual

/-- Whether two values are the same. -/
def same : Value → Value → Bool
  | none, none => true
  | bool a, bool b => a == b
  | int i, int j => i == j
  | double x, double y => decide (x = y)
  | text s, text t => s == t
  | list vs, list ws => sameList vs ws
  | record fs, record gs => sameFields fs gs
  | _, _ => false

/-- Whether two lists hold the same values. -/
def sameList : List Value → List Value → Bool
  | [], [] => true
  | v :: vs, w :: ws => same v w && sameList vs ws
  | _, _ => false

/-- Whether two records have the same fields in the same order. -/
def sameFields : List (String × Value) → List (String × Value) → Bool
  | [], [] => true
  | f :: fs, g :: gs => sameField f g && sameFields fs gs
  | _, _ => false

/-- Whether two fields have the same name and the same value. -/
def sameField : String × Value → String × Value → Bool
  | (s, v), (t, w) => s == t && same v w

end

mutual

theorem same_iff : ∀ v w : Value, same v w = true ↔ v = w
  | none, w | bool _, w | int _, w | double _, w | text _, w => by
    cases w <;> simp [same]
  | list vs, w => by
    cases w <;> simp [same, sameList_iff vs]
  | record fs, w => by
    cases w <;> simp [same, sameFields_iff fs]

theorem sameList_iff : ∀ vs ws : List Value, sameList vs ws = true ↔ vs = ws
  | [], ws => by cases ws <;> simp [sameList]
  | v :: vs, ws => by
    cases ws <;> simp [sameList, same_iff v, sameList_iff vs]

theorem sameFields_iff :
    ∀ fs gs : List (String × Value), sameFields fs gs = true ↔ fs = gs
  | [], gs => by cases gs <;> simp [sameFields]
  | f :: fs, gs => by
    cases gs <;> simp [sameFields, sameField_iff f, sameFields_iff fs]

theorem sameField_iff : ∀ f g : String × Value, sameField f g = true ↔ f = g
  | (s, v), (t, w) => by simp [sameField, same_iff v w]

end

instance : DecidableEq Value := fun v w => decidable_of_iff _ (same_iff v w)

/-! ## In messages -/

mutual

/-- A value as it is shown in a message. -/
def shown : Value → String
  | none => "None"
  | bool b => if b then "True" else "False"
  | int i => Text.integer i
  | double x => Layout.displayed.render x
  | text s => Text.quoted s
  | list vs => "[" ++ ", ".intercalate (shownList vs) ++ "]"
  | record fields => "\x7b" ++ ", ".intercalate (shownFields fields) ++ "\x7d"

/-- The elements of a list, each shown. -/
def shownList : List Value → List String
  | [] => []
  | v :: vs => v.shown :: shownList vs

/-- The fields of a record, each with its name. -/
def shownFields : List (String × Value) → List String
  | [] => []
  | field :: fields => shownField field :: shownFields fields

/-- One field of a record. -/
def shownField : String × Value → String
  | (name, v) => Text.quoted name ++ ": " ++ v.shown

end

end Value

end InfixArithmetic
