/-
  InfixArithmetic.Table.Csv.Record

  The records of a comma-separated text, which is given as bytes, and the text that
  records are written as.

  A record ends outside quotes at a line feed, at a carriage return, or at both of
  them in this order, and its fields are kept as they are written. A field that
  starts with a double quote goes on to the next one that is not doubled, and may
  hold commas and line ends; what follows its closing quote is appended to it.

  Blank lines are skipped. A carriage return that ends one takes a comma after it
  along. If the next line that is not blank starts with spaces, reading goes back
  to the last line feed or the end of the last record: the blank lines since then
  that carriage returns have ended are records after all.

  The fields that hold a comma, a double quote or a line feed are quoted when they
  are written, and every double quote in them is doubled.
-/

namespace InfixArithmetic.Csv

def lineFeed : UInt8 := 0x0A

def carriageReturn : UInt8 := 0x0D

def comma : UInt8 := 0x2C

def quote : UInt8 := 0x22

/-- True of the space and the tab. -/
def isSpace (b : UInt8) : Bool := b == 0x20 || b == 0x09

/-! ## Blank lines -/

/-- Where a byte stands between two records. -/
inductive Margin where
  | lineStart
  /-- After spaces at the start of a line. -/
  | indented
  /-- Just after the carriage return of a blank line. -/
  | afterReturn
deriving DecidableEq, Repr

/-- Where a record starts, and how many blank lines come before it. -/
structure Opening where
  passed : Nat
  text : List UInt8
deriving DecidableEq, Repr

/-- Looks for the next record. `passed` blank lines lie behind, and `kept` is what
    reading may go back over, the last byte first. -/
def opening? (passed : Nat) (kept : List UInt8) : Margin → List UInt8 → Option Opening
  | _, [] => none
  | place, b :: bs =>
    if b = lineFeed then
      -- The line feed after a carriage return ends no line of its own.
      opening? (if place = .afterReturn then passed else passed + 1) [] .lineStart bs
    else if b = carriageReturn then opening? (passed + 1) (b :: kept) .afterReturn bs
    else if b = comma ∧ place = .afterReturn then
      opening? passed (b :: kept) .lineStart bs
    else if isSpace b then opening? passed (b :: kept) .indented bs
    else if place = .indented then some ⟨passed, kept.reverse ++ b :: bs⟩
    else some ⟨passed, b :: bs⟩

/-- A record starts with some byte, at the earliest where reading may go back to. -/
theorem opening?_text {passed : Nat} {kept : List UInt8} {place : Margin}
    {bs : List UInt8} {o : Opening} (h : opening? passed kept place bs = some o) :
    o.text ≠ [] ∧ o.text.length ≤ kept.length + bs.length := by
  induction bs generalizing passed kept place with
  | nil => simp [opening?] at h
  | cons b bs ih =>
    simp only [opening?] at h
    split at h
    · obtain ⟨hne, hle⟩ := ih h
      refine ⟨hne, ?_⟩
      simp only [List.length_nil, List.length_cons] at hle ⊢
      omega
    · split at h
      · obtain ⟨hne, hle⟩ := ih h
        refine ⟨hne, ?_⟩
        simp only [List.length_cons] at hle ⊢
        omega
      · split at h
        · obtain ⟨hne, hle⟩ := ih h
          refine ⟨hne, ?_⟩
          simp only [List.length_cons] at hle ⊢
          omega
        · split at h
          · obtain ⟨hne, hle⟩ := ih h
            refine ⟨hne, ?_⟩
            simp only [List.length_cons] at hle ⊢
            omega
          · split at h <;> cases h <;> simp

/-! ## Fields -/

/-- Where a byte stands in a record. -/
inductive Place where
  | fieldStart
  /-- In a field, outside quotes. -/
  | unquoted
  /-- In quotes. -/
  | quoted
  /-- Just after a double quote in quotes. -/
  | quoteSeen
deriving DecidableEq, Repr

/-- Fields, and what follows the record they belong to. -/
structure Taken where
  fields : List (List UInt8)
  rest : List UInt8
deriving DecidableEq, Repr

/-- A byte put before the first field. -/
def Taken.push (b : UInt8) (t : Taken) : Taken :=
  match t.fields with
  | [] => ⟨[[b]], t.rest⟩
  | f :: fs => ⟨(b :: f) :: fs, t.rest⟩

/-- An empty field put before the others. -/
def Taken.endField (t : Taken) : Taken := ⟨[] :: t.fields, t.rest⟩

/-- What follows a carriage return and the line feed that may belong to it. -/
def afterReturn : List UInt8 → List UInt8
  | [] => []
  | b :: bs => if b = lineFeed then bs else b :: bs

/-- The fields of a record from a place in one of them on. There are none if quotes
    are not closed. -/
def takeRecord : Place → List UInt8 → Option Taken
  | .quoted, [] => none
  | _, [] => some ⟨[[]], []⟩
  | .quoted, b :: bs =>
    if b = quote then takeRecord .quoteSeen bs
    else (takeRecord .quoted bs).map (Taken.push b)
  | place, b :: bs =>
    if b = comma then (takeRecord .fieldStart bs).map Taken.endField
    else if b = lineFeed then some ⟨[[]], bs⟩
    else if b = carriageReturn then some ⟨[[]], afterReturn bs⟩
    else if b = quote ∧ place = .fieldStart then takeRecord .quoted bs
    else if b = quote ∧ place = .quoteSeen then
      -- A doubled quote stands for one, and the quotes are open again.
      (takeRecord .quoted bs).map (Taken.push b)
    else (takeRecord .unquoted bs).map (Taken.push b)

@[simp] theorem rest_push (b : UInt8) (t : Taken) : (t.push b).rest = t.rest := by
  unfold Taken.push
  split <;> rfl

@[simp] theorem rest_endField (t : Taken) : t.endField.rest = t.rest := rfl

theorem length_afterReturn_le (bs : List UInt8) : (afterReturn bs).length ≤ bs.length := by
  cases bs with
  | nil => exact Nat.le_refl _
  | cons b bs =>
    simp only [afterReturn]
    split
    · exact Nat.le_succ _
    · exact Nat.le_refl _

/-- A record takes at least one byte, if there is one. -/
theorem length_rest_takeRecord {place : Place} {bs : List UInt8} {t : Taken}
    (h : takeRecord place bs = some t) : t.rest.length ≤ bs.length - 1 := by
  fun_induction takeRecord place bs generalizing t with
  | case1 => simp at h
  | case2 =>
    cases h
    exact Nat.le_refl _
  | case3 bs ih | case8 _ b bs _ _ _ _ _ ih =>
    have := ih h
    simp only [List.length_cons]
    omega
  | case4 b bs _ ih | case9 _ b bs _ _ _ _ _ _ ih | case10 _ b bs _ _ _ _ _ _ ih =>
    obtain ⟨u, hu, rfl⟩ := Option.map_eq_some_iff.1 h
    have := ih hu
    simp only [rest_push, List.length_cons]
    omega
  | case5 _ bs _ ih =>
    obtain ⟨u, hu, rfl⟩ := Option.map_eq_some_iff.1 h
    have := ih hu
    simp only [rest_endField, List.length_cons]
    omega
  | case6 =>
    cases h
    simp
  | case7 _ bs =>
    cases h
    simpa using length_afterReturn_le bs

/-! ## Records -/

/-- One record, and the number of the line it ends on. Line ends inside quotes are
    not counted. -/
structure Record where
  line : Nat
  fields : List (List UInt8)
deriving DecidableEq, Repr

/-- The records after `line` lines, and the number of lines before a record whose
    quotes are never closed, if the text ends in one. -/
def recordsFrom (line : Nat) (bs : List UInt8) : List Record × Option Nat :=
  match _hopening : opening? 0 [] .lineStart bs with
  | none => ([], none)
  | some o =>
    match _htaken : takeRecord .fieldStart o.text with
    | none => ([], some (line + o.passed))
    | some t =>
      let next := line + o.passed + 1
      let (records, unclosed) := recordsFrom next t.rest
      (⟨next, t.fields⟩ :: records, unclosed)
termination_by bs.length
decreasing_by
  obtain ⟨hne, hle⟩ := opening?_text _hopening
  have hrest := length_rest_takeRecord _htaken
  have := List.length_pos_iff.2 hne
  simp only [List.length_nil] at hle
  omega

/-- The records of a text. -/
def records (bs : List UInt8) : List Record × Option Nat := recordsFrom 0 bs

/-! ## Writing -/

/-- True of the bytes for which a field has to be quoted. -/
def needsQuotes (b : UInt8) : Bool := b == comma || b == quote || b == lineFeed

/-- A text with every double quote doubled. -/
def doubleQuotes : List UInt8 → List UInt8
  | [] => []
  | b :: bs => if b = quote then quote :: quote :: doubleQuotes bs else b :: doubleQuotes bs

/-- A field as it is written. -/
def writeField (field : List UInt8) : List UInt8 :=
  if field.any needsQuotes then quote :: doubleQuotes field ++ [quote] else field

/-- A record as it is written. -/
def writeRecord (fields : List (List UInt8)) : List UInt8 :=
  [comma].intercalate (fields.map writeField) ++ [lineFeed]

/-- Records as they are written. -/
def write (rows : List (List (List UInt8))) : List UInt8 := rows.flatMap writeRecord

end InfixArithmetic.Csv
