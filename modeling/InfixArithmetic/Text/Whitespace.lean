/-
  InfixArithmetic.Text.Whitespace

  Blank characters, and texts without the blanks around them or without any; line
  ends, and the lines that they divide a text into.
-/

namespace InfixArithmetic.Text

/-! ## Blanks -/

/-- True of the blank characters: the Unicode property White_Space and the four
    ASCII information separators. -/
def isBlank (c : Char) : Bool :=
  let n := c.toNat
  (0x09 ≤ n && n ≤ 0x0D) || (0x1C ≤ n && n ≤ 0x20) || n == 0x85 || n == 0xA0 ||
    n == 0x1680 || (0x2000 ≤ n && n ≤ 0x200A) || n == 0x2028 || n == 0x2029 ||
    n == 0x202F || n == 0x205F || n == 0x3000

/-- The text without the leading and trailing characters of a class. -/
def trimBy (p : Char → Bool) (cs : List Char) : List Char :=
  ((cs.dropWhile p).reverse.dropWhile p).reverse

/-- The text without leading and trailing blanks. -/
def trim (cs : List Char) : List Char := trimBy isBlank cs

/-- The text without any blank. -/
def squeeze (cs : List Char) : List Char := cs.filter (!isBlank ·)

/-- Nothing is left of a text exactly when it holds blanks only. -/
theorem squeeze_eq_nil_iff {cs : List Char} :
    squeeze cs = [] ↔ ∀ c ∈ cs, isBlank c = true := by
  simp [squeeze, List.filter_eq_nil_iff]

@[simp] theorem squeeze_append (cs ds : List Char) :
    squeeze (cs ++ ds) = squeeze cs ++ squeeze ds := by
  simp [squeeze]

/-! ## Lines -/

/-- The lines of a text, without their ends; the last one may be empty. A line ends
    at a line feed, at a carriage return, or at both of them in this order, and nowhere
    else. -/
def lines : List Char → List (List Char)
  | [] => [[]]
  | '\r' :: '\n' :: cs => [] :: lines cs
  | c :: cs =>
    if c = '\n' ∨ c = '\r' then [] :: lines cs
    else
      match lines cs with
      | [] => [[c]]
      | l :: ls => (c :: l) :: ls

/-- A text has at least one line. -/
theorem lines_ne_nil (cs : List Char) : lines cs ≠ [] := by
  fun_cases lines cs <;> simp_all

end InfixArithmetic.Text
