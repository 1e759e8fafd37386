/-
  InfixArithmetic.Text.DecimalDigit

  The decimal digits of all scripts (Unicode general category Nd) and their
  values. Every script has its ten digits in a row, from zero to nine, so the
  zeros determine the rest.
-/

namespace InfixArithmetic.Text

/-- The code point of the digit zero of every script, in increasing order. -/
def zeroDigits : List Nat :=
  [0x0030, 0x0660, 0x06F0, 0x07C0, 0x0966, 0x09E6, 0x0A66, 0x0AE6,
   0x0B66, 0x0BE6, 0x0C66, 0x0CE6, 0x0D66, 0x0DE6, 0x0E50, 0x0ED0,
   0x0F20, 0x1040, 0x1090, 0x17E0, 0x1810, 0x1946, 0x19D0, 0x1A80,
   0x1A90, 0x1B50, 0x1BB0, 0x1C40, 0x1C50, 0xA620, 0xA8D0, 0xA900,
   0xA9D0, 0xA9F0, 0xAA50, 0xABF0, 0xFF10, 0x104A0, 0x10D30, 0x11066,
   0x110F0, 0x11136, 0x111D0, 0x112F0, 0x11450, 0x114D0, 0x11650, 0x116C0,
   0x11730, 0x118E0, 0x11950, 0x11C50, 0x11D50, 0x11DA0, 0x16A60, 0x16AC0,
   0x16B50, 0x1D7CE, 0x1D7D8, 0x1D7E2, 0x1D7EC, 0x1D7F6, 0x1E140, 0x1E2F0,
   0x1E950, 0x1FBF0]

/-- The value of a decimal digit of any script. -/
def digitValue? (c : Char) : Option Nat :=
  (zeroDigits.find? fun first => first ≤ c.toNat && c.toNat < first + 10).map (c.toNat - ·)

/-- The ASCII digits have their usual values. -/
theorem digitValue?_ascii {c : Char} (h : '0' ≤ c ∧ c ≤ '9') :
    digitValue? c = some (c.toNat - 48) := by
  have hlo : 48 ≤ c.toNat := h.1
  have hhi : c.toNat ≤ 57 := h.2
  simp only [digitValue?, zeroDigits]
  rw [List.find?_cons_of_pos]
  · rfl
  · simp only [Bool.and_eq_true, decide_eq_true_eq]
    omega

/-- A decimal digit is an ASCII digit or comes after the Latin letters. -/
theorem isDigit_or_le_of_digitValue? {c : Char} (h : (digitValue? c).isSome = true) :
    48 ≤ c.toNat ∧ c.toNat ≤ 57 ∨ 0x660 ≤ c.toNat := by
  rw [digitValue?, Option.isSome_map, List.find?_isSome] at h
  obtain ⟨first, hfirst, hrange⟩ := h
  have hall : ∀ n ∈ zeroDigits, n = 48 ∨ 0x660 ≤ n := by decide
  simp only [Bool.and_eq_true, decide_eq_true_eq] at hrange
  rcases hall first hfirst with rfl | hle
  · exact .inl ⟨hrange.1, by omega⟩
  · exact .inr (by omega)

/-- Lowering the case leaves digits alone. -/
theorem toLower_of_digitValue? {c : Char} (h : (digitValue? c).isSome = true) :
    c.toLower = c := by
  refine dif_neg fun hupper => ?_
  have hlo : 65 ≤ c.toNat := hupper.1
  have hhi : c.toNat ≤ 90 := hupper.2
  rcases isDigit_or_le_of_digitValue? h with hascii | hbeyond <;> omega

end InfixArithmetic.Text
