/-
  InfixArithmetic.Proofs.DigitRuns

  Runs of ASCII digits and the numbers they are written for.

  A run is determined by its number and its length (`eq_of_ofDigitChars_eq`), and by its
  number alone if it does not start with a zero (`eq_of_startsNonzero`), because the number
  then gives the length.  A run that does not end with a zero has a number that ten does not
  divide, which is what tells the places of a fraction apart.
-/

import InfixArithmetic.Proofs.Numerals
import Mathlib.Data.List.Induction
import Mathlib.Tactic.Ring

namespace InfixArithmetic.Numeral

/-! ## Digits and places -/

theorem exists_digitChar {c : Char} (h : c.isDigit = true) : ∃ d < 10, c = Nat.digitChar d := by
  have hrange : 48 ≤ c.toNat ∧ c.toNat ≤ 57 := by
    simpa [Char.isDigit, UInt32.le_iff_toNat_le] using h
  refine ⟨c.toNat - 48, by omega, ?_⟩
  rw [← Char.toNat_inj, Nat.toNat_digitChar_of_lt_ten (by omega)]
  omega

theorem ofDigitChars_concat (cs : List Char) {d : Nat} (hd : d < 10) :
    Nat.ofDigitChars 10 (cs ++ [Nat.digitChar d]) 0 = 10 * Nat.ofDigitChars 10 cs 0 + d := by
  rw [Nat.ofDigitChars_append, Nat.ofDigitChars_cons_digitChar_of_lt_ten hd, Nat.ofDigitChars_nil]

theorem ofDigitChars_digitChar {d : Nat} (hd : d < 10) :
    Nat.ofDigitChars 10 [Nat.digitChar d] 0 = d := by
  rw [Nat.ofDigitChars_cons_digitChar_of_lt_ten hd, Nat.ofDigitChars_nil, Nat.mul_zero,
    Nat.zero_add]

/-- Digits after each other: the first ones count as many places more as there are others. -/
theorem ofDigitChars_append_eq (cs : List Char) {ds : List Char} (hds : AllDigits ds) :
    Nat.ofDigitChars 10 (cs ++ ds) 0
      = Nat.ofDigitChars 10 cs 0 * 10 ^ ds.length + Nat.ofDigitChars 10 ds 0 := by
  induction ds using List.reverseRecOn with
  | nil => simp
  | append_singleton ds c ih =>
    rw [allDigits_append, allDigits_cons] at hds
    obtain ⟨d, hd, rfl⟩ := exists_digitChar hds.2.1
    rw [← List.append_assoc, ofDigitChars_concat _ hd, ofDigitChars_concat _ hd, ih hds.1,
      List.length_append, List.length_singleton, pow_succ]
    ring

theorem ofDigitChars_lt {ds : List Char} (hds : AllDigits ds) :
    Nat.ofDigitChars 10 ds 0 < 10 ^ ds.length := by
  induction ds using List.reverseRecOn with
  | nil => simp
  | append_singleton ds c ih =>
    rw [allDigits_append, allDigits_cons] at hds
    obtain ⟨d, hd, rfl⟩ := exists_digitChar hds.2.1
    have hlt := ih hds.1
    rw [ofDigitChars_concat _ hd, List.length_append, List.length_singleton, pow_succ]
    omega

/-- Two runs of the same length with the same number are the same. -/
theorem eq_of_ofDigitChars_eq {cs ds : List Char} (hcs : AllDigits cs) (hds : AllDigits ds)
    (hlength : cs.length = ds.length)
    (h : Nat.ofDigitChars 10 cs 0 = Nat.ofDigitChars 10 ds 0) : cs = ds := by
  induction cs using List.reverseRecOn generalizing ds with
  | nil => exact (List.eq_nil_of_length_eq_zero hlength.symm).symm
  | append_singleton cs c ih =>
    rcases List.eq_nil_or_concat' ds with rfl | ⟨ds, d, rfl⟩
    · simp at hlength
    rw [allDigits_append, allDigits_cons] at hcs hds
    obtain ⟨a, ha, rfl⟩ := exists_digitChar hcs.2.1
    obtain ⟨b, hb, rfl⟩ := exists_digitChar hds.2.1
    rw [ofDigitChars_concat _ ha, ofDigitChars_concat _ hb] at h
    rw [List.length_append, List.length_append] at hlength
    obtain rfl : a = b := by omega
    rw [ih hcs.1 hds.1 (by omega) (by omega)]

/-! ## Zeros at either end -/

/-- The run does not start with a zero. -/
def StartsNonzero (cs : List Char) : Prop := ∃ c ∈ cs.head?, c ≠ '0'

theorem StartsNonzero.ne_nil {cs : List Char} (h : StartsNonzero cs) : cs ≠ [] := by
  obtain ⟨c, hc, -⟩ := h
  rintro rfl
  cases hc

theorem startsNonzero_append {cs : List Char} (h : StartsNonzero cs) (ds : List Char) :
    StartsNonzero (cs ++ ds) := by
  obtain ⟨c, hc, hzero⟩ := h
  refine ⟨c, ?_, hzero⟩
  rw [Option.mem_def] at hc ⊢
  rw [List.head?_append, hc]
  rfl

theorem startsNonzero_toDigits {n : Nat} (hn : n ≠ 0) : StartsNonzero (Nat.toDigits 10 n) := by
  induction n using Nat.strongRecOn with
  | _ n ih =>
    rw [Nat.toDigits_eq_if (by decide)]
    split
    next hsmall => exact ⟨_, rfl, mt Nat.digitChar_eq_zero.1 hn⟩
    next hlarge => exact startsNonzero_append (ih (n / 10) (by omega) (by omega)) _

/-- A run that does not start with a zero has a number of its length. -/
theorem pow_le_ofDigitChars {cs : List Char} (hcs : AllDigits cs) (h : StartsNonzero cs) :
    10 ^ (cs.length - 1) ≤ Nat.ofDigitChars 10 cs 0 := by
  obtain ⟨c, hc, hzero⟩ := h
  obtain ⟨ds, rfl⟩ := List.head?_eq_some_iff.1 hc
  rw [allDigits_cons] at hcs
  obtain ⟨d, hd, rfl⟩ := exists_digitChar hcs.1
  have hpos : 1 ≤ d := Nat.pos_of_ne_zero (mt Nat.digitChar_eq_zero.2 hzero)
  rw [← List.singleton_append, ofDigitChars_append_eq _ hcs.2, ofDigitChars_digitChar hd]
  exact (Nat.le_mul_of_pos_left _ hpos).trans (Nat.le_add_right _ _)

/-- Two runs that do not start with a zero and have the same number are the same. -/
theorem eq_of_startsNonzero {cs ds : List Char} (hcs : AllDigits cs) (hds : AllDigits ds)
    (hc : StartsNonzero cs) (hd : StartsNonzero ds)
    (h : Nat.ofDigitChars 10 cs 0 = Nat.ofDigitChars 10 ds 0) : cs = ds := by
  have hle {as bs : List Char} (has : AllDigits as) (hbs : AllDigits bs) (ha : StartsNonzero as)
      (hab : Nat.ofDigitChars 10 as 0 = Nat.ofDigitChars 10 bs 0) : as.length ≤ bs.length := by
    have hlow := pow_le_ofDigitChars has ha
    have hhigh := ofDigitChars_lt hbs
    have hlt := (Nat.pow_lt_pow_iff_right (by decide)).1 (hlow.trans_lt (hab ▸ hhigh))
    omega
  exact eq_of_ofDigitChars_eq hcs hds (Nat.le_antisymm (hle hcs hds hc h) (hle hds hcs hd h.symm)) h

/-- The same with the single zero, which is the shortest run for its number. -/
theorem eq_of_leading {cs ds : List Char} (hcs : AllDigits cs) (hds : AllDigits ds)
    (hc : cs = ['0'] ∨ StartsNonzero cs) (hd : ds = ['0'] ∨ StartsNonzero ds)
    (h : Nat.ofDigitChars 10 cs 0 = Nat.ofDigitChars 10 ds 0) : cs = ds := by
  have hpositive {as : List Char} (has : AllDigits as) (ha : StartsNonzero as) :
      Nat.ofDigitChars 10 as 0 ≠ Nat.ofDigitChars 10 ['0'] 0 := by
    have hlow := pow_le_ofDigitChars has ha
    have hone : 0 < 10 ^ (as.length - 1) := Nat.pow_pos (by decide)
    have hzero : Nat.ofDigitChars 10 ['0'] 0 = 0 := rfl
    omega
  rcases hc with rfl | hc
  · rcases hd with rfl | hd
    · rfl
    · exact absurd h.symm (hpositive hds hd)
  · rcases hd with rfl | hd
    · exact absurd h (hpositive hcs hc)
    · exact eq_of_startsNonzero hcs hds hc hd h

/-- The run does not end with a zero. -/
def EndsNonzero (cs : List Char) : Prop := cs.getLast? ≠ some '0'

/-- The number of a run that does not end with a zero is no multiple of ten. -/
theorem ofDigitChars_mod_ten {cs : List Char} (hcs : AllDigits cs) (hne : cs ≠ [])
    (h : EndsNonzero cs) : Nat.ofDigitChars 10 cs 0 % 10 ≠ 0 := by
  obtain ⟨ds, c, rfl⟩ := (List.eq_nil_or_concat' cs).resolve_left hne
  rw [allDigits_append, allDigits_cons] at hcs
  obtain ⟨d, hd, rfl⟩ := exists_digitChar hcs.2.1
  rw [EndsNonzero, List.getLast?_concat, ne_eq, Option.some.injEq, Nat.digitChar_eq_zero] at h
  rw [ofDigitChars_concat _ hd]
  omega

theorem endsNonzero_toDigits {n : Nat} (hn : n % 10 ≠ 0) : EndsNonzero (Nat.toDigits 10 n) := by
  rw [EndsNonzero, Nat.toDigits_eq_if (by decide)]
  split
  next hsmall =>
    rw [List.getLast?_singleton, ne_eq, Option.some.injEq, Nat.digitChar_eq_zero]
    omega
  next hlarge =>
    rwa [List.getLast?_concat, ne_eq, Option.some.injEq, Nat.digitChar_eq_zero]

end InfixArithmetic.Numeral
