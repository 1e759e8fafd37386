/-
  InfixArithmetic.Proofs.RoundTrip

  A number that is written in a layout and read again is the same number.

  The digits of a finite magnitude are `Decimal.shortest`, which reads back
  (`Decimal.ordinal_shortest`).  A layout moves the point, adds zeros and splits an
  exponent off, and the reader undoes this only up to the exact value: 100 is read
  as 100 * 10^0 although it was written from 1 * 10^2.  So the two layouts are
  followed up to `Decimal.inUnits`, and `Decimal.ordinal_congr` closes the circle.
-/

import InfixArithmetic.Decimal.Layout
import InfixArithmetic.Operation.NumberText
import InfixArithmetic.Proofs.Numerals
import InfixArithmetic.Proofs.ShortestDigits

namespace InfixArithmetic

namespace Numeral

open Decimal (inUnits)

/-! ## Texts with a value -/

/-- The text is an unsigned numeral without blanks, for a number of so many units. -/
structure Denotes (cs : List Char) (v : ℚ) : Prop where
  starts : ∀ c ∈ cs.head?, c.isDigit = true
  noBlank : ∀ c ∈ cs, Text.isBlank c = false
  read : ∃ d, readDecimal? cs = some d ∧ d.inUnits = v

/-- A text denotes one number. -/
theorem Denotes.unique {cs : List Char} {v w : ℚ} (hv : Denotes cs v) (hw : Denotes cs w) :
    v = w := by
  obtain ⟨d, hd, rfl⟩ := hv.read
  obtain ⟨e, he, rfl⟩ := hw.read
  rw [Option.some.inj (hd.symm.trans he)]

/-- A text that denotes a number is read as the value nearest to it, with the sign before
    it. -/
theorem Denotes.parse? {cs : List Char} {d : Decimal} (h : Denotes cs d.inUnits)
    (negative : Bool) :
    Numeral.parse? (String.ofList ((if negative then ['-'] else []) ++ cs))
      = some (d.toBinary64 negative) := by
  obtain ⟨e, he, hvalue⟩ := h.read
  have hsame := Decimal.toBinary64_congr hvalue negative
  obtain ⟨hplus, hminus⟩ := read?_of_unsigned fun c hc => .inl (h.starts c hc)
  have hblank : ∀ c ∈ (if negative then ['-'] else []) ++ cs, Text.isBlank c = false := by
    intro c hc
    rw [List.mem_append] at hc
    rcases hc with hc | hc
    · cases negative with
      | false => simp at hc
      | true =>
        rw [List.mem_singleton.1 hc]
        decide
    · exact h.noBlank c hc
  rw [parse?_ofList hblank]
  cases negative with
  | false => simp [hplus, he, toBinary64, hsame]
  | true => simp [hminus, he, toBinary64, hsame]

/-! ## Digits before an exponent -/

/-- The text is what may follow the digits of a numeral: nothing, or an exponent. -/
structure IsExponent (rest : List Char) (e : Int) : Prop where
  stops : StopsDigits rest
  noPoint : '.' ∉ rest.head?
  noBlank : ∀ c ∈ rest, Text.isBlank c = false
  read : readExponent? rest = some e

theorem isExponent_nil : IsExponent [] 0 :=
  ⟨stopsDigits_nil, by simp, by simp, rfl⟩

theorem isExponent_signed {mark : Char} {ds : List Char} (hmark : mark = 'e' ∨ mark = 'E')
    (hds : AllDigits ds) (hne : ds ≠ []) (negative : Bool) :
    IsExponent (mark :: (if negative then '-' else '+') :: ds)
      (if negative then -(Nat.ofDigitChars 10 ds 0 : Int) else Nat.ofDigitChars 10 ds 0) where
  stops := by
    rw [stopsDigits_cons]
    rcases hmark with rfl | rfl <;> decide
  noPoint := by
    rcases hmark with rfl | rfl <;> simp
  noBlank := by
    intro c hc
    rw [List.mem_cons, List.mem_cons] at hc
    rcases hc with rfl | rfl | hc
    · rcases hmark with rfl | rfl <;> decide
    · cases negative <;> decide
    · exact isBlank_of_isDigit (hds c hc)
  read := readExponent?_signed hmark hds hne

theorem denotes_whole {whole rest : List Char} {e : Int} (hwhole : AllDigits whole)
    (hne : whole ≠ []) (hrest : IsExponent rest e) :
    Denotes (whole ++ rest) (inUnits ⟨Nat.ofDigitChars 10 whole 0, e⟩) where
  starts := by
    intro c hc
    rw [List.head?_append_of_ne_nil _ hne] at hc
    exact hwhole c (List.mem_of_mem_head? hc)
  noBlank := by
    intro c hc
    rw [List.mem_append] at hc
    rcases hc with hc | hc
    · exact isBlank_of_isDigit (hwhole c hc)
    · exact hrest.noBlank c hc
  read := by
    refine ⟨_, ?_, rfl⟩
    rw [readDecimal?_whole hwhole hrest.stops hrest.noPoint, if_neg hne, hrest.read]
    rfl

theorem denotes_fraction {whole fraction rest : List Char} {e : Int} (hwhole : AllDigits whole)
    (hne : whole ≠ []) (hfraction : AllDigits fraction) (hrest : IsExponent rest e) :
    Denotes (whole ++ '.' :: (fraction ++ rest))
      (inUnits ⟨Nat.ofDigitChars 10 (whole ++ fraction) 0, e - fraction.length⟩) where
  starts := by
    intro c hc
    rw [List.head?_append_of_ne_nil _ hne] at hc
    exact hwhole c (List.mem_of_mem_head? hc)
  noBlank := by
    intro c hc
    rw [List.mem_append, List.mem_cons, List.mem_append] at hc
    rcases hc with hc | rfl | hc | hc
    · exact isBlank_of_isDigit (hwhole c hc)
    · decide
    · exact isBlank_of_isDigit (hfraction c hc)
    · exact hrest.noBlank c hc
  read := by
    refine ⟨_, ?_, rfl⟩
    rw [readDecimal?_fraction hwhole hfraction hrest.stops,
      if_neg (List.append_ne_nil_of_left_ne_nil hne fraction), hrest.read]
    rfl

/-! ## Zeros around a run of digits -/

theorem ofDigitChars_zeros_append (k : Nat) (ds : List Char) :
    Nat.ofDigitChars 10 (List.replicate k '0' ++ ds) 0 = Nat.ofDigitChars 10 ds 0 := by
  rw [Nat.ofDigitChars_append, Nat.ofDigitChars_replicate_zero, Nat.mul_zero]

theorem ofDigitChars_append_zeros (ds : List Char) (k : Nat) :
    Nat.ofDigitChars 10 (ds ++ List.replicate k '0') 0 = Nat.ofDigitChars 10 ds 0 * 10 ^ k := by
  rw [Nat.ofDigitChars_append, Nat.ofDigitChars_replicate_zero, Nat.mul_comm]

/-- Zeros at the end of the digits make up for a smaller exponent. -/
theorem inUnits_zeros (n k : Nat) (e : Int) :
    inUnits ⟨n * 10 ^ k, e⟩ = inUnits ⟨n, e + k⟩ := by
  rw [inUnits, inUnits, zpow_add₀ (by norm_num), zpow_natCast]
  generalize Binary64.unitsPerOne = u
  push_cast
  ring

end Numeral

namespace Layout

open Numeral (AllDigits Denotes allDigits_append allDigits_cons allDigits_replicate_zero)
open Decimal (inUnits)

/-- The marks of a layout are ones that a reader knows, and its words are read as
    what they stand for. -/
structure Readable (l : Layout) : Prop where
  wholeMark : l.wholeMark.toList = [] ∨ l.wholeMark.toList = ['.', '0']
  exponentMark : l.exponentMark = 'e' ∨ l.exponentMark = 'E'
  positiveInfinity : Numeral.parse? l.positiveInfinity = some (.infinite false)
  negativeInfinity : Numeral.parse? l.negativeInfinity = some (.infinite true)
  nan : Numeral.parse? l.nan = some .nan

theorem plain_readable : plain.Readable := by
  constructor <;> decide

theorem displayed_readable : displayed.Readable := by
  constructor <;> decide

/-! ## Digits with the point in its place -/

/-- The point and zeros before all digits. -/
theorem denotes_zeros_before {digits : List Char} (hdigits : AllDigits digits) (k : Nat) :
    Denotes ('0' :: '.' :: (List.replicate k '0' ++ digits))
      (inUnits ⟨Nat.ofDigitChars 10 digits 0, -(k + digits.length : Nat)⟩) := by
  have hfraction : AllDigits (List.replicate k '0' ++ digits) :=
    allDigits_append.2 ⟨allDigits_replicate_zero k, hdigits⟩
  have hdenotes := Numeral.denotes_fraction (allDigits_replicate_zero 1) (by simp) hfraction
    Numeral.isExponent_nil
  rw [Numeral.ofDigitChars_zeros_append, Numeral.ofDigitChars_zeros_append, List.append_nil,
    List.length_append, List.length_replicate, Int.zero_sub] at hdenotes
  exact hdenotes

/-- Zeros after all digits, and what a layout adds to a number without a fraction. -/
theorem denotes_zeros_after {l : Layout} (hl : l.Readable) {digits : List Char}
    (hdigits : AllDigits digits) (hne : digits ≠ []) (k : Nat) :
    Denotes (digits ++ List.replicate k '0' ++ l.wholeMark.toList)
      (inUnits ⟨Nat.ofDigitChars 10 digits 0, k⟩) := by
  have hwhole : AllDigits (digits ++ List.replicate k '0') :=
    allDigits_append.2 ⟨hdigits, allDigits_replicate_zero k⟩
  have hwholeNe : digits ++ List.replicate k '0' ≠ [] :=
    List.append_ne_nil_of_left_ne_nil hne _
  -- A mark is one more zero, after the point.
  rcases hl.wholeMark with hmark | hmark
  · have hdenotes := Numeral.denotes_whole hwhole hwholeNe Numeral.isExponent_nil
    rw [Numeral.ofDigitChars_append_zeros, Numeral.inUnits_zeros, Int.zero_add] at hdenotes
    rw [hmark]
    exact hdenotes
  · have hdenotes := Numeral.denotes_fraction hwhole hwholeNe (allDigits_replicate_zero 1)
      Numeral.isExponent_nil
    rw [Numeral.ofDigitChars_append_zeros, Numeral.ofDigitChars_append_zeros,
      Numeral.inUnits_zeros, Numeral.inUnits_zeros, List.length_replicate,
      show (0 : Int) - (1 : Nat) + (1 : Nat) + k = k by omega] at hdenotes
    rw [hmark]
    exact hdenotes

/-- The point between two digits, the first of them the one at `whole`. -/
theorem denotes_point_between {digits : List Char} (hdigits : AllDigits digits) {whole : Nat}
    (hpos : 0 < whole) (hlt : whole < digits.length) :
    Denotes (digits.take whole ++ '.' :: digits.drop whole)
      (inUnits ⟨Nat.ofDigitChars 10 digits 0, -(digits.length - whole : Nat)⟩) := by
  have hsplit : AllDigits (digits.take whole ++ digits.drop whole) := by
    rw [List.take_append_drop]
    exact hdigits
  rw [allDigits_append] at hsplit
  have htake : digits.take whole ≠ [] := by
    rw [← List.length_pos_iff, List.length_take]
    omega
  have hdenotes := Numeral.denotes_fraction hsplit.1 htake hsplit.2 Numeral.isExponent_nil
  rw [List.take_append_drop, List.append_nil, List.length_drop, Int.zero_sub] at hdenotes
  exact hdenotes

/-- Digits that end at `10 ^ e`, written positionally. -/
theorem positional_denotes {l : Layout} (hl : l.Readable) {digits : List Char}
    (hdigits : AllDigits digits) (hne : digits ≠ []) (e : Int) :
    Denotes (l.positional digits (e + digits.length - 1))
      (inUnits ⟨Nat.ofDigitChars 10 digits 0, e⟩) := by
  have hlength : 0 < digits.length := List.length_pos_of_ne_nil hne
  obtain ⟨first, hfirst⟩ : ∃ first, e + digits.length - 1 = first := ⟨_, rfl⟩
  rw [hfirst, positional]
  by_cases hsmall : first < 0
  · rw [if_pos hsmall]
    have he : e = -((-first - 1).toNat + digits.length : Nat) := by omega
    rw [he]
    exact denotes_zeros_before hdigits _
  · rw [if_neg hsmall]
    dsimp only
    by_cases hwhole : digits.length ≤ first.toNat + 1
    · rw [if_pos hwhole]
      have he : e = (first.toNat + 1 - digits.length : Nat) := by omega
      rw [he]
      exact denotes_zeros_after hl hdigits hne _
    · rw [if_neg hwhole]
      have he : e = -(digits.length - (first.toNat + 1) : Nat) := by omega
      rw [he]
      exact denotes_point_between hdigits (by omega) (by omega)

/-! ## Digits with an exponent -/

/-- The exponent of a layout, as it is written. -/
theorem isExponent_written {l : Layout} (hl : l.Readable) (first : Int) :
    Numeral.IsExponent (l.exponentMark :: (if first < 0 then '-' else '+') ::
      (Nat.toDigits 10 first.natAbs).leftpad l.exponentDigits '0') first := by
  have hpadded : AllDigits ((Nat.toDigits 10 first.natAbs).leftpad l.exponentDigits '0') :=
    allDigits_append.2 ⟨allDigits_replicate_zero _, Numeral.allDigits_toDigits _⟩
  have hexponent := Numeral.isExponent_signed hl.exponentMark hpadded
    (List.append_ne_nil_of_right_ne_nil _ Nat.toDigits_ne_nil) (decide (first < 0))
  rw [List.leftpad, Numeral.ofDigitChars_zeros_append, Nat.ofDigitChars_ten_toDigits] at hexponent
  simp only [decide_eq_true_eq] at hexponent
  have hvalue : (if first < 0 then -(first.natAbs : Int) else first.natAbs) = first := by
    split <;> omega
  rw [hvalue] at hexponent
  exact hexponent

/-- Digits that end at `10 ^ e`, written with an exponent. -/
theorem scientific_denotes {l : Layout} (hl : l.Readable) {digits : List Char}
    (hdigits : AllDigits digits) (hne : digits ≠ []) (e : Int) :
    Denotes (l.scientific digits (e + digits.length - 1))
      (inUnits ⟨Nat.ofDigitChars 10 digits 0, e⟩) := by
  obtain ⟨c, cs, rfl⟩ := List.exists_cons_of_ne_nil hne
  rw [allDigits_cons] at hdigits
  have hc : AllDigits [c] := allDigits_cons.2 ⟨hdigits.1, Numeral.allDigits_nil⟩
  obtain ⟨first, hfirst⟩ : ∃ first, e + (c :: cs).length - 1 = first := ⟨_, rfl⟩
  have he : e = first - cs.length := by
    rw [List.length_cons] at hfirst
    omega
  have hexponent := isExponent_written hl first
  rw [hfirst, he, scientific, List.drop_one, List.tail_cons]
  -- A single digit is written without a point.
  by_cases hcs : cs = []
  · subst hcs
    have hdenotes := Numeral.denotes_whole hc (by simp) hexponent
    simpa using hdenotes
  · rw [if_neg hcs]
    have hdenotes := Numeral.denotes_fraction hc (by simp) hdigits.2 hexponent
    simpa using hdenotes

/-! ## Reading back -/

/-- A finite magnitude as it is written is its shortest digits. -/
theorem magnitude_denotes {l : Layout} (hl : l.Readable) (x : Binary64) (n : Nat) :
    Denotes (l.magnitude x n) (inUnits (if n = 0 then ⟨0, 0⟩ else Decimal.shortest n)) := by
  rw [magnitude]
  generalize (if n = 0 then (⟨0, 0⟩ : Decimal) else Decimal.shortest n) = d
  have hdigits := Numeral.allDigits_toDigits d.digits
  have hne : Nat.toDigits 10 d.digits ≠ [] := Nat.toDigits_ne_nil
  split
  · have hdenotes := positional_denotes hl hdigits hne d.exponent
    rw [Nat.ofDigitChars_ten_toDigits] at hdenotes
    exact hdenotes
  · have hdenotes := scientific_denotes hl hdigits hne d.exponent
    rw [Nat.ofDigitChars_ten_toDigits] at hdenotes
    exact hdenotes

/-- Whatever is written in a layout is read as the number that was written. -/
theorem Readable.parse?_render {l : Layout} (hl : l.Readable) (x : Binary64) :
    Numeral.parse? (l.render x) = some x := by
  cases x with
  | nan => exact hl.nan
  | infinite s =>
    cases s with
    | false => exact hl.positiveInfinity
    | true => exact hl.negativeInfinity
  | finite s n =>
    obtain ⟨n, hn⟩ := n
    -- Zero has no shortest digits and is written as the digit zero.
    have hordinal : (if n = 0 then (⟨0, 0⟩ : Decimal) else Decimal.shortest n).ordinal = n := by
      split
      next hzero => exact hzero.symm
      next hzero => exact Decimal.ordinal_shortest (Nat.pos_of_ne_zero hzero) hn
    have hread := (magnitude_denotes hl (.finite s ⟨n, hn⟩) n).parse? s
    rw [Decimal.toBinary64, hordinal, Binary64.ofOrdinal, dif_pos hn] at hread
    exact hread

end Layout

namespace NumberText

theorem parse_text {s : String} {x : Binary64} (h : Numeral.parse? s = some x) :
    parse (.text s) = .ok x := by
  rw [parse, h]

/-- A result that is written is read as the same value again, down to the last bit
    and to the sign of a zero; a NaN is read as a NaN. -/
theorem parse_format (x : Binary64) : parse (.text (format x)) = .ok x :=
  parse_text (Layout.plain_readable.parse?_render x)

end NumberText

end InfixArithmetic
