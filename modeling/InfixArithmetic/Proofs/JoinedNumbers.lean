/-
  InfixArithmetic.Proofs.JoinedNumbers

  The number that is written by an integer followed at once by a written number.

  The digits of the integer come before those of the second number, so the joined text is
  again a spelling, with a longer whole part (`Spelling.exact_putBefore`): the
  integer counts as many places as the second number has before its point, the exponent
  counted in.  A second number that starts with a minus or with a letter is no continuation
  of digits, and the joined text is not read (`Numeral.parse?_broken`).
-/

import InfixArithmetic.Proofs.FifteenDigits
import InfixArithmetic.Proofs.IntegerAgreement

namespace InfixArithmetic

/-! ## What does not continue digits -/

namespace Numeral

/-- Digits followed by a character that is no part of a number are not read. -/
theorem parse?_broken {ds rest : List Char} {c : Char} (hds : AllDigits ds) (hne : ds ≠ [])
    (hdigit : Text.digitValue? c = none) (hpoint : c ≠ '.') (hmark : c ≠ 'e' ∧ c ≠ 'E')
    (hblank : (c :: rest).any Text.isBlank = false) (negative : Bool) :
    parse? (String.ofList ((if negative then ['-'] else []) ++ ds ++ c :: rest)) = none := by
  have hnone : readDecimal? (ds ++ c :: rest) = none := by
    rw [readDecimal?_whole hds (stopsDigits_cons.2 hdigit)
      (fun h => hpoint (Option.some.inj h)), if_neg hne, readExponent?,
      if_neg (not_or.2 hmark), Option.map_none]
  have hstarts : ∀ c' ∈ (ds ++ c :: rest).head?, c'.isDigit = true ∨ c' = '.' := by
    intro c' hc'
    rw [List.head?_append_of_ne_nil _ hne] at hc'
    exact .inl (hds c' (List.mem_of_mem_head? hc'))
  obtain ⟨hplus, hminus⟩ := read?_of_unsigned hstarts
  rw [hnone] at hplus hminus
  rw [parse?_ofList, List.append_assoc]
  · cases negative with
    | false => exact congrArg (Option.map toBinary64) hplus
    | true => exact congrArg (Option.map toBinary64) hminus
  · intro c' hc'
    rw [List.mem_append, List.mem_append] at hc'
    rcases hc' with (hsign | hdigits) | hrest
    · cases negative with
      | false => cases hsign
      | true =>
        rw [List.mem_singleton.1 hsign]
        decide
    · exact isBlank_of_isDigit (hds c' hdigits)
    · exact eq_false_of_ne_true (List.any_eq_false.1 hblank c' hrest)

end Numeral

/-! ## Digits before a spelling -/

namespace Spelling

variable {t : Spelling}

/-- The digits of an integer before the spelling, and its sign. -/
def putBefore (t : Spelling) (i : Int) : Spelling :=
  { t with negative := i < 0, whole := Nat.toDigits 10 i.natAbs ++ t.whole }

theorem IsNumeral.putBefore (h : t.IsNumeral) (i : Int) : (t.putBefore i).IsNumeral where
  whole := Numeral.allDigits_append.2 ⟨Numeral.allDigits_toDigits _, h.whole⟩
  whole_ne := List.append_ne_nil_of_left_ne_nil Nat.toDigits_ne_nil _
  fraction := h.fraction
  exponent := h.exponent

theorem text_putBefore (hsign : t.negative = false) (i : Int) :
    (t.putBefore i).text = Text.integer i ++ t.text := by
  rw [text, text, hsign, Text.integer, Text.integerDigits, ← String.ofList_append, unsigned,
    unsigned, putBefore]
  simp

/-- How many places the digits before the spelling are moved: the digits before its point,
    or in the notation with an exponent that exponent and one. -/
def places (t : Spelling) : Int :=
  match t.exponent with
  | none => t.whole.length
  | some _ => t.exponentValue + 1

/-- The number that is written after the integer, on the side of its sign. -/
def joined (i : Int) (t : Spelling) : ℚ :=
  if 0 ≤ i then i * 10 ^ t.places + t.decimal.exact else i * 10 ^ t.places - t.decimal.exact

/-- A written number has no sign of its own. -/
theorem exact_nonneg (t : Spelling) : 0 ≤ t.decimal.exact :=
  mul_nonneg (Nat.cast_nonneg _) (zpow_pos (by norm_num) _).le

theorem abs_joined (i : Int) (t : Spelling) :
    |joined i t| = i.natAbs * 10 ^ t.places + t.decimal.exact := by
  have hexact := t.exact_nonneg
  have hpow : (0 : ℚ) < 10 ^ t.places := zpow_pos (by norm_num) _
  rw [joined]
  by_cases hi : 0 ≤ i
  · have hcast : (i.natAbs : ℚ) = i := by rw [Nat.cast_natAbs, abs_of_nonneg hi]
    rw [if_pos hi, ← hcast]
    exact abs_of_nonneg (by positivity)
  -- Both parts are on the negative side.
  · have hcast : (i.natAbs : ℚ) = -i := by
      rw [Nat.cast_natAbs, abs_of_nonpos (not_le.1 hi).le, Int.cast_neg]
    have hopposite : (i : ℚ) * 10 ^ t.places - t.decimal.exact
        = -(i.natAbs * 10 ^ t.places + t.decimal.exact) := by
      rw [hcast]
      ring
    rw [if_neg hi, hopposite, abs_neg]
    exact abs_of_nonneg (by positivity)

/-- The digits before the spelling count as many places more as it has before the point. -/
theorem exact_putBefore (h : t.IsNumeral) (hplaces : t.places = t.whole.length + t.exponentValue)
    (i : Int) : (t.putBefore i).decimal.exact = |joined i t| := by
  have hdigits := Numeral.allDigits_append.2 ⟨h.whole, h.fraction⟩
  have hten : (10 : ℚ) ≠ 0 := by norm_num
  have hexponent : (t.putBefore i).exponentValue = t.exponentValue := rfl
  have hfraction : (t.putBefore i).fraction = t.fraction := rfl
  have hwhole : (t.putBefore i).whole = Nat.toDigits 10 i.natAbs ++ t.whole := rfl
  -- The integer is moved over the whole part and the fraction, and the point back over the
  -- fraction.
  rw [abs_joined, exact_eq_mul_pow, exact_eq_mul_pow, hexponent, hfraction, hwhole,
    List.append_assoc, Numeral.ofDigitChars_append_eq _ hdigits, Nat.ofDigitChars_ten_toDigits,
    List.length_append, hplaces, Nat.cast_add, Nat.cast_mul, Nat.cast_pow, Nat.cast_ofNat,
    add_mul, add_mul, pow_add, zpow_add₀ hten, zpow_natCast, zpow_neg, zpow_natCast]
  field_simp

theorem IsPositional.places_eq (h : t.IsPositional) :
    t.places = t.whole.length + t.exponentValue := by
  rw [places, exponentValue, h.exponent, Int.add_zero]

theorem IsScientific.places_eq (h : t.IsScientific) :
    t.places = t.whole.length + t.exponentValue := by
  obtain ⟨p, hp, -⟩ := h.exponent
  rw [h.single, Nat.cast_one, Int.add_comm, places, hp]

theorem places_ofFinite (s : Bool) (n : Fin Binary64.overflow) :
    (ofFinite s n).places = (ofFinite s n).whole.length + (ofFinite s n).exponentValue := by
  by_cases h : Binary64.IsModerate (.finite s n)
  · exact (isPositional_ofFinite h).places_eq
  · exact (isScientific_ofFinite h).places_eq

end Spelling

theorem Binary64.towardZero_intCast (i : Int) : towardZero (i : ℚ) = i := by
  rw [towardZero, Int.floor_intCast, Int.ceil_intCast, ite_self]

/-! ## Joined operands -/

namespace JoinedNumbers

open Binary64 (IsModerate RoundsTo towardZero)
open DoubleOperation (rounded superSum)
open InfixArithmetic.Int32 (inRange)
open NumberText (format)
open Numeral (parse?)

section Texts

variable {i : Int} {y : Binary64}

/-- A text that starts with something that is no part of a number is not read after an
    integer. -/
theorem parse?_integer_append {s : String} {c : Char} {rest : List Char}
    (hs : s.toList = c :: rest) (hdigit : Text.digitValue? c = none) (hpoint : c ≠ '.')
    (hmark : c ≠ 'e' ∧ c ≠ 'E') (hblank : (c :: rest).any Text.isBlank = false) :
    parse? (Text.integer i ++ s) = none := by
  have hnone := Numeral.parse?_broken (Numeral.allDigits_toDigits i.natAbs)
    Nat.toDigits_ne_nil hdigit hpoint hmark hblank (i < 0)
  rw [← hs, String.ofList_append, String.ofList_toList] at hnone
  simp only [decide_eq_true_eq] at hnone
  exact hnone

/-- Nor is a minus, which stands where the digits would have to go on. -/
theorem parse?_integer_minus {s : String} {rest : List Char} (hs : s.toList = '-' :: rest)
    (hrest : ∀ c ∈ rest, Text.isBlank c = false) : parse? (Text.integer i ++ s) = none := by
  refine parse?_integer_append hs (by decide) (by decide) (by decide) (List.any_eq_false.2 ?_)
  intro c hc
  rcases List.mem_cons.1 hc with rfl | hc
  · decide
  · rw [hrest c hc]
    exact Bool.false_ne_true

/-- A negative number, an infinity or a NaN is not read after an integer. -/
theorem parse?_format_eq_none (h : y.isFinite = false ∨ y.isNegative = true) :
    parse? (Text.integer i ++ format y) = none := by
  cases y with
  | nan =>
    exact parse?_integer_append (c := 'N') rfl (by decide) (by decide) (by decide) (by decide)
  | infinite s =>
    cases s with
    | false =>
      exact parse?_integer_append (c := 'I') rfl (by decide) (by decide) (by decide) (by decide)
    | true =>
      exact parse?_integer_append (c := '-') rfl (by decide) (by decide) (by decide) (by decide)
  | finite s n =>
    obtain rfl : s = true := h.resolve_left (by simp [Binary64.isFinite])
    have htext : (format (.finite true n)).toList = '-' :: (Spelling.ofFinite true n).unsigned := by
      rw [← Spelling.text_ofFinite, Spelling.text, Spelling.negative_ofFinite, String.toList_ofList]
      rfl
    exact parse?_integer_minus htext (Spelling.isNumeral_ofFinite true n).denotes.noBlank

/-- The number that is read from an integer and a result after it. -/
theorem parse?_format (n : Fin Binary64.overflow) :
    parse? (Text.integer i ++ format (.finite false n))
      = some (((Spelling.ofFinite false n).putBefore i).decimal.toBinary64 (i < 0)) := by
  have hnumeral := Spelling.isNumeral_ofFinite false n
  rw [← Spelling.text_ofFinite, ← Spelling.text_putBefore (Spelling.negative_ofFinite false n)]
  exact (hnumeral.putBefore i).parse?

end Texts

/-- Two integers after each other are read if the second one has no sign. -/
theorem parse?_integers {i j : Int} (hj : 0 ≤ j) :
    ∃ x, parse? (Text.integer i ++ Text.integer j) = some x := by
  have hsign : (Spelling.ofInt j).negative = false := decide_eq_false (by omega)
  rw [← Spelling.text_ofInt j, ← Spelling.text_putBefore hsign]
  exact ⟨_, ((Spelling.isPositional_ofInt j).isNumeral.putBefore i).parse?⟩

theorem parse?_integers_of_neg {i j : Int} (hj : j < 0) :
    parse? (Text.integer i ++ Text.integer j) = none := by
  have htext : (Text.integer j).toList = '-' :: Nat.toDigits 10 j.natAbs := by
    rw [Text.integer, Text.integerDigits, if_pos hj, String.toList_ofList]
    rfl
  have hdigits := Numeral.allDigits_toDigits j.natAbs
  exact parse?_integer_minus htext fun c hc => Numeral.isBlank_of_isDigit (hdigits c hc)

/-! ## The floating-point operation -/

section Double

/-- What the floating-point operation reads. -/
theorem superSum_eq {p q : Number} {i : Int} {y : Binary64} (hp : p.truncate? = some i)
    (hi : inRange i = true) (hq : rounded q = .ok y) :
    superSum p q
      = (parse? (Text.integer i ++ format y)).elim (.error (.format .joinedNotDouble)) .ok := by
  rw [superSum, hp]
  simp only [hi, if_true, hq, bind, Except.bind, format]
  cases parse? (Text.integer i ++ Layout.plain.render y) <;> rfl

variable {a b : Binary64} {q : ℚ}

theorem superSum_eq_error (h : a.isFinite = false ∨
    (∃ q, a.value? = some q ∧ inRange (towardZero q) = false) ∨
      b.isFinite = false ∨ b.isNegative = true) :
    superSum (.double a) (.double b) = .error (.format .joinedNotDouble) := by
  cases a with
  | nan => rfl
  | infinite s => rfl
  | finite s n =>
    obtain ⟨q, hq⟩ : ∃ q, (Binary64.finite s n).value? = some q := ⟨_, rfl⟩
    have hcut : (Number.double (.finite s n)).truncate? = some (towardZero q) :=
      Binary64.truncate?_eq hq
    by_cases hrange : inRange (towardZero q) = true
    · rw [superSum_eq hcut hrange rfl, parse?_format_eq_none, Option.elim_none]
      rcases h with hnot | ⟨r, hr, hout⟩ | hbroken
      · cases hnot
      · rw [Option.some.inj (hr.symm.trans hq), hrange] at hout
        cases hout
      · exact hbroken
    · rw [superSum, hcut]
      simp only [hrange, Bool.false_eq_true, if_false]

/-- The result is the value nearest to the number that is written. -/
theorem superSum_eq_ok (hq : a.value? = some q) (hrange : inRange (towardZero q) = true)
    (n : Fin Binary64.overflow) :
    ∃ x, superSum (.double a) (.double (.finite false n)) = .ok x ∧
      ∀ y, RoundsTo (towardZero q < 0) |Spelling.joined (towardZero q) (.ofFinite false n)| y ↔
        y = x := by
  have hcut : (Number.double a).truncate? = some (towardZero q) := Binary64.truncate?_eq hq
  have hplaces := Spelling.places_ofFinite false n
  refine ⟨((Spelling.ofFinite false n).putBefore (towardZero q)).decimal.toBinary64
    (towardZero q < 0), ?_, fun y => ?_⟩
  · rw [superSum_eq hcut hrange rfl, parse?_format, Option.elim_some]
  · rw [← Spelling.exact_putBefore (Spelling.isNumeral_ofFinite false n) hplaces,
      ← Decimal.toBinary64_eq_iff, eq_comm]

end Double

/-! ## The integer operation -/

/-- What the integer operation reads. -/
theorem int32_superSum_eq {i j : Int} (hi : inRange i = true) (hj : inRange j = true) :
    Int32.superSum (.int i) (.int j)
      = (parse? (Text.integer i ++ Text.integer j)).elim (.error (.format .joinedNotInteger))
          .ok := by
  rw [Int32.superSum, Int32.checked_int hi, Int32.checked_int hj]
  simp only [bind, Except.bind]
  cases parse? (Text.integer i ++ Text.integer j) <;> rfl

theorem int32_superSum_eq_error_iff {i j : Int} (hi : inRange i = true) (hj : inRange j = true) :
    Int32.superSum (.int i) (.int j) = .error (.format .joinedNotInteger) ↔ j < 0 := by
  rw [int32_superSum_eq hi hj]
  rcases lt_or_ge j 0 with hneg | hnonneg
  · rw [parse?_integers_of_neg hneg, Option.elim_none]
    exact iff_of_true rfl hneg
  · obtain ⟨x, hx⟩ := parse?_integers (i := i) hnonneg
    rw [hx, Option.elim_some]
    exact iff_of_false nofun (not_lt.2 hnonneg)

/-- An integer in the range is a value that is written in decimal. -/
theorem exists_written_inRange {i : Int} (hi : inRange i = true) :
    ∃ y, Number.toBinary64? (.int i) = some y ∧ rounded (.int i) = .ok y ∧
      y.truncate? = some i ∧ format y = Text.integer i := by
  have habs := IntegerAgreement.natAbs_le_of_inRange hi
  obtain ⟨y, hy, hformat⟩ := NumberText.exists_format_integer (i := i) (by omega)
  obtain ⟨z, hz, hvalue⟩ := IntegerAgreement.exists_rounded_inRange (p := .int i) hi rfl
  have hrounded : rounded (.int i) = .ok y := by rw [rounded, hy]
  obtain rfl := Except.ok.inj (hrounded.symm.trans hz)
  refine ⟨y, hy, hrounded, ?_, hformat⟩
  rw [Binary64.truncate?_eq hvalue, Binary64.towardZero_intCast]

/-- An integer of the range and its value are written the same, so both operations read the
    same text. -/
theorem exists_superSum_eq {i j : Int} (hi : inRange i = true) (hj : inRange j = true)
    (hnonneg : 0 ≤ j) :
    ∃ x y z, Number.toBinary64? (.int i) = some y ∧ Number.toBinary64? (.int j) = some z ∧
      Int32.superSum (.int i) (.int j) = .ok x ∧ superSum (.int i) (.int j) = .ok x ∧
      superSum (.double y) (.double z) = .ok x := by
  obtain ⟨y, hy, -, hcut, -⟩ := exists_written_inRange hi
  obtain ⟨z, hz, hrounded, -, hformat⟩ := exists_written_inRange hj
  obtain ⟨x, hx⟩ := parse?_integers (i := i) hnonneg
  refine ⟨x, y, z, hy, hz, ?_, ?_, ?_⟩
  · rw [int32_superSum_eq hi hj, hx, Option.elim_some]
  · rw [superSum_eq (p := .int i) rfl hi hrounded, hformat, hx, Option.elim_some]
  · rw [superSum_eq (p := .double y) hcut hi rfl, hformat, hx, Option.elim_some]

/-! ## Both operations -/

/-- The floating-point operation is refused if and only if the first operand is not finite or
    its integer part not in the range, or the second one is no finite number or has the sign.
    Otherwise the result is the value nearest to the number that is written by the integer
    part and the second operand after it: `n * 10 ^ k + d`, or `n * 10 ^ k - d` for a negative
    `n`, where `d` is written canonically and has `k` places before its point.  The operation
    on integers is refused if and only if the second one is negative, and otherwise has the
    result that the floating-point operation has for the integers and for their values. -/
theorem superSum_reads_joined_number :
    (∀ a b : Binary64,
      (superSum (.double a) (.double b) = .error (.format .joinedNotDouble) ↔
        a.isFinite = false ∨ (∃ q, a.value? = some q ∧ inRange (towardZero q) = false) ∨
          b.isFinite = false ∨ b.isNegative = true) ∧
      ∀ q, a.value? = some q → inRange (towardZero q) = true → b.isFinite = true →
        b.isNegative = false →
        ∃ t : Spelling, format b = t.text ∧ (IsModerate b → t.IsPositional) ∧
          (¬ IsModerate b → t.IsScientific) ∧
          ∃ x, superSum (.double a) (.double b) = .ok x ∧
            ∀ y, RoundsTo (towardZero q < 0) |Spelling.joined (towardZero q) t| y ↔ y = x) ∧
    ∀ i j : Int, inRange i = true → inRange j = true →
      (Int32.superSum (.int i) (.int j) = .error (.format .joinedNotInteger) ↔ j < 0) ∧
      (0 ≤ j → ∃ x y z,
        Number.toBinary64? (.int i) = some y ∧ Number.toBinary64? (.int j) = some z ∧
        Int32.superSum (.int i) (.int j) = .ok x ∧ superSum (.int i) (.int j) = .ok x ∧
        superSum (.double y) (.double z) = .ok x) := by
  refine ⟨fun a b => ⟨⟨fun herror => ?_, superSum_eq_error⟩, ?_⟩, fun i j hi hj =>
    ⟨int32_superSum_eq_error_iff hi hj, exists_superSum_eq hi hj⟩⟩
  · by_contra haccepted
    simp only [not_or, not_exists, not_and, Bool.not_eq_false, Bool.not_eq_true] at haccepted
    obtain ⟨ha, hrange, hb, hsign⟩ := haccepted
    cases a with
    | nan => cases ha
    | infinite s => cases ha
    | finite s n =>
      cases b with
      | nan => cases hb
      | infinite r => cases hb
      | finite r m =>
        obtain rfl : r = false := hsign
        obtain ⟨x, hx, -⟩ := superSum_eq_ok (Binary64.value?_finite s n) (hrange _ rfl) m
        rw [hx] at herror
        cases herror
  · intro q hq hrange hb hsign
    cases b with
    | nan => cases hb
    | infinite r => cases hb
    | finite r m =>
      obtain rfl : r = false := hsign
      exact ⟨.ofFinite false m, (Spelling.text_ofFinite false m).symm,
        Spelling.isPositional_ofFinite, Spelling.isScientific_ofFinite,
        superSum_eq_ok hq hrange m⟩

/-- An integer part that is negative before a number with an exponent, and the least integer
    before zero. -/
theorem superSum_reads_joined_number_scientific :
    (Binary64.finite true 0x4029000000000000).value? = some (-25 / 2) ∧
      inRange (towardZero (-25 / 2)) = true ∧
      (∃ (t : Spelling) (x : Binary64), t.text = "1.5E-07" ∧ t.IsScientific ∧
        superSum (.double (.finite true 0x4029000000000000))
          (.double (.finite false 0x3E8421F5F40D8376)) = .ok x ∧
        RoundsTo true |Spelling.joined (-12) t| x) ∧
      inRange (-2147483648) = true ∧ inRange 0 = true ∧
      ∃ x, Int32.superSum (.int (-2147483648)) (.int 0) = .ok x ∧
        superSum (.int (-2147483648)) (.int 0) = .ok x := by
  have hvalue : (Binary64.finite true 0x4029000000000000).value? = some (-25 / 2) := by
    rw [Binary64.value?_eq_some_iff]
    refine ⟨true, _, rfl, ?_⟩
    have hunits : Binary64.signedUnits true (0x4029000000000000 : Fin Binary64.overflow) * 2
        = -25 * Binary64.unitsPerOne := by decide +kernel
    generalize Binary64.unitsPerOne = u at hunits ⊢
    generalize Binary64.signedUnits true _ = k at hunits ⊢
    have hrat : (k : ℚ) * 2 = -25 * u := by exact_mod_cast hunits
    linarith
  have hcut : towardZero (-25 / 2) = -12 := by
    rw [towardZero]
    norm_num
  have htext : format (.finite false 0x3E8421F5F40D8376) = "1.5E-07" := by decide +kernel
  have hlarge : ¬ IsModerate (.finite false 0x3E8421F5F40D8376) := by
    rw [← Layout.isPositional_iff]
    decide +kernel
  have hrange : inRange (towardZero (-25 / 2)) = true := by
    rw [hcut]
    decide
  obtain ⟨t, ht, -, hscientific, x, hx, hnearest⟩ :=
    (superSum_reads_joined_number.1 _ (.finite false 0x3E8421F5F40D8376)).2 _ hvalue hrange rfl rfl
  obtain ⟨z, -, -, -, -, hint, hdouble, -⟩ :=
    (superSum_reads_joined_number.2 (-2147483648) 0 (by decide) (by decide)).2 le_rfl
  rw [hcut] at hnearest
  exact ⟨hvalue, hrange, ⟨t, x, ht.symm.trans htext, hscientific hlarge, hx,
    (hnearest x).2 rfl⟩, by decide, by decide, z, hint, hdouble⟩

end JoinedNumbers

end InfixArithmetic
