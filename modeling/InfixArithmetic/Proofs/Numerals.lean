/-
  InfixArithmetic.Proofs.Numerals

  What `Numeral.read?` makes of texts.

  A numeral is cut from the left: the sign, the run of digits, the point with the run
  after it, the exponent.  Each run is found by `takeDigits_run`, which needs it to be
  followed by something that is no digit.  The number that a run of ASCII digits denotes
  is the library's `Nat.ofDigitChars`, so its laws for appending runs and for
  `Nat.toDigits` apply.
-/

import InfixArithmetic.Decimal.Numeral
import Mathlib.Data.List.Basic

namespace InfixArithmetic.Numeral

open Text (digitValue?)

/-- A run of decimal digits of any script, possibly empty. -/
def IsRun (cs : List Char) : Prop := ∀ c ∈ cs, (digitValue? c).isSome = true

instance (cs : List Char) : Decidable (IsRun cs) :=
  List.decidableBAll (fun c : Char => (digitValue? c).isSome = true) cs

/-- A run of ASCII digits, possibly empty. -/
def AllDigits (cs : List Char) : Prop := ∀ c ∈ cs, c.isDigit = true

instance (cs : List Char) : Decidable (AllDigits cs) :=
  List.decidableBAll (fun c : Char => c.isDigit = true) cs

/-- The text is empty or starts with something that is no digit. -/
def StopsDigits (cs : List Char) : Prop := ∀ c ∈ cs.head?, digitValue? c = none

/-- The text is empty or starts with a digit or the point. -/
def StartsUnsigned (cs : List Char) : Prop :=
  ∀ c ∈ cs.head?, (digitValue? c).isSome = true ∨ c = '.'

/-! ## Runs of digits -/

section Runs

variable {cs ds rest : List Char}

theorem isRun_nil : IsRun [] := by simp [IsRun]

theorem isRun_cons {c : Char} : IsRun (c :: cs) ↔ (digitValue? c).isSome = true ∧ IsRun cs := by
  simp [IsRun]

theorem isRun_append : IsRun (cs ++ ds) ↔ IsRun cs ∧ IsRun ds := by
  simp [IsRun, or_imp, forall_and]

theorem stopsDigits_nil : StopsDigits [] := by simp [StopsDigits]

theorem stopsDigits_cons {c : Char} : StopsDigits (c :: cs) ↔ digitValue? c = none := by
  simp [StopsDigits]

/-- A run is read to its end and no further. -/
theorem takeDigits_run (hcs : IsRun cs) (hrest : StopsDigits rest) :
    takeDigits (cs ++ rest) = (cs.filterMap digitValue?, rest) := by
  induction cs with
  | nil =>
    cases rest with
    | nil => rfl
    | cons c rest =>
      rw [stopsDigits_cons] at hrest
      simp [takeDigits, hrest]
  | cons c cs ih =>
    rw [isRun_cons] at hcs
    obtain ⟨d, hd⟩ := Option.isSome_iff_exists.1 hcs.1
    simp [takeDigits, hd, ih hcs.2]

theorem filterMap_eq_nil_iff (hcs : IsRun cs) : cs.filterMap digitValue? = [] ↔ cs = [] := by
  rw [List.filterMap_eq_nil_iff]
  constructor
  · intro h
    refine List.eq_nil_iff_forall_not_mem.2 fun c hc => ?_
    simpa [h c hc] using hcs c hc
  · rintro rfl c hc
    cases hc

theorem length_filterMap (hcs : IsRun cs) : (cs.filterMap digitValue?).length = cs.length := by
  rw [List.filterMap_length_eq_length]
  exact hcs

end Runs

/-! ## ASCII digits -/

theorem allDigits_nil : AllDigits [] := by simp [AllDigits]

theorem allDigits_cons {c : Char} {cs : List Char} :
    AllDigits (c :: cs) ↔ c.isDigit = true ∧ AllDigits cs := by
  simp [AllDigits]

theorem allDigits_append {cs ds : List Char} :
    AllDigits (cs ++ ds) ↔ AllDigits cs ∧ AllDigits ds := by
  simp [AllDigits, or_imp, forall_and]

theorem allDigits_replicate_zero (n : Nat) : AllDigits (List.replicate n '0') := by
  intro c hc
  rw [List.eq_of_mem_replicate hc]
  rfl

theorem allDigits_toDigits (n : Nat) : AllDigits (Nat.toDigits 10 n) :=
  fun _ hc => Nat.isDigit_of_mem_toDigits (by decide) (by decide) hc

theorem digitValue?_of_isDigit {c : Char} (h : c.isDigit = true) :
    digitValue? c = some (c.toNat - 48) := by
  apply Text.digitValue?_ascii
  simpa [Char.isDigit, Char.le_def] using h

theorem AllDigits.filterMap_digitValue? {cs : List Char} (h : AllDigits cs) :
    cs.filterMap digitValue? = cs.map (·.toNat - 48) := by
  rw [← List.filterMap_eq_map, List.filterMap_congr fun c hc => digitValue?_of_isDigit (h c hc)]
  rfl

theorem AllDigits.isRun {cs : List Char} (h : AllDigits cs) : IsRun cs := by
  intro c hc
  rw [digitValue?_of_isDigit (h c hc)]
  rfl

/-- The number of a run. -/
theorem AllDigits.ofDigits_filterMap {cs : List Char} (h : AllDigits cs) :
    ofDigits (cs.filterMap digitValue?) = Nat.ofDigitChars 10 cs 0 := by
  rw [h.filterMap_digitValue?, ofDigits, List.foldl_map, Nat.ofDigitChars_eq_foldl]
  rfl

/-! ## Digits with a point -/

/-- Digits, then a fraction as it is read, then perhaps an exponent. -/
theorem readDecimal?_append {whole fraction rest after : List Char} (hwhole : IsRun whole)
    (hfraction : IsRun fraction) (hrest : StopsDigits rest)
    (hread : takeFraction rest = (fraction.filterMap digitValue?, after)) :
    readDecimal? (whole ++ rest)
      = if whole ++ fraction = [] then none
        else (readExponent? after).map fun e =>
          ⟨ofDigits ((whole ++ fraction).filterMap digitValue?), e - fraction.length⟩ := by
  rw [readDecimal?, takeDigits_run hwhole hrest]
  simp only [hread, ← List.filterMap_append,
    filterMap_eq_nil_iff (isRun_append.2 ⟨hwhole, hfraction⟩), length_filterMap hfraction]

/-- Digits without a point, then perhaps an exponent. -/
theorem readDecimal?_whole {whole rest : List Char} (hwhole : AllDigits whole)
    (hrest : StopsDigits rest) (hpoint : '.' ∉ rest.head?) :
    readDecimal? (whole ++ rest)
      = if whole = [] then none
        else (readExponent? rest).map fun e => ⟨Nat.ofDigitChars 10 whole 0, e⟩ := by
  have hfraction : takeFraction rest = ([], rest) := by
    rw [takeFraction]
    rintro cs rfl
    exact hpoint rfl
  rw [readDecimal?_append hwhole.isRun isRun_nil hrest hfraction, List.append_nil,
    hwhole.ofDigits_filterMap]
  simp

/-- Digits with a point, then perhaps an exponent. -/
theorem readDecimal?_fraction {whole fraction rest : List Char} (hwhole : AllDigits whole)
    (hfraction : AllDigits fraction) (hrest : StopsDigits rest) :
    readDecimal? (whole ++ '.' :: (fraction ++ rest))
      = if whole ++ fraction = [] then none
        else (readExponent? rest).map fun e =>
          ⟨Nat.ofDigitChars 10 (whole ++ fraction) 0, e - fraction.length⟩ := by
  have hread : takeFraction ('.' :: (fraction ++ rest)) = (fraction.filterMap digitValue?, rest) :=
    takeDigits_run hfraction.isRun hrest
  rw [readDecimal?_append hwhole.isRun hfraction.isRun (stopsDigits_cons.2 (by decide)) hread,
    (allDigits_append.2 ⟨hwhole, hfraction⟩).ofDigits_filterMap]

/-! ## Signs -/

/-- The sign in front of a number. -/
inductive Sign where
  | none
  | plus
  | minus
deriving DecidableEq

namespace Sign

def text : Sign → List Char
  | none => []
  | plus => ['+']
  | minus => ['-']

def isMinus : Sign → Bool
  | minus => true
  | _ => false

/-- A number with the sign. -/
def apply (sign : Sign) (i : Int) : Int := if sign.isMinus then -i else i

end Sign

section Signs

variable {cs : List Char} (sign : Sign)

/-- A sign is read before anything that does not start with one. -/
theorem takeSign_text (h : ∀ c ∈ cs.head?, c ≠ '+' ∧ c ≠ '-') :
    takeSign (sign.text ++ cs) = (sign.isMinus, cs) := by
  cases sign with
  | plus | minus => rfl
  | none =>
    rw [Sign.text, List.nil_append, takeSign]
    · rfl
    · rintro ds rfl
      exact (h '-' rfl).2 rfl
    · rintro ds rfl
      exact (h '+' rfl).1 rfl

/-- A sign is read before a digit or the point. -/
theorem StartsUnsigned.takeSign (h : StartsUnsigned cs) :
    takeSign (sign.text ++ cs) = (sign.isMinus, cs) := by
  refine takeSign_text sign fun c hc => ⟨?_, ?_⟩
  all_goals
    rintro rfl
    exact absurd (h _ hc) (by decide)

end Signs

/-! ## Exponents -/

/-- A run starts with a digit. -/
theorem IsRun.startsUnsigned {cs : List Char} (h : IsRun cs) : StartsUnsigned cs :=
  fun c hc => .inl (h c (List.mem_of_mem_head? hc))

/-- An exponent of at least one digit after its mark and its sign. -/
theorem readExponent?_run {mark : Char} {ds : List Char} (sign : Sign)
    (hmark : mark = 'e' ∨ mark = 'E') (hds : IsRun ds) (hne : ds ≠ []) :
    readExponent? (mark :: (sign.text ++ ds))
      = some (sign.apply (ofDigits (ds.filterMap digitValue?))) := by
  have hdigits := takeDigits_run hds stopsDigits_nil
  rw [List.append_nil] at hdigits
  -- `readExponent?` matches on the digits, so the first of them has to be seen.
  obtain ⟨d, ds', hcons⟩ := List.exists_cons_of_ne_nil (mt (filterMap_eq_nil_iff hds).1 hne)
  rw [hcons] at hdigits
  rw [readExponent?, if_pos hmark, hds.startsUnsigned.takeSign sign]
  simp only [hdigits, hcons]
  rfl

/-- The same with ASCII digits and a sign that is not left out. -/
theorem readExponent?_signed {mark : Char} {negative : Bool} {ds : List Char}
    (hmark : mark = 'e' ∨ mark = 'E') (hds : AllDigits ds) (hne : ds ≠ []) :
    readExponent? (mark :: (if negative then '-' else '+') :: ds)
      = some (if negative then -(Nat.ofDigitChars 10 ds 0 : Int) else Nat.ofDigitChars 10 ds 0) := by
  have hread (sign : Sign) := readExponent?_run sign hmark hds.isRun hne
  rw [hds.ofDigits_filterMap] at hread
  cases negative with
  | false => exact hread .plus
  | true => exact hread .minus

/-! ## Words -/

/-- A text that starts with a digit or the point is none of the words. -/
theorem StartsUnsigned.read? {cs : List Char} (h : StartsUnsigned cs) (sign : Sign) :
    read? (sign.text ++ cs) = (readDecimal? cs).map (decimal sign.isMinus) := by
  -- The words start with a letter, and lowering the case leaves digits and the point alone.
  have hword (w : Char) (hw : w = 'i' ∨ w = 'n') (ws : List Char) :
      cs.map Char.toLower ≠ w :: ws := by
    cases cs with
    | nil => simp
    | cons c cs =>
      have hc : (digitValue? c).isSome = true ∨ c = '.' := h c rfl
      have hlower : c.toLower = c := by
        rcases hc with hc | rfl
        · exact Text.toLower_of_digitValue? hc
        · rfl
      rw [List.map_cons, hlower]
      rintro ⟨⟩
      rcases hw with rfl | rfl <;> exact absurd hc (by decide)
  have hinf : cs.map Char.toLower ∉ infinityWords := by
    simp only [infinityWords, List.mem_cons, List.not_mem_nil, or_false, not_or]
    exact ⟨hword 'i' (.inl rfl) _, hword 'i' (.inl rfl) _⟩
  have hnan : cs.map Char.toLower ≠ "nan".toList := hword 'n' (.inr rfl) _
  rw [Numeral.read?, h.takeSign sign]
  simp only [if_neg hinf, if_neg hnan]

/-- An unsigned numeral of ASCII digits, and the same after a minus. -/
theorem read?_of_unsigned {cs : List Char}
    (h : ∀ c ∈ cs.head?, c.isDigit = true ∨ c = '.') :
    read? cs = (readDecimal? cs).map (decimal false) ∧
      read? ('-' :: cs) = (readDecimal? cs).map (decimal true) := by
  have hstarts : StartsUnsigned cs := by
    intro c hc
    refine (h c hc).imp_left fun hdigit => ?_
    rw [digitValue?_of_isDigit hdigit]
    rfl
  exact ⟨hstarts.read? .none, hstarts.read? .minus⟩

/-! ## Blanks -/

theorem isBlank_of_isDigit {c : Char} (h : c.isDigit = true) : Text.isBlank c = false := by
  have hrange : 48 ≤ c.toNat ∧ c.toNat ≤ 57 := by
    simpa [Char.isDigit, UInt32.le_iff_toNat_le] using h
  simp only [Text.isBlank, Bool.or_eq_false_iff, Bool.and_eq_false_iff, decide_eq_false_iff_not,
    beq_eq_false_iff_ne]
  omega

/-- A text without blanks is read as it is. -/
theorem parse?_ofList {cs : List Char} (h : ∀ c ∈ cs, Text.isBlank c = false) :
    parse? (String.ofList cs) = (read? cs).map toBinary64 := by
  have hdrop (ds : List Char) (hds : ∀ c ∈ ds, Text.isBlank c = false) :
      ds.dropWhile Text.isBlank = ds := by
    cases ds with
    | nil => rfl
    | cons d ds => simp [hds d (by simp)]
  have htrim : Text.trim cs = cs := by
    rw [Text.trim, Text.trimBy, hdrop cs h, hdrop cs.reverse (by simpa using h),
      List.reverse_reverse]
  rw [parse?, String.toList_ofList, htrim]

end InfixArithmetic.Numeral
