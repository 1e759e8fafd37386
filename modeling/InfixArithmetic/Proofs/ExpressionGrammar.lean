/-
  InfixArithmetic.Proofs.ExpressionGrammar

  `Expression.scan` against the grammar of expression texts:

    expression = literal (operator literal)*
    literal    = an optional minus, then digits with at most one point among them
                 and at least one digit

  A `Chain Operator (List Char)` is a division of a text into literals and
  operators, and `written` puts it together again.  The longest run of digits and
  points that the scanner takes is the only literal that an operator can follow
  (`takeLiteral_append_of_stops`), so the scanner finds the division if there is one
  and no text has two.
-/

import InfixArithmetic.Expression.Scan
import InfixArithmetic.Operation.NumberText
import InfixArithmetic.Proofs.Numerals

namespace InfixArithmetic.ExpressionGrammar

open Expression (isLiteralChar takeRun takeLiteral literalValue? scanFrom scan Scanned)
open Numeral (AllDigits StopsDigits allDigits_cons stopsDigits_cons readDecimal?)
open Text (squeeze isBlank)

/-! ## The grammar -/

/-- Digits with at most one point among them, at least one digit. -/
structure IsUnsigned (cs : List Char) : Prop where
  chars : ∀ c ∈ cs, c.isDigit = true ∨ c = '.'
  point : cs.count '.' ≤ 1
  digit : ∃ c ∈ cs, c.isDigit = true

/-- An unsigned literal, or one after a minus. -/
inductive IsLiteral : List Char → Prop where
  | unsigned {cs : List Char} (h : IsUnsigned cs) : IsLiteral cs
  | minus {cs : List Char} (h : IsUnsigned cs) : IsLiteral ('-' :: cs)

/-- A division of a text: literals with an operator between each two neighbours. -/
def IsExpression (d : Chain Operator (List Char)) : Prop := ∀ l ∈ d.numbers, IsLiteral l

/-- What is written after the first literal. -/
def writtenAfter (links : List (Operator × List Char)) : List Char :=
  links.flatMap fun (o, l) => o.symbol :: l

/-- The text that is divided. -/
def written (d : Chain Operator (List Char)) : List Char := d.first ++ writtenAfter d.links

/-! ## Literals -/

/-- The text is empty or starts with something that continues no literal. -/
def StopsLiteral (cs : List Char) : Prop := ∀ c ∈ cs.head?, isLiteralChar c = false

theorem isLiteralChar_iff {c : Char} :
    isLiteralChar c = true ↔ c.isDigit = true ∨ c = '.' := by
  simp [isLiteralChar, Char.isDigit, Char.le_def]

theorem takeRun_append_of_stops {cs rest : List Char}
    (hcs : ∀ c ∈ cs, c.isDigit = true ∨ c = '.') (hrest : StopsLiteral rest) :
    takeRun (cs ++ rest) = (cs, rest) := by
  induction cs with
  | nil =>
    cases rest with
    | nil => rfl
    | cons c rest =>
      have hc : isLiteralChar c = false := hrest c rfl
      simp [takeRun, hc]
  | cons c cs ih =>
    have hc : isLiteralChar c = true := isLiteralChar_iff.2 (hcs c (by simp))
    have hrun := ih fun d hd => hcs d (by simp [hd])
    simp [takeRun, hc, hrun]

/-- The run that is taken consists of digits and points. -/
theorem takeRun_chars (cs : List Char) :
    ∀ c ∈ (takeRun cs).1, c.isDigit = true ∨ c = '.' := by
  induction cs with
  | nil => simp [takeRun]
  | cons c cs ih =>
    rw [takeRun]
    split
    next h =>
      intro d hd
      rcases List.mem_cons.1 hd with rfl | hd
      · exact isLiteralChar_iff.1 h
      · exact ih d hd
    next h => simp

/-- What the scanner takes is a run, with or without a minus in front of it. -/
theorem takeLiteral_shape (cs : List Char) :
    ∃ body, (∀ c ∈ body, c.isDigit = true ∨ c = '.') ∧
      ((takeLiteral cs).1 = body ∨ (takeLiteral cs).1 = '-' :: body) := by
  cases cs with
  | nil => exact ⟨[], by simp, .inl rfl⟩
  | cons c cs =>
    rw [takeLiteral]
    split
    next h => exact ⟨(takeRun cs).1, takeRun_chars cs, .inr (by rw [h])⟩
    next h => exact ⟨(takeRun (c :: cs)).1, takeRun_chars (c :: cs), .inl rfl⟩

theorem IsUnsigned.ne_nil {cs : List Char} (h : IsUnsigned cs) : cs ≠ [] := by
  obtain ⟨c, hc, -⟩ := h.digit
  exact List.ne_nil_of_mem hc

theorem IsLiteral.ne_nil {cs : List Char} (h : IsLiteral cs) : cs ≠ [] := by
  cases h with
  | unsigned h => exact h.ne_nil
  | minus h => simp

/-- A literal is taken whole if nothing after it continues it. -/
theorem takeLiteral_append_of_stops {l rest : List Char} (hl : IsLiteral l)
    (hrest : StopsLiteral rest) : takeLiteral (l ++ rest) = (l, rest) := by
  cases hl with
  | unsigned h =>
    obtain ⟨c, cs, rfl⟩ := List.exists_cons_of_ne_nil h.ne_nil
    have hc : c ≠ '-' := by
      rintro rfl
      exact absurd (h.chars '-' (by simp)) (by decide)
    have hrun := takeRun_append_of_stops h.chars hrest
    simpa [takeLiteral, hc] using hrun
  | minus h => simp [takeLiteral, takeRun_append_of_stops h.chars hrest]

/-! ## The numerals among the runs -/

/-- An unsigned literal cut at its point. -/
theorem IsUnsigned.cut {cs : List Char} (h : IsUnsigned cs) :
    ∃ whole fraction, AllDigits whole ∧ AllDigits fraction ∧ whole ++ fraction ≠ [] ∧
      (cs = whole ∧ fraction = [] ∨ cs = whole ++ '.' :: fraction) := by
  obtain ⟨c, hc, hdigit⟩ := h.digit
  -- The point, if there is one, is the only one, so both parts are digits.
  by_cases hpoint : '.' ∈ cs
  · obtain ⟨whole, fraction, rfl⟩ := List.append_of_mem hpoint
    have hcount := h.point
    rw [List.count_append, List.count_cons_self] at hcount
    have hwhole : '.' ∉ whole := List.count_eq_zero.1 (by omega)
    have hfraction : '.' ∉ fraction := List.count_eq_zero.1 (by omega)
    refine ⟨whole, fraction, ?_, ?_, ?_, .inr rfl⟩
    · intro d hd
      exact (h.chars d (by simp [hd])).resolve_right (by rintro rfl; exact hwhole hd)
    · intro d hd
      exact (h.chars d (by simp [hd])).resolve_right (by rintro rfl; exact hfraction hd)
    · have hne : c ≠ '.' := by
        rintro rfl
        exact absurd hdigit (by decide)
      have hmem : c ∈ whole ++ fraction := by simpa [hne] using hc
      exact List.ne_nil_of_mem hmem
  · refine ⟨cs, [], ?_, Numeral.allDigits_nil, by simpa using h.ne_nil, .inl ⟨rfl, rfl⟩⟩
    intro d hd
    exact (h.chars d hd).resolve_right (by rintro rfl; exact hpoint hd)

/-- An unsigned literal is a numeral. -/
theorem IsUnsigned.readDecimal? {cs : List Char} (h : IsUnsigned cs) :
    ∃ d, Numeral.readDecimal? cs = some d := by
  obtain ⟨whole, fraction, hwhole, hfraction, hne, ⟨rfl, rfl⟩ | rfl⟩ := h.cut
  · have hread := Numeral.readDecimal?_whole hwhole Numeral.stopsDigits_nil (by simp)
    rw [List.append_nil, if_neg (by simpa using hne)] at hread
    exact ⟨_, hread⟩
  · have hread := Numeral.readDecimal?_fraction hwhole hfraction Numeral.stopsDigits_nil
    rw [List.append_nil, if_neg hne] at hread
    exact ⟨_, hread⟩

/-- A run of digits and points that starts with no digit starts with a point. -/
theorem run_after_digits {cs : List Char} (hcs : ∀ c ∈ cs, c.isDigit = true ∨ c = '.') :
    ∃ digits rest, AllDigits digits ∧ cs = digits ++ rest ∧
      (rest = [] ∨ ∃ after, rest = '.' :: after) := by
  induction cs with
  | nil => exact ⟨[], [], Numeral.allDigits_nil, rfl, .inl rfl⟩
  | cons c cs ih =>
    obtain ⟨digits, rest, hdigits, rfl, hrest⟩ := ih fun d hd => hcs d (by simp [hd])
    rcases hcs c (by simp) with hc | rfl
    · exact ⟨c :: digits, rest, allDigits_cons.2 ⟨hc, hdigits⟩, rfl, hrest⟩
    · exact ⟨[], '.' :: (digits ++ rest), Numeral.allDigits_nil, rfl, .inr ⟨_, rfl⟩⟩

theorem count_point_of_allDigits {ds : List Char} (h : AllDigits ds) : ds.count '.' = 0 :=
  List.count_eq_zero.2 fun hmem => absurd (h '.' hmem) (by decide)

theorem isUnsigned_digits {ds : List Char} (h : AllDigits ds) (hne : ds ≠ []) :
    IsUnsigned ds := by
  obtain ⟨c, hc⟩ := List.exists_mem_of_ne_nil ds hne
  exact ⟨fun d hd => .inl (h d hd), by rw [count_point_of_allDigits h]; decide, c, hc, h c hc⟩

theorem isUnsigned_point {whole fraction : List Char} (hwhole : AllDigits whole)
    (hfraction : AllDigits fraction) (hne : whole ++ fraction ≠ []) :
    IsUnsigned (whole ++ '.' :: fraction) := by
  have hdigits : AllDigits (whole ++ fraction) :=
    Numeral.allDigits_append.2 ⟨hwhole, hfraction⟩
  obtain ⟨c, hc⟩ := List.exists_mem_of_ne_nil _ hne
  refine ⟨?_, ?_, c, ?_, hdigits c hc⟩
  · intro d hd
    rcases List.mem_append.1 hd with hd | hd
    · exact .inl (hwhole d hd)
    · rcases List.mem_cons.1 hd with rfl | hd
      · exact .inr rfl
      · exact .inl (hfraction d hd)
  · have hwholeCount := count_point_of_allDigits hwhole
    have hfractionCount := count_point_of_allDigits hfraction
    rw [List.count_append, List.count_cons_self]
    omega
  · rcases List.mem_append.1 hc with hc | hc <;> simp [hc]

/-- A run of digits and points that is a numeral is an unsigned literal. -/
theorem isUnsigned_of_readDecimal? {cs : List Char} {d : Decimal}
    (hcs : ∀ c ∈ cs, c.isDigit = true ∨ c = '.') (h : Numeral.readDecimal? cs = some d) :
    IsUnsigned cs := by
  obtain ⟨whole, rest, hwhole, rfl, rfl | ⟨after, rfl⟩⟩ := run_after_digits hcs
  · rw [Numeral.readDecimal?_whole hwhole Numeral.stopsDigits_nil (by simp)] at h
    have hne : whole ≠ [] := by
      rintro rfl
      simp at h
    rw [List.append_nil]
    exact isUnsigned_digits hwhole hne
  · have hafter : ∀ c ∈ after, c.isDigit = true ∨ c = '.' := fun c hc => hcs c (by simp [hc])
    obtain ⟨fraction, rest, hfraction, rfl, hrest⟩ := run_after_digits hafter
    have hstop : StopsDigits rest := by
      rcases hrest with rfl | ⟨after, rfl⟩
      · exact Numeral.stopsDigits_nil
      · rw [stopsDigits_cons]
        decide
    rw [Numeral.readDecimal?_fraction hwhole hfraction hstop] at h
    have hne : whole ++ fraction ≠ [] := by
      intro hnil
      simp [hnil] at h
    -- A second point is no exponent, so nothing is left after the fraction.
    have hnil : rest = [] := by
      rcases hrest with rfl | ⟨after, rfl⟩
      · rfl
      · simp [hne, Numeral.readExponent?] at h
    rw [hnil, List.append_nil]
    exact isUnsigned_point hwhole hfraction hne

theorem read?_run {cs : List Char} (hcs : ∀ c ∈ cs, c.isDigit = true ∨ c = '.') :
    Numeral.read? cs = (Numeral.readDecimal? cs).map (.decimal false) ∧
      Numeral.read? ('-' :: cs) = (Numeral.readDecimal? cs).map (.decimal true) :=
  Numeral.read?_of_unsigned fun c hc => hcs c (List.mem_of_mem_head? hc)

/-- Every literal has a value. -/
theorem IsLiteral.value {l : List Char} (h : IsLiteral l) : ∃ x, literalValue? l = some x := by
  cases h with
  | unsigned h =>
    obtain ⟨d, hd⟩ := h.readDecimal?
    exact ⟨d.toBinary64 false, by simp [literalValue?, (read?_run h.chars).1, hd,
      Numeral.toBinary64]⟩
  | minus h =>
    obtain ⟨d, hd⟩ := h.readDecimal?
    exact ⟨d.toBinary64 true, by simp [literalValue?, (read?_run h.chars).2, hd,
      Numeral.toBinary64]⟩

/-- What the scanner takes is a literal if it has a value. -/
theorem isLiteral_takeLiteral {cs : List Char} {x : Binary64}
    (h : literalValue? (takeLiteral cs).1 = some x) : IsLiteral (takeLiteral cs).1 := by
  obtain ⟨body, hbody, heq | heq⟩ := takeLiteral_shape cs
  · rw [heq, literalValue?, (read?_run hbody).1] at h
    cases hd : Numeral.readDecimal? body with
    | none => simp [hd] at h
    | some d => exact heq ▸ .unsigned (isUnsigned_of_readDecimal? hbody hd)
  · rw [heq, literalValue?, (read?_run hbody).2] at h
    cases hd : Numeral.readDecimal? body with
    | none => simp [hd] at h
    | some d => exact heq ▸ .minus (isUnsigned_of_readDecimal? hbody hd)

theorem isBlank_of_run {c : Char} (h : c.isDigit = true ∨ c = '.') : isBlank c = false := by
  rcases h with h | rfl
  · exact Numeral.isBlank_of_isDigit h
  · rfl

/-- As a text of its own a literal holds the value that the scanner gives it. -/
theorem IsLiteral.parse {l : List Char} (h : IsLiteral l) {x : Binary64}
    (hx : literalValue? l = some x) : NumberText.parse (.text (String.ofList l)) = .ok x := by
  have hblank : ∀ c ∈ l, isBlank c = false := by
    cases h with
    | unsigned h => exact fun c hc => isBlank_of_run (h.chars c hc)
    | minus h =>
      intro c hc
      rcases List.mem_cons.1 hc with rfl | hc
      · rfl
      · exact isBlank_of_run (h.chars c hc)
  rw [literalValue?] at hx
  simp only [NumberText.parse, Numeral.parse?_ofList hblank, hx]

/-! ## From the grammar to the scanner -/

theorem isLiteralChar_symbol (o : Operator) : isLiteralChar o.symbol = false := by
  cases o <;> rfl

theorem stopsLiteral_writtenAfter (links : List (Operator × List Char)) :
    StopsLiteral (writtenAfter links) := by
  cases links with
  | nil => simp [StopsLiteral, writtenAfter]
  | cons link links => simp [StopsLiteral, writtenAfter, isLiteralChar_symbol]

theorem written_cons (l : List Char) (o : Operator) (d : Chain Operator (List Char)) :
    written (d.cons l o) = l ++ o.symbol :: written d := by
  simp [written, writtenAfter, Chain.cons]

theorem isExpression_cons {l k : List Char} {o : Operator} {links : List (Operator × List Char)} :
    IsExpression ⟨l, (o, k) :: links⟩ ↔ IsLiteral l ∧ IsExpression ⟨k, links⟩ := by
  simp [IsExpression, Chain.numbers]

theorem IsExpression.first {d : Chain Operator (List Char)} (hd : IsExpression d) :
    IsLiteral d.first := hd d.first (by simp [Chain.numbers])

theorem written_ne_nil {d : Chain Operator (List Char)} (hd : IsExpression d) :
    written d ≠ [] := by
  have hfirst : d.first ≠ [] := hd.first.ne_nil
  simp [written, hfirst]

/-- One turn of the scanner, on what it takes as a literal and what is left. -/
def turn (position : Nat) (literal rest : List Char) : Except FormatFault Scanned :=
  match literalValue? literal, rest with
  | none, _ => .error (.invalidNumber position)
  | some x, [] => .ok ⟨⟨x, position⟩, []⟩
  | some x, c :: after =>
    match Operator.ofSymbol? c with
    | none => .error (.invalidOperator (position + literal.length))
    | some o =>
      if after = [] then .error .unbalanced
      else (scanFrom (position + literal.length + 1) after).map
        (Chain.cons ⟨x, position⟩ ⟨o, position + literal.length⟩)

theorem scanFrom_eq_turn (position : Nat) (cs : List Char) :
    scanFrom position cs = turn position (takeLiteral cs).1 (takeLiteral cs).2 := by
  rw [scanFrom]
  unfold turn
  cases literalValue? (takeLiteral cs).1 with
  | none => rfl
  | some x =>
    dsimp only
    split
    next hnil => rw [hnil]
    next c after hcons =>
      cases ho : Operator.ofSymbol? c with
      | none => simp only [hcons, ho]
      | some o => simp only [hcons, ho]

/-- A literal at the end of a text. -/
theorem scanFrom_literal {l : List Char} (hl : IsLiteral l) {x : Binary64}
    (hx : literalValue? l = some x) (position : Nat) :
    scanFrom position l = .ok ⟨⟨x, position⟩, []⟩ := by
  have htake := takeLiteral_append_of_stops hl (stopsLiteral_writtenAfter [])
  rw [writtenAfter, List.flatMap_nil, List.append_nil] at htake
  rw [scanFrom_eq_turn, htake]
  simp only [turn, hx]

/-- A literal, an operator and something else. -/
theorem scanFrom_literal_operator {l rest : List Char} (hl : IsLiteral l) {x : Binary64}
    (hx : literalValue? l = some x) (o : Operator) (hrest : rest ≠ []) (position : Nat) :
    scanFrom position (l ++ o.symbol :: rest)
      = (scanFrom (position + l.length + 1) rest).map
          (Chain.cons ⟨x, position⟩ ⟨o, position + l.length⟩) := by
  have hstop : StopsLiteral (o.symbol :: rest) := by simp [StopsLiteral, isLiteralChar_symbol]
  have htake := takeLiteral_append_of_stops hl hstop
  rw [scanFrom_eq_turn, htake]
  simp only [turn, hx, Operator.ofSymbol?_symbol, if_neg hrest]

/-- The scanner finds a division into literals and operators wherever it starts to
    count. -/
theorem scanFrom_written (d : Chain Operator (List Char)) (hd : IsExpression d)
    (position : Nat) :
    ∃ c, scanFrom position (written d) = .ok c ∧
      c.values.map .ok = d.numbers.map (fun l => NumberText.parse (.text (String.ofList l))) ∧
      c.symbols = d.operators := by
  obtain ⟨l, links⟩ := d
  induction links generalizing l position with
  | nil =>
    have hl : IsLiteral l := hd.first
    obtain ⟨x, hx⟩ := hl.value
    refine ⟨⟨⟨x, position⟩, []⟩, ?_, ?_, rfl⟩
    · simpa [written, writtenAfter] using scanFrom_literal hl hx position
    · simp [Chain.values, Chain.numbers, hl.parse hx]
  | cons link links ih =>
    obtain ⟨o, k⟩ := link
    obtain ⟨hl, hrest⟩ := isExpression_cons.1 hd
    obtain ⟨x, hx⟩ := hl.value
    -- The rest is scanned from the place after the operator.
    obtain ⟨c, hc, hvalues, hsymbols⟩ := ih (position + l.length + 1) k hrest
    refine ⟨c.cons ⟨x, position⟩ ⟨o, position + l.length⟩, ?_, ?_, ?_⟩
    · have hcons := written_cons l o ⟨k, links⟩
      rw [Chain.cons] at hcons
      rw [hcons, scanFrom_literal_operator hl hx o (written_ne_nil hrest), hc]
      rfl
    · simpa [Chain.values, Chain.numbers, Chain.cons, hl.parse hx] using hvalues
    · simpa [Chain.symbols, Chain.operators, Chain.cons] using hsymbols

/-! ## From the scanner to the grammar -/

/-- What a turn has found if it and all turns after it succeed. -/
theorem turn_eq_ok {position : Nat} {literal rest : List Char} {c : Scanned}
    (h : turn position literal rest = .ok c) :
    (∃ x, literalValue? literal = some x) ∧
      (rest = [] ∨ ∃ o after c', rest = Operator.symbol o :: after ∧
        scanFrom (position + literal.length + 1) after = .ok c') := by
  unfold turn at h
  cases hx : literalValue? literal with
  | none => simp [hx] at h
  | some x =>
    refine ⟨⟨x, rfl⟩, ?_⟩
    cases rest with
    | nil => exact .inl rfl
    | cons s after =>
      rw [hx] at h
      cases ho : Operator.ofSymbol? s with
      | none => simp [ho] at h
      | some o =>
        by_cases hafter : after = []
        · simp [ho, hafter] at h
        · simp only [ho, if_neg hafter] at h
          cases hscan : scanFrom (position + literal.length + 1) after with
          | error fault => simp [hscan, Except.map] at h
          | ok c' => exact .inr ⟨o, after, c', by rw [Operator.symbol_of_ofSymbol? ho], hscan⟩

/-- A text that the scanner accepts is divided into literals and operators. -/
theorem exists_written_of_scanFrom {position : Nat} {cs : List Char} {c : Scanned}
    (h : scanFrom position cs = .ok c) :
    ∃ d : Chain Operator (List Char), IsExpression d ∧ written d = cs := by
  -- The induction is on the length of the text: what is left after an operator is shorter.
  induction hn : cs.length using Nat.strongRecOn generalizing position cs c with
  | _ n ih =>
    have happend := Expression.takeLiteral_append cs
    rw [scanFrom_eq_turn] at h
    obtain ⟨⟨x, hx⟩, hrest⟩ := turn_eq_ok h
    have hl := isLiteral_takeLiteral hx
    rcases hrest with hrest | ⟨o, after, c', hrest, hc'⟩
    · refine ⟨⟨(takeLiteral cs).1, []⟩, ?_, ?_⟩
      · simpa [IsExpression, Chain.numbers] using hl
      · simpa [written, writtenAfter, hrest] using happend
    · have hlen : after.length < n := by
        rw [← hn, ← happend, hrest, List.length_append, List.length_cons]
        omega
      obtain ⟨d, hd, hwritten⟩ := ih after.length hlen hc' rfl
      refine ⟨d.cons (takeLiteral cs).1 o, ?_, ?_⟩
      · exact isExpression_cons.2 ⟨hl, hd⟩
      · rw [written_cons, hwritten, ← hrest, happend]

/-! ## Uniqueness -/

/-- A text is divided in one way only: the first literal is what the scanner takes. -/
theorem written_injective {d e : Chain Operator (List Char)} (hd : IsExpression d)
    (he : IsExpression e) (h : written d = written e) : d = e := by
  obtain ⟨l, links⟩ := d
  obtain ⟨k, others⟩ := e
  induction links generalizing l k others with
  | nil =>
    have hl := takeLiteral_append_of_stops hd.first (stopsLiteral_writtenAfter [])
    have hk := takeLiteral_append_of_stops he.first (stopsLiteral_writtenAfter others)
    simp only [written] at h
    rw [h, hk] at hl
    obtain ⟨rfl, hothers⟩ := Prod.mk.inj hl
    cases others with
    | nil => rfl
    | cons other others => simp [writtenAfter] at hothers
  | cons link links ih =>
    obtain ⟨o, m⟩ := link
    have hl := takeLiteral_append_of_stops hd.first (stopsLiteral_writtenAfter ((o, m) :: links))
    have hk := takeLiteral_append_of_stops he.first (stopsLiteral_writtenAfter others)
    simp only [written] at h
    rw [h, hk] at hl
    obtain ⟨rfl, hothers⟩ := Prod.mk.inj hl
    cases others with
    | nil => simp [writtenAfter] at hothers
    | cons other others =>
      obtain ⟨p, n⟩ := other
      simp only [writtenAfter, List.flatMap_cons, List.cons_append, List.cons.injEq] at hothers
      obtain ⟨hsymbol, hrest⟩ := hothers
      have ho : p = o := Operator.eq_of_symbol_eq hsymbol
      have hchain := ih m (isExpression_cons.1 hd).2 n others (isExpression_cons.1 he).2
        hrest.symm
      simp only [Chain.mk.injEq] at hchain
      rw [ho, hchain.1, hchain.2]

/-! ## Whole texts -/

theorem scan_eq_scanFrom {s : String} (h : squeeze s.toList ≠ []) :
    scan s = scanFrom 0 (squeeze s.toList) := by
  rw [scan]
  split
  next hnil => exact absurd hnil h
  next => rfl

/-- Only what is left without the blanks counts. -/
theorem scan_congr {s t : String} (h : squeeze s.toList = squeeze t.toList) :
    scan s = scan t := by
  rw [scan, scan, h]

/-- A text is accepted exactly if it is, without its blanks, a row of literals with
    operators between them.  There is one such row; its literals have the values that
    they hold as texts of their own, and these are read with the operators in order.
    The blanks make no difference, to a fault neither. -/
theorem scan_follows_grammar (s : String) :
    ((∃ c, scan s = .ok c) ↔ ∃ d, IsExpression d ∧ written d = squeeze s.toList) ∧
    (∀ d e, IsExpression d → IsExpression e → written d = squeeze s.toList →
      written e = squeeze s.toList → d = e) ∧
    (∀ d, IsExpression d → written d = squeeze s.toList → ∃ c, scan s = .ok c ∧
      c.values.map .ok = d.numbers.map (fun l => NumberText.parse (.text (String.ofList l))) ∧
      c.symbols = d.operators) ∧
    ∀ t : String, squeeze t.toList = squeeze s.toList → scan t = scan s := by
  have hvalues (d : Chain Operator (List Char)) (hd : IsExpression d)
      (hs : written d = squeeze s.toList) : ∃ c, scan s = .ok c ∧
      c.values.map .ok = d.numbers.map (fun l => NumberText.parse (.text (String.ofList l))) ∧
      c.symbols = d.operators := by
    obtain ⟨c, hc, hnumbers, hsymbols⟩ := scanFrom_written d hd 0
    rw [hs, ← scan_eq_scanFrom (hs ▸ written_ne_nil hd)] at hc
    exact ⟨c, hc, hnumbers, hsymbols⟩
  refine ⟨⟨?_, ?_⟩, ?_, hvalues, fun t => scan_congr⟩
  · rintro ⟨c, hc⟩
    have hne : squeeze s.toList ≠ [] := by
      intro hnil
      simp [scan, hnil] at hc
    rw [scan_eq_scanFrom hne] at hc
    exact exists_written_of_scanFrom hc
  · rintro ⟨d, hd, hs⟩
    obtain ⟨c, hc, -⟩ := hvalues d hd hs
    exact ⟨c, hc⟩
  · exact fun d e hd he hs ht => written_injective hd he (hs.trans ht.symm)

/-- The first and the third minus are signs, the second is an operator. -/
theorem scan_follows_grammar_signs :
    written ⟨"-1".toList, [(.subtract, "-.5".toList), (.multiply, "2.".toList)]⟩
        = squeeze " -1 - -.5*2.".toList ∧
      ∃ c, scan " -1 - -.5*2." = .ok c ∧ c.symbols = [.subtract, .multiply] := by
  have hone : IsUnsigned "1".toList := ⟨by simp, by decide, '1', by simp, rfl⟩
  have hhalf : IsUnsigned ".5".toList := ⟨by simp, by decide, '5', by simp, rfl⟩
  have htwo : IsUnsigned "2.".toList := ⟨by simp, by decide, '2', by simp, rfl⟩
  have hd : IsExpression
      ⟨"-1".toList, [(.subtract, "-.5".toList), (.multiply, "2.".toList)]⟩ := by
    refine isExpression_cons.2 ⟨.minus hone, isExpression_cons.2 ⟨.minus hhalf, ?_⟩⟩
    intro l hl
    rw [List.mem_singleton.1 hl]
    exact .unsigned htwo
  have hs : written ⟨"-1".toList, [(.subtract, "-.5".toList), (.multiply, "2.".toList)]⟩
      = squeeze " -1 - -.5*2.".toList := by decide
  obtain ⟨c, hc, -, hsymbols⟩ := (scan_follows_grammar " -1 - -.5*2.").2.2.1 _ hd hs
  exact ⟨hs, c, hc, hsymbols⟩

end InfixArithmetic.ExpressionGrammar
