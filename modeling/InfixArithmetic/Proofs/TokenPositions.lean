/-
  InfixArithmetic.Proofs.TokenPositions

  The places of the tokens of a text.

  A text of the grammar is the row of its lexemes, literals and symbols in turn, and a
  place is the number of characters before it (`starts`).  What the scanner finds at
  which place is written down for a division of the text (`locate`), so that the scanner
  has to be followed only once (`scanFrom_written_eq`); after that the positions are those
  of the lexemes (`map_position_ofScanned`), and cutting a text where its lexemes start
  gives them back (`cutAt_starts`).
-/

import InfixArithmetic.Expression.Token
import InfixArithmetic.Proofs.EvaluationOutcomes

namespace InfixArithmetic.TokenPositions

open EvaluationOutcomes (inGrammar_of_scan literalValue literalValue?_eq)
open Expression (scan scanFrom Scanned tokenize)
open ExpressionGrammar (IsExpression IsLiteral isExpression_cons scanFrom_literal
  scanFrom_literal_operator scan_eq_scanFrom written written_cons written_ne_nil)
open Text (squeeze)

/-! ## Cutting a text -/

/-- The pieces of a text that start at the given places, each of them up to the next, the
    last of them to the end. -/
def cutAt (cs : List Char) : List Nat → List (List Char)
  | [] => []
  | [p] => [cs.drop p]
  | p :: q :: ps => (cs.drop p).take (q - p) :: cutAt cs (q :: ps)

/-- Where the words of a text start, the first one at the given place. -/
def starts (position : Nat) : List (List Char) → List Nat
  | [] => []
  | w :: ws => position :: starts (position + w.length) ws

/-- A text is cut into the words that it has been put together from. -/
theorem cutAt_starts (before : List Char) (ws : List (List Char)) :
    cutAt (before ++ ws.flatten) (starts before.length ws) = ws := by
  induction ws generalizing before with
  | nil => rfl
  | cons w ws ih =>
    -- The other words are cut from the same text, with one more word before them.
    have hrest := ih (before ++ w)
    rw [List.append_assoc, List.length_append] at hrest
    cases ws with
    | nil => simp [starts, cutAt]
    | cons v ws =>
      simp only [starts] at hrest ⊢
      rw [cutAt, List.flatten_cons, hrest]
      congr 1
      rw [List.drop_left, Nat.add_sub_cancel_left, List.take_left]

theorem le_of_mem_starts {position p : Nat} {ws : List (List Char)}
    (h : p ∈ starts position ws) : position ≤ p := by
  induction ws generalizing position with
  | nil => cases h
  | cons w ws ih =>
    rcases List.mem_cons.1 h with rfl | h
    · exact Nat.le_refl _
    · exact (Nat.le_add_right _ _).trans (ih h)

/-- Words that are not empty start one after the other. -/
theorem pairwise_starts (position : Nat) {ws : List (List Char)} (h : ∀ w ∈ ws, w ≠ []) :
    (starts position ws).Pairwise (· < ·) := by
  induction ws generalizing position with
  | nil => exact .nil
  | cons w ws ih =>
    obtain ⟨hw, hws⟩ := List.forall_mem_cons.1 h
    have hlength : 0 < w.length := List.length_pos_iff.2 hw
    refine .cons (fun p hp => ?_) (ih _ hws)
    have hle := le_of_mem_starts hp
    omega

/-! ## Lexemes -/

/-- The lexemes of a division: literals and symbols in turn. -/
def lexemes (d : Chain Operator (List Char)) : List (List Char) :=
  d.first :: d.links.flatMap fun (o, l) => [[o.symbol], l]

section Link

variable (l : List Char) (o : Operator) (k : List Char) (links : List (Operator × List Char))

theorem lexemes_link :
    lexemes ⟨l, (o, k) :: links⟩ = l :: [o.symbol] :: lexemes ⟨k, links⟩ := rfl

theorem written_link :
    written ⟨l, (o, k) :: links⟩ = l ++ o.symbol :: written ⟨k, links⟩ :=
  written_cons l o ⟨k, links⟩

end Link

theorem flatten_lexemes (d : Chain Operator (List Char)) : (lexemes d).flatten = written d := by
  obtain ⟨l, links⟩ := d
  induction links generalizing l with
  | nil => simp [lexemes, written, ExpressionGrammar.writtenAfter]
  | cons link links ih =>
    obtain ⟨o, k⟩ := link
    rw [lexemes_link, written_link, List.flatten_cons, List.flatten_cons, ih]
    rfl

theorem lexemes_ne_nil {d : Chain Operator (List Char)} (hd : IsExpression d) :
    ∀ w ∈ lexemes d, w ≠ [] := by
  intro w hw
  rcases List.mem_cons.1 hw with rfl | hw
  · exact hd.first.ne_nil
  · obtain ⟨⟨o, l⟩, hlink, hw⟩ := List.mem_flatMap.1 hw
    rcases List.mem_pair.1 hw with rfl | rfl
    · exact List.cons_ne_nil _ _
    · exact (hd _ (List.mem_cons_of_mem _ (List.mem_map_of_mem hlink))).ne_nil

/-! ## What is scanned where -/

/-- A division as it is scanned, its first literal at the given place. -/
def locate (position : Nat) (l : List Char) : List (Operator × List Char) → Scanned
  | [] => ⟨⟨literalValue l, position⟩, []⟩
  | (o, k) :: links =>
    (locate (position + l.length + 1) k links).cons ⟨literalValue l, position⟩
      ⟨o, position + l.length⟩

theorem scanFrom_written_eq (position : Nat) {l : List Char}
    {links : List (Operator × List Char)} (hd : IsExpression ⟨l, links⟩) :
    scanFrom position (written ⟨l, links⟩) = .ok (locate position l links) := by
  induction links generalizing position l with
  | nil =>
    have hl : IsLiteral l := hd.first
    have hwritten : written ⟨l, []⟩ = l := List.append_nil l
    rw [hwritten, scanFrom_literal hl (literalValue?_eq hl)]
    rfl
  | cons link links ih =>
    obtain ⟨o, k⟩ := link
    obtain ⟨hl, hrest⟩ := isExpression_cons.1 hd
    rw [written_link, scanFrom_literal_operator hl (literalValue?_eq hl) o (written_ne_nil hrest),
      ih _ hrest]
    rfl

/-- What is scanned of a text is its division, located from its first character on. -/
theorem exists_locate {s : String} {c : Scanned} (h : scan s = .ok c) :
    ∃ d, IsExpression d ∧ written d = squeeze s.toList ∧ c = locate 0 d.first d.links := by
  obtain ⟨d, hd, hs⟩ := inGrammar_of_scan h
  refine ⟨d, hd, hs, ?_⟩
  rw [scan_eq_scanFrom (hs ▸ written_ne_nil hd), ← hs, scanFrom_written_eq 0 hd] at h
  exact (Except.ok.inj h).symm

/-! ## Tokens -/

theorem ofScanned_cons (x : Located Binary64) (o : Located Operator) (c : Scanned) :
    Token.ofScanned (c.cons x o) = Token.ofNumber x :: Token.ofOperator o :: Token.ofScanned c :=
  rfl

/-- The tokens of a located division start where its lexemes do. -/
theorem map_position_ofScanned (position : Nat) (l : List Char)
    (links : List (Operator × List Char)) :
    (Token.ofScanned (locate position l links)).map Token.position
      = (starts position (lexemes ⟨l, links⟩)).map some := by
  induction links generalizing position l with
  | nil => rfl
  | cons link links ih =>
    obtain ⟨o, k⟩ := link
    rw [locate, ofScanned_cons, List.map_cons, List.map_cons, ih, lexemes_link]
    rfl

/-- A number is read from a literal that holds it, an operator from its symbol. -/
def IsReadFrom (t : Token) (w : List Char) : Prop :=
  match t.kind with
  | .number x => IsLiteral w ∧ NumberText.parse (.text (String.ofList w)) = .ok x
  | .operator o => w = [o.symbol]

/-- The tokens of a located division are read from its lexemes. -/
theorem forall₂_isReadFrom (position : Nat) {l : List Char}
    {links : List (Operator × List Char)} (hd : IsExpression ⟨l, links⟩) :
    List.Forall₂ IsReadFrom (Token.ofScanned (locate position l links)) (lexemes ⟨l, links⟩) := by
  induction links generalizing position l with
  | nil =>
    have hl : IsLiteral l := hd.first
    exact .cons ⟨hl, hl.parse (literalValue?_eq hl)⟩ .nil
  | cons link links ih =>
    obtain ⟨o, k⟩ := link
    obtain ⟨hl, hrest⟩ := isExpression_cons.1 hd
    exact .cons ⟨hl, hl.parse (literalValue?_eq hl)⟩ (.cons rfl (ih _ hrest))

/-- Numbers and operators take turns. -/
theorem map_typeName_ofScanned (c : Scanned) :
    (Token.ofScanned c).map Token.typeName
      = "number" :: (List.replicate c.symbols.length ["operator", "number"]).flatten := by
  obtain ⟨x, links⟩ := c
  induction links generalizing x with
  | nil => rfl
  | cons link links ih =>
    obtain ⟨o, y⟩ := link
    have hcons := ofScanned_cons x o ⟨y, links⟩
    rw [Chain.cons] at hcons
    rw [hcons, List.map_cons, List.map_cons, ih]
    rfl

theorem filterMap_value?_ofScanned (c : Scanned) :
    (Token.ofScanned c).filterMap Token.value? = c.values := by
  obtain ⟨x, links⟩ := c
  induction links generalizing x with
  | nil => rfl
  | cons link links ih => exact congrArg (x.value :: ·) (ih link.2)

theorem filterMap_symbol?_ofScanned (c : Scanned) :
    (Token.ofScanned c).filterMap Token.symbol? = c.symbols.map Operator.text := by
  obtain ⟨x, links⟩ := c
  induction links generalizing x with
  | nil => rfl
  | cons link links ih => exact congrArg (link.1.value.text :: ·) (ih link.2)

/-- The operators by themselves, under their symbols. -/
def definitions : List (String × Token) :=
  Operator.all.map fun o => (o.text, Token.definition o)

theorem lookup_definitions (o : Operator) :
    definitions.lookup o.text = some (Token.definition o) := by
  cases o <;> rfl

/-- An operator that has been read has the name and the precedence of its symbol. -/
theorem exists_definition {t : Token} {symbol : String} (h : t.symbol? = some symbol) :
    ∃ d, definitions.lookup symbol = some d ∧ t.name = d.name ∧ t.precedence = d.precedence := by
  obtain ⟨kind, position⟩ := t
  cases kind with
  | number x => cases h
  | operator o =>
    obtain rfl := Option.some.inj h
    exact ⟨Token.definition o, lookup_definitions o, rfl, rfl⟩

/-- A text has tokens exactly if it can be scanned.  They are numbers and operators in
    turn, the first and the last of them numbers, and each has a place: the first stands at
    the start of the text without its blanks, and each other one after the one before.
    Cut at these places, the text is divided without a rest into a literal for every
    number, which holds that number, and the symbol of every operator.  In order, the
    numbers and the operators are those that are scanned, and each operator has the name
    and the precedence that are defined for its symbol. -/
theorem tokens_tile_text (s : String) :
    ((∃ ts, tokenize s = .ok ts) ↔ ∃ c, scan s = .ok c) ∧
    ∀ c, scan s = .ok c → ∃ ts positions,
      tokenize s = .ok ts ∧
      ts.map Token.typeName
        = "number" :: (List.replicate c.symbols.length ["operator", "number"]).flatten ∧
      ts.map Token.position = positions.map some ∧
      positions.head? = some 0 ∧ positions.Pairwise (· < ·) ∧
      (cutAt (squeeze s.toList) positions).flatten = squeeze s.toList ∧
      List.Forall₂ IsReadFrom ts (cutAt (squeeze s.toList) positions) ∧
      ts.filterMap Token.value? = c.values ∧
      ts.filterMap Token.symbol? = c.symbols.map Operator.text ∧
      ∀ t ∈ ts, ∀ symbol, t.symbol? = some symbol →
        ∃ d, definitions.lookup symbol = some d ∧ t.name = d.name ∧
          t.precedence = d.precedence := by
  constructor
  · rw [tokenize]
    cases scan s with
    | ok c => exact iff_of_true ⟨_, rfl⟩ ⟨c, rfl⟩
    | error f => exact iff_of_false nofun nofun
  · intro c hc
    obtain ⟨⟨l, links⟩, hd, hs, hlocate⟩ := exists_locate hc
    have hcut : cutAt (squeeze s.toList) (starts 0 (lexemes ⟨l, links⟩)) = lexemes ⟨l, links⟩ := by
      rw [← hs, ← flatten_lexemes]
      exact cutAt_starts [] (lexemes ⟨l, links⟩)
    refine ⟨Token.ofScanned c, starts 0 (lexemes ⟨l, links⟩), ?_, map_typeName_ofScanned c, ?_, rfl,
      pairwise_starts 0 (lexemes_ne_nil hd), ?_, ?_, filterMap_value?_ofScanned c,
      filterMap_symbol?_ofScanned c, fun t _ symbol h => exists_definition h⟩
    · rw [tokenize, hc]
      rfl
    · rw [hlocate]
      exact map_position_ofScanned 0 l links
    · rw [hcut, flatten_lexemes, hs]
    · rw [hcut, hlocate]
      exact forall₂_isReadFrom 0 hd

/-- The second minus is an operator, the others belong to the literals after them. -/
theorem tokens_tile_text_signs :
    (∃ c, scan "-1 - -.5" = .ok c ∧ c.symbols = [.subtract]) ∧
      ∃ ts, tokenize "-1 - -.5" = .ok ts ∧
        List.Forall₂ IsReadFrom ts (cutAt "-1--.5".toList [0, 2, 3]) := by
  have hscan : scan "-1 - -.5" = .ok ⟨⟨.finite true 0x3FF0000000000000, 0⟩,
      [(⟨.subtract, 2⟩, ⟨.finite true 0x3FE0000000000000, 3⟩)]⟩ := by decide +kernel
  obtain ⟨ts, positions, htokens, -, hpositions, -, -, -, hread, -⟩ :=
    (tokens_tile_text "-1 - -.5").2 _ hscan
  refine ⟨⟨_, hscan, rfl⟩, ts, htokens, ?_⟩
  rw [tokenize, hscan] at htokens
  obtain rfl := Except.ok.inj htokens
  have hplaces : positions = [0, 2, 3] :=
    List.map_injective_iff.2 (Option.some_injective _) hpositions.symm
  rw [hplaces] at hread
  exact hread

end InfixArithmetic.TokenPositions
