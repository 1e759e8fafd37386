/-
  InfixArithmetic.Proofs.FirstDefects

  Which fault a text has that is not in the grammar, and where.

  The scanner gives up at the first place where it cannot go on: everything before is a
  row of literals, each with an operator after it (`exists_defect`).  What it finds there
  is one of three defects, and none of them starts with a literal and an operator.  As a
  text begins with at most one literal that an operator can follow, no longer row of that
  kind begins the text (`length_le_of_defect`), so the place does not depend on how it has
  been found.
-/

import InfixArithmetic.Expression.Token
import InfixArithmetic.Proofs.EvaluationOutcomes
import Mathlib.Order.Bounds.Basic

namespace InfixArithmetic.FirstDefects

open EvaluationOutcomes (evaluate_eq_of_not_scan)
open Expression (evaluate literalValue? scan scanFrom takeLiteral takeLiteral_append takeRun
  tokenize)
open ExpressionGrammar (IsLiteral StopsLiteral isLiteralChar_iff isLiteralChar_symbol
  isLiteral_takeLiteral scan_eq_scanFrom takeLiteral_append_of_stops takeLiteral_shape)
open Text (isBlank squeeze)

/-! ## The parts of a text -/

/-- Literals, each with an operator after it. -/
def writtenBefore (links : List (List Char × Operator)) : List Char :=
  links.flatMap fun (l, o) => l ++ [o.symbol]

theorem writtenBefore_cons (l : List Char) (o : Operator) (links : List (List Char × Operator)) :
    writtenBefore ((l, o) :: links) = l ++ o.symbol :: writtenBefore links := by
  simp [writtenBefore]

/-- A text of literals, each with an operator after it. -/
def IsHead (cs : List Char) : Prop :=
  ∃ links, (∀ link ∈ links, IsLiteral link.1) ∧ writtenBefore links = cs

/-- How long a beginning of that kind can be. -/
def headLengths (cs : List Char) : Set Nat := {n | n ≤ cs.length ∧ IsHead (cs.take n)}

/-- Digits and points, or a minus and then digits and points. -/
def IsRun (cs : List Char) : Prop :=
  ∃ body, (∀ c ∈ body, c.isDigit = true ∨ c = '.') ∧ (cs = body ∨ cs = '-' :: body)

/-- How long a beginning of that kind can be. -/
def runLengths (cs : List Char) : Set Nat := {n | n ≤ cs.length ∧ IsRun (cs.take n)}

/-! ## The longest run -/

theorem length_le_takeRun {body rest : List Char}
    (h : ∀ c ∈ body, c.isDigit = true ∨ c = '.') :
    body.length ≤ (takeRun (body ++ rest)).1.length := by
  induction body with
  | nil => exact Nat.zero_le _
  | cons c body ih =>
    obtain ⟨hc, hbody⟩ := List.forall_mem_cons.1 h
    rw [List.cons_append, takeRun, if_pos (isLiteralChar_iff.2 hc)]
    exact Nat.succ_le_succ (ih hbody)

theorem take_takeLiteral (cs : List Char) :
    cs.take (takeLiteral cs).1.length = (takeLiteral cs).1 :=
  (List.prefix_iff_eq_take.1 ⟨_, takeLiteral_append cs⟩).symm

theorem length_le_takeLiteral {body rest : List Char}
    (h : ∀ c ∈ body, c.isDigit = true ∨ c = '.') :
    body.length ≤ (takeLiteral (body ++ rest)).1.length := by
  cases body with
  | nil => exact Nat.zero_le _
  | cons c body =>
    have hc : c ≠ '-' := by
      rintro rfl
      exact absurd (h '-' List.mem_cons_self) (by decide)
    have hrun := @length_le_takeRun (c :: body) rest h
    rwa [List.cons_append, takeLiteral, if_neg hc, ← List.cons_append]

/-- The scanner takes the longest run that begins a text. -/
theorem isGreatest_takeLiteral (cs : List Char) :
    IsGreatest (runLengths cs) (takeLiteral cs).1.length := by
  constructor
  · refine ⟨?_, ?_⟩
    · have hlength := congrArg List.length (takeLiteral_append cs)
      rw [List.length_append] at hlength
      omega
    · rw [take_takeLiteral]
      exact takeLiteral_shape cs
  · rintro n ⟨hn, body, hbody, hrun⟩
    have hlength : (cs.take n).length = n := List.length_take_of_le hn
    have hsplit := List.take_append_drop n cs
    -- What makes up such a beginning is taken, and whatever follows it takes nothing away.
    rcases hrun with hrun | hrun
    · rw [hrun] at hlength hsplit
      rw [← hsplit, ← hlength]
      exact length_le_takeLiteral hbody
    · rw [hrun] at hlength hsplit
      rw [← hsplit, ← hlength, List.cons_append, takeLiteral, if_pos rfl]
      exact Nat.succ_le_succ (length_le_takeRun hbody)

/-! ## Defects -/

/-- What is wrong with a text that follows an operator or starts an expression, and the
    fault of it if the text has the given place. -/
inductive DefectAt (position : Nat) : List Char → FormatFault → Prop
  | wanting : DefectAt position [] .unbalanced
  | number {rest : List Char} (hrest : rest ≠ []) (h : ¬ IsLiteral (takeLiteral rest).1) :
    DefectAt position rest (.invalidNumber position)
  | operator {rest : List Char} (h : IsLiteral (takeLiteral rest).1) {c : Char}
      {after : List Char} (hrest : (takeLiteral rest).2 = c :: after)
      (hc : ∀ o : Operator, c ≠ o.symbol) :
    DefectAt position rest (.invalidOperator (position + (takeLiteral rest).1.length))

theorem not_isLiteral_of_value? {cs : List Char} (h : literalValue? cs = none) :
    ¬ IsLiteral cs := by
  intro hliteral
  obtain ⟨x, hx⟩ := hliteral.value
  rw [h] at hx
  cases hx

theorem ne_symbol_of_ofSymbol? {c : Char} (h : Operator.ofSymbol? c = none) (o : Operator) :
    c ≠ o.symbol := by
  rintro rfl
  rw [Operator.ofSymbol?_symbol] at h
  cases h

theorem append_of_rest {cs rest : List Char} (h : (takeLiteral cs).2 = rest) :
    (takeLiteral cs).1 ++ rest = cs := by
  rw [← h]
  exact takeLiteral_append cs

/-- Where the scanner gives up, there is a defect, and literals with operators before. -/
theorem exists_defect {position : Nat} {cs : List Char} {f : FormatFault} (hcs : cs ≠ [])
    (h : scanFrom position cs = .error f) :
    ∃ links rest, (∀ link ∈ links, IsLiteral link.1) ∧ writtenBefore links ++ rest = cs ∧
      DefectAt (position + (writtenBefore links).length) rest f := by
  fun_induction scanFrom position cs with
  | case1 position cs literal hvalue =>
    cases h
    exact ⟨[], cs, List.forall_mem_nil _, rfl, .number hcs (not_isLiteral_of_value? hvalue)⟩
  | case2 => cases h
  | case3 position cs literal x hvalue c after hrest next ho =>
    cases h
    exact ⟨[], cs, List.forall_mem_nil _, rfl,
      .operator (isLiteral_takeLiteral hvalue) hrest (ne_symbol_of_ofSymbol? ho)⟩
  | case4 position cs literal x hvalue c o ho hrest =>
    cases h
    have hliteral := isLiteral_takeLiteral hvalue
    refine ⟨[(literal, o)], [], by simpa using hliteral, ?_, .wanting⟩
    rw [List.append_nil, writtenBefore_cons, Operator.symbol_of_ofSymbol? ho]
    exact append_of_rest hrest
  | case5 position cs literal x hvalue c after hrest next o ho hafter ih =>
    have hliteral := isLiteral_takeLiteral hvalue
    -- The rest of the text has the fault, and the defect is in it.
    cases hscan : scanFrom (next + 1) after with
    | ok d =>
      rw [hscan] at h
      cases h
    | error g =>
      rw [hscan] at h
      cases h
      obtain ⟨links, rest, hlinks, happend, hdefect⟩ := ih hafter hscan
      refine ⟨(literal, o) :: links, rest, List.forall_mem_cons.2 ⟨hliteral, hlinks⟩, ?_, ?_⟩
      · rw [writtenBefore_cons, Operator.symbol_of_ofSymbol? ho, List.append_assoc,
          List.cons_append, happend]
        exact append_of_rest hrest
      · have hplace : next + 1 + (writtenBefore links).length
            = position + (writtenBefore ((literal, o) :: links)).length := by
          rw [writtenBefore_cons, List.length_append, List.length_cons]
          omega
        rwa [hplace] at hdefect

/-! ## No longer row -/

theorem takeLiteral_cons {l : List Char} (hl : IsLiteral l) (o : Operator) (rest : List Char) :
    takeLiteral (l ++ o.symbol :: rest) = (l, o.symbol :: rest) :=
  takeLiteral_append_of_stops hl (by simp [StopsLiteral, isLiteralChar_symbol])

/-- A text that starts with a literal and an operator has no defect there. -/
theorem not_defectAt_cons {position : Nat} {l : List Char} (hl : IsLiteral l) (o : Operator)
    (rest : List Char) {f : FormatFault} :
    ¬ DefectAt position (l ++ o.symbol :: rest) f := by
  have htake := takeLiteral_cons hl o rest
  intro hdefect
  generalize hcs : l ++ o.symbol :: rest = cs at hdefect htake
  cases hdefect with
  | wanting => simp at hcs
  | number _ hnumber =>
    rw [htake] at hnumber
    exact hnumber hl
  | operator _ hrest hc =>
    rw [htake] at hrest
    exact hc o (List.cons.inj hrest).1.symm

/-- What begins a text with a defect after it is the longest row of literals, each with
    an operator after it. -/
theorem length_le_of_defect {position : Nat} {links others : List (List Char × Operator)}
    {rest remain : List Char} {f : FormatFault} (hlinks : ∀ link ∈ links, IsLiteral link.1)
    (hothers : ∀ other ∈ others, IsLiteral other.1) (hdefect : DefectAt position rest f)
    (h : writtenBefore links ++ rest = writtenBefore others ++ remain) :
    (writtenBefore others).length ≤ (writtenBefore links).length := by
  -- Both rows start with the same literal and operator, until the first one ends.
  induction links generalizing others with
  | nil =>
    cases others with
    | nil => exact le_rfl
    | cons other others =>
      obtain ⟨k, o⟩ := other
      rw [show writtenBefore [] = [] from rfl, List.nil_append, writtenBefore_cons,
        List.append_assoc, List.cons_append] at h
      rw [h] at hdefect
      exact absurd hdefect (not_defectAt_cons (hothers _ List.mem_cons_self) _ _)
  | cons link links ih =>
    cases others with
    | nil => exact Nat.zero_le _
    | cons other others =>
      obtain ⟨l, o⟩ := link
      obtain ⟨k, q⟩ := other
      have hl : IsLiteral l := hlinks _ List.mem_cons_self
      have hk : IsLiteral k := hothers _ List.mem_cons_self
      simp only [writtenBefore_cons, List.append_assoc, List.cons_append] at h
      have htake := congrArg takeLiteral h
      rw [takeLiteral_cons hl, takeLiteral_cons hk] at htake
      obtain ⟨hliteral, hsymbols⟩ := Prod.mk.inj htake
      have hle := ih (List.forall_mem_cons.1 hlinks).2 (List.forall_mem_cons.1 hothers).2
        (List.cons.inj hsymbols).2
      rw [writtenBefore_cons, writtenBefore_cons, hliteral, List.length_append,
        List.length_append, List.length_cons, List.length_cons]
      omega

/-- The place of a defect is the length of the longest row before it. -/
theorem isGreatest_of_defect {position : Nat} {links : List (List Char × Operator)}
    {rest : List Char} {f : FormatFault} (hlinks : ∀ link ∈ links, IsLiteral link.1)
    (hdefect : DefectAt position rest f) :
    IsGreatest (headLengths (writtenBefore links ++ rest)) (writtenBefore links).length := by
  constructor
  · refine ⟨by simp, links, hlinks, ?_⟩
    rw [List.take_left]
  · rintro n ⟨hn, others, hothers, hwritten⟩
    have hlength : (writtenBefore others).length = n := by
      rw [hwritten, List.length_take_of_le hn]
    have hsplit := List.take_append_drop n (writtenBefore links ++ rest)
    rw [← hwritten] at hsplit
    rw [← hlength]
    exact length_le_of_defect hlinks hothers hdefect hsplit.symm

/-! ## Whole texts -/

/-- The message for a text that begins with a row of length `p` and has a run of length `n`
    after it. -/
inductive ReportedAs (t : List Char) (p n : Nat) : String → Prop
  | wanting (hp : p = t.length) : ReportedAs t p n "Invalid expression format"
  | number (hp : p ≠ t.length) (h : ¬ IsLiteral ((t.drop p).take n)) :
    ReportedAs t p n ("Invalid number at position " ++ Text.natural p)
  | operator (hp : p ≠ t.length) (h : IsLiteral ((t.drop p).take n)) {c : Char}
      (hc : t[p + n]? = some c) (hoperator : ∀ o : Operator, c ≠ o.symbol) :
    ReportedAs t p n ("Invalid operator at position " ++ Text.natural (p + n))

theorem reportedAs_of_defect {position : Nat} {head rest : List Char} {f : FormatFault}
    (hposition : position = head.length) (h : DefectAt position rest f) :
    ReportedAs (head ++ rest) position (takeLiteral rest).1.length f.message := by
  have hdrop : (head ++ rest).drop position = rest := by rw [hposition, List.drop_left]
  have hend : position ≠ (head ++ rest).length ↔ rest ≠ [] := by
    rw [hposition, List.length_append, ne_eq, Nat.left_eq_add, List.length_eq_zero_iff]
  have hrun : ((head ++ rest).drop position).take (takeLiteral rest).1.length
      = (takeLiteral rest).1 := by
    rw [hdrop, take_takeLiteral]
  cases h with
  | wanting => exact .wanting (by rw [hposition, List.append_nil])
  | number hrest hnumber =>
    rw [← hrun] at hnumber
    exact .number (hend.2 hrest) hnumber
  | @operator _ hliteral c after hafter hc =>
    have happend := append_of_rest hafter
    have hrest : rest ≠ [] := by
      rw [← happend]
      simp
    rw [← hrun] at hliteral
    refine .operator (hend.2 hrest) hliteral ?_ hc
    -- The character is the first one after the run.
    rw [← List.getElem?_drop, hdrop]
    nth_rewrite 1 [← happend]
    rw [List.getElem?_append_right le_rfl, Nat.sub_self, List.getElem?_cons_zero]

/-- A text that is not blank and that the scanner refuses begins with rows of literals, each
    with an operator after it, and runs of digits and points follow these, with or without
    a minus.  The longest row and the longest run after it say which fault the text has
    and where, and all three ways to read a text give that one. -/
theorem scan_reports_first_defect (s : String) (f : FormatFault)
    (hs : ∃ c ∈ s.toList, isBlank c = false) (h : scan s = .error f) :
    (∃ p n, IsGreatest (headLengths (squeeze s.toList)) p ∧
      IsGreatest (runLengths ((squeeze s.toList).drop p)) n ∧
      ReportedAs (squeeze s.toList) p n f.message) ∧
    tokenize s = .error f ∧ evaluate s = .error (.format f) := by
  have hne : squeeze s.toList ≠ [] := by
    intro hnil
    obtain ⟨c, hc, hblank⟩ := hs
    rw [Text.squeeze_eq_nil_iff.1 hnil c hc] at hblank
    cases hblank
  have hscan := h
  rw [scan_eq_scanFrom hne] at hscan
  obtain ⟨links, rest, hlinks, htext, hdefect⟩ := exists_defect hne hscan
  rw [Nat.zero_add] at hdefect
  refine ⟨⟨(writtenBefore links).length, (takeLiteral rest).1.length, ?_, ?_, ?_⟩, ?_,
    evaluate_eq_of_not_scan h⟩
  · rw [← htext]
    exact isGreatest_of_defect hlinks hdefect
  · rw [← htext, List.drop_left]
    exact isGreatest_takeLiteral rest
  · rw [← htext]
    exact reportedAs_of_defect rfl hdefect
  · rw [tokenize, h]
    rfl

/-- After `1-` the second minus is a sign, with no digits after it. -/
theorem scan_reports_first_defect_sign :
    (∃ c ∈ "1 - -".toList, isBlank c = false) ∧ scan "1 - -" = .error (.invalidNumber 2) ∧
      ∃ p n, IsGreatest (headLengths "1--".toList) p ∧
        IsGreatest (runLengths ("1--".toList.drop p)) n ∧
        ReportedAs "1--".toList p n ("Invalid number at position " ++ Text.natural 2) := by
  have hs : ∃ c ∈ "1 - -".toList, isBlank c = false := ⟨'1', by decide, by decide⟩
  have hscan : scan "1 - -" = .error (.invalidNumber 2) := by decide +kernel
  have hsqueeze : squeeze "1 - -".toList = "1--".toList := by decide
  have hreported := (scan_reports_first_defect "1 - -" (.invalidNumber 2) hs hscan).1
  rw [hsqueeze] at hreported
  exact ⟨hs, hscan, hreported⟩

end InfixArithmetic.FirstDefects
