/-
  InfixArithmetic.Proofs.TextFiles

  Files with an expression on each line.

  `Writes L cs` says that the text `cs` holds the entries `L`: each is on a line of its own
  with any blanks around it, lines of blanks may stand anywhere, and every line but the last
  has one of the three line ends.  This does not divide the text into lines, since a carriage
  return and a line feed can be the end of one line or of two.  It makes no difference,
  because a line of blanks adds nothing (`expressionLines_append_end`).  So the entries that
  a text holds are those that are loaded (`expressionLines_of_writes`), and every text holds
  some (`writes_expressionLines`).

  Lines end at two characters only, but trimming and evaluating know the same blanks: a line
  has nothing left if it is trimmed exactly if it is an empty expression
  (`evaluate_eq_empty_iff`).
-/

import InfixArithmetic.Proofs.SavedTables
import InfixArithmetic.Proofs.Utf8Acceptance
import Mathlib.Data.List.TakeWhile

namespace InfixArithmetic

namespace Text

/-! ## Blanks around a text -/

/-- Blanks are all there is. -/
def IsBlankText (cs : List Char) : Prop := ∀ c ∈ cs, isBlank c = true

instance (cs : List Char) : Decidable (IsBlankText cs) :=
  decidable_of_iff (cs.all isBlank = true) List.all_eq_true

/-- Neither end of the text is a blank. -/
structure IsTrimmed (cs : List Char) : Prop where
  first : ∀ c ∈ cs.head?, isBlank c = false
  last : ∀ c ∈ cs.getLast?, isBlank c = false

instance (cs : List Char) : Decidable (IsTrimmed cs) :=
  decidable_of_iff (cs.head?.all (!isBlank ·) = true ∧ cs.getLast?.all (!isBlank ·) = true) (by
    simp only [Option.all_eq_true, Bool.not_eq_true']
    exact ⟨fun h => ⟨h.1, h.2⟩, fun h => ⟨h.first, h.last⟩⟩)

theorem head?_dropWhile_isBlank (cs : List Char) :
    ∀ c ∈ (cs.dropWhile isBlank).head?, isBlank c = false := by
  intro c hc
  have hstop := List.head?_dropWhile_not isBlank cs
  rw [hc] at hstop
  exact hstop

theorem dropWhile_isBlank {blanks cs : List Char} (hblanks : IsBlankText blanks)
    (hcs : ∀ c ∈ cs.head?, isBlank c = false) : (blanks ++ cs).dropWhile isBlank = cs := by
  rw [List.dropWhile_append_of_pos hblanks]
  cases cs with
  | nil => rfl
  | cons c cs => exact List.dropWhile_cons_of_neg (by simpa using hcs c rfl)

/-- What is trimmed off are the blanks around the text. -/
theorem exists_blanks_around (cs : List Char) :
    ∃ before after, cs = before ++ trim cs ++ after ∧ IsBlankText before ∧ IsBlankText after := by
  have hblanks (ds : List Char) : IsBlankText (ds.takeWhile isBlank) :=
    fun c hc => List.mem_takeWhile_imp hc
  refine ⟨cs.takeWhile isBlank, ((cs.dropWhile isBlank).reverse.takeWhile isBlank).reverse,
    ?_, hblanks cs, fun c hc => hblanks _ c (List.mem_reverse.1 hc)⟩
  rw [trim, trimBy, List.append_assoc, ← List.reverse_append, List.takeWhile_append_dropWhile,
    List.reverse_reverse, List.takeWhile_append_dropWhile]

theorem isTrimmed_trim (cs : List Char) : IsTrimmed (trim cs) where
  first := by
    intro c hc
    -- The blanks after the text are behind its first character.
    have hfront := List.takeWhile_append_dropWhile (p := isBlank)
      (l := (cs.dropWhile isBlank).reverse)
    have hhead := head?_dropWhile_isBlank cs c
    rw [← List.reverse_reverse (cs.dropWhile isBlank), ← hfront, List.reverse_append] at hhead
    rw [List.head?_append] at hhead
    exact hhead (Option.or_eq_some_iff.2 (.inl hc))
  last := by
    rw [trim, trimBy, List.getLast?_reverse]
    exact head?_dropWhile_isBlank _

theorem trim_eq_nil_iff {cs : List Char} : trim cs = [] ↔ IsBlankText cs := by
  constructor
  · intro h
    obtain ⟨before, after, hcs, hbefore, hafter⟩ := exists_blanks_around cs
    rw [h, List.append_nil] at hcs
    rw [hcs]
    exact List.forall_mem_append.2 ⟨hbefore, hafter⟩
  · intro h
    rw [trim, trimBy, List.dropWhile_eq_nil_iff.2 h]
    rfl

/-- Blanks around a text make no difference. -/
theorem trim_padded {before cs after : List Char} (hbefore : IsBlankText before)
    (hafter : IsBlankText after) (hcs : IsTrimmed cs) : trim (before ++ cs ++ after) = cs := by
  by_cases hnil : cs = []
  · rw [hnil, List.append_nil]
    exact trim_eq_nil_iff.2 (List.forall_mem_append.2 ⟨hbefore, hafter⟩)
  · have hfirst : ∀ c ∈ (cs ++ after).head?, isBlank c = false := by
      rw [List.head?_append_of_ne_nil _ hnil]
      exact hcs.first
    have hlast : ∀ c ∈ cs.reverse.head?, isBlank c = false := by
      rw [List.head?_reverse]
      exact hcs.last
    have hafter' : IsBlankText after.reverse := fun c hc => hafter c (List.mem_reverse.1 hc)
    rw [trim, trimBy, List.append_assoc, dropWhile_isBlank hbefore hfirst, List.reverse_append,
      dropWhile_isBlank hafter' hlast, List.reverse_reverse]

/-! ## Lines -/

/-- The three ways to end a line. -/
inductive LineEnd where
  | lineFeed
  | carriageReturn
  | returnAndFeed

def LineEnd.text : LineEnd → List Char
  | lineFeed => ['\n']
  | carriageReturn => ['\r']
  | returnAndFeed => ['\r', '\n']

/-- There is no line end in the text. -/
def IsUnbroken (cs : List Char) : Prop := '\n' ∉ cs ∧ '\r' ∉ cs

instance (cs : List Char) : Decidable (IsUnbroken cs) := inferInstanceAs (Decidable (_ ∧ _))

theorem isUnbroken_cons {c : Char} {cs : List Char} :
    IsUnbroken (c :: cs) ↔ (c ≠ '\n' ∧ c ≠ '\r') ∧ IsUnbroken cs := by
  simp only [IsUnbroken, List.mem_cons, not_or, ne_eq, eq_comm]
  exact and_and_and_comm

theorem lines_cons {c : Char} (hc : c ≠ '\n' ∧ c ≠ '\r') (cs : List Char) :
    lines (c :: cs) = (lines cs).modifyHead (c :: ·) := by
  rw [lines.eq_3 c cs fun _ hreturn => absurd hreturn hc.2, if_neg (not_or.2 hc)]
  cases h : lines cs with
  | nil => exact absurd h (lines_ne_nil cs)
  | cons l ls => rfl

theorem lines_append {l : List Char} (hl : IsUnbroken l) (cs : List Char) :
    lines (l ++ cs) = (lines cs).modifyHead (l ++ ·) := by
  induction l with
  | nil => exact (congrFun List.modifyHead_id (lines cs)).symm
  | cons c l ih =>
    obtain ⟨hc, hl⟩ := isUnbroken_cons.1 hl
    rw [List.cons_append, lines_cons hc, ih hl, List.modifyHead_modifyHead]
    rfl

theorem lines_lineFeed (cs : List Char) : lines ('\n' :: cs) = [] :: lines cs := by
  rw [lines.eq_3 _ _ fun _ hreturn => absurd hreturn (by decide), if_pos (.inl rfl)]

/-- After a line end come the lines of the rest; a carriage return may take the line feed
    after it for its own, and then an empty line is missing. -/
theorem lines_end (e : LineEnd) (rest : List Char) :
    ∃ ls, lines (e.text ++ rest) = [] :: ls ∧ (lines rest = ls ∨ lines rest = [] :: ls) := by
  cases e with
  | lineFeed => exact ⟨lines rest, lines_lineFeed rest, .inl rfl⟩
  | returnAndFeed => exact ⟨lines rest, lines.eq_2 rest, .inl rfl⟩
  | carriageReturn =>
    by_cases hfeed : ∃ cs, rest = '\n' :: cs
    · obtain ⟨cs, rfl⟩ := hfeed
      exact ⟨lines cs, lines.eq_2 cs, .inr (lines_lineFeed cs)⟩
    · refine ⟨lines rest, ?_, .inl rfl⟩
      show lines ('\r' :: rest) = _
      rw [lines.eq_3 _ _ fun cs _ hcs => hfeed ⟨cs, hcs⟩, if_pos (.inr rfl)]

end Text

namespace TextFiles

open Batch (Row evaluateAll faultText)
open BatchRows (ofExpression_ok ofExpression_error)
open Dataset (expressionLines)
open EvaluationOutcomes (evaluate_eq_of_not_scan scan_fault evaluate_fault scanFrom_fault)
open Expression (scan evaluate)
open Text (IsBlankText IsTrimmed IsUnbroken LineEnd isUnbroken_cons trim lines)
open Text.Utf8 (encode)

/-! ## Entries -/

/-- A text that a line can hold: not empty, without blanks around it and line ends in it. -/
structure IsEntry (cs : List Char) : Prop where
  ne_nil : cs ≠ []
  trimmed : IsTrimmed cs
  unbroken : IsUnbroken cs

/-- Blanks that stay on their line. -/
structure IsPadding (cs : List Char) : Prop where
  blank : IsBlankText cs
  unbroken : IsUnbroken cs

/-- The text `cs` holds the entries `L`, each on a line of its own. -/
inductive Writes : List String → List Char → Prop where
  /-- A last line with an entry, without an end. -/
  | entry {before after : List Char} (s : String) (hbefore : IsPadding before)
      (hafter : IsPadding after) : Writes [s] (before ++ s.toList ++ after)
  /-- A last line with blanks only, or none at all. -/
  | blanks {blanks : List Char} (hblanks : IsPadding blanks) : Writes [] blanks
  /-- A line with an entry, and the text after its end. -/
  | entryLine {before after : List Char} {L : List String} {rest : List Char} (s : String)
      (hbefore : IsPadding before) (hafter : IsPadding after) (e : LineEnd)
      (hrest : Writes L rest) :
      Writes (s :: L) (before ++ s.toList ++ after ++ (e.text ++ rest))
  /-- A line with blanks only, and the text after its end. -/
  | blankLine {blanks : List Char} {L : List String} {rest : List Char}
      (hblanks : IsPadding blanks) (e : LineEnd) (hrest : Writes L rest) :
      Writes L (blanks ++ (e.text ++ rest))

/-- The entries with a line feed between each two neighbours. -/
def joined (L : List String) : List Char := ['\n'].intercalate (L.map String.toList)

instance (cs : List Char) : Decidable (IsPadding cs) :=
  decidable_of_iff (IsBlankText cs ∧ IsUnbroken cs)
    ⟨fun h => ⟨h.1, h.2⟩, fun h => ⟨h.blank, h.unbroken⟩⟩

instance (cs : List Char) : Decidable (IsEntry cs) :=
  decidable_of_iff (cs ≠ [] ∧ IsTrimmed cs ∧ IsUnbroken cs)
    ⟨fun h => ⟨h.1, h.2.1, h.2.2⟩, fun h => ⟨h.ne_nil, h.trimmed, h.unbroken⟩⟩

/-! ## Lines with and without an entry -/

theorem isUnbroken_append {cs ds : List Char} (hcs : IsUnbroken cs) (hds : IsUnbroken ds) :
    IsUnbroken (cs ++ ds) := by
  simp only [IsUnbroken, List.mem_append, not_or]
  exact ⟨⟨hcs.1, hds.1⟩, hcs.2, hds.2⟩

theorem isUnbroken_padded {before cs after : List Char} (hbefore : IsPadding before)
    (hafter : IsPadding after) (hcs : IsUnbroken cs) : IsUnbroken (before ++ cs ++ after) :=
  isUnbroken_append (isUnbroken_append hbefore.unbroken hcs) hafter.unbroken

theorem expressionLines_unbroken {l : List Char} (hl : IsUnbroken l) :
    expressionLines l = [trim l].filter (· ≠ []) := by
  have hlines := Text.lines_append hl []
  rw [List.append_nil] at hlines
  rw [expressionLines, hlines]
  simp [Text.lines]

theorem expressionLines_padding {blanks : List Char} (h : IsPadding blanks) :
    expressionLines blanks = [] := by
  rw [expressionLines_unbroken h.unbroken, Text.trim_eq_nil_iff.2 h.blank]
  rfl

theorem expressionLines_entry {before cs after : List Char} (hbefore : IsPadding before)
    (hafter : IsPadding after) (hcs : IsEntry cs) :
    expressionLines (before ++ cs ++ after) = [cs] := by
  rw [expressionLines_unbroken (isUnbroken_padded hbefore hafter hcs.unbroken),
    Text.trim_padded hbefore.blank hafter.blank hcs.trimmed]
  simp [hcs.ne_nil]

/-- The lines up to a line end and those after it are trimmed apart. -/
theorem expressionLines_append_end {l : List Char} (hl : IsUnbroken l) (e : LineEnd)
    (rest : List Char) :
    expressionLines (l ++ (e.text ++ rest)) = expressionLines l ++ expressionLines rest := by
  obtain ⟨ls, hlines, hrest⟩ := Text.lines_end e rest
  have hsplit : lines (l ++ (e.text ++ rest)) = l :: ls := by
    rw [Text.lines_append hl, hlines, List.modifyHead_cons, List.append_nil]
  have hkept : expressionLines rest = (ls.map trim).filter (· ≠ []) := by
    rw [expressionLines]
    -- An empty line more or less is not kept.
    rcases hrest with h | h
    · rw [h]
    · rw [h]
      rfl
  rw [expressionLines_unbroken hl, hkept, ← List.filter_append, expressionLines, hsplit]
  rfl

/-! ## What a text holds -/

/-- The entries that a text holds are its expressions. -/
theorem expressionLines_of_writes {L : List String} {cs : List Char}
    (hL : ∀ s ∈ L, IsEntry s.toList) (h : Writes L cs) :
    expressionLines cs = L.map String.toList := by
  induction h with
  | entry s hbefore hafter => exact expressionLines_entry hbefore hafter (hL s (by simp))
  | blanks hblanks => exact expressionLines_padding hblanks
  | entryLine s hbefore hafter e hrest ih =>
    obtain ⟨hs, hL⟩ := List.forall_mem_cons.1 hL
    have hunbroken := isUnbroken_padded hbefore hafter hs.unbroken
    rw [expressionLines_append_end hunbroken, expressionLines_entry hbefore hafter hs, ih hL]
    rfl
  | blankLine hblanks e hrest ih =>
    rw [expressionLines_append_end hblanks.unbroken, expressionLines_padding hblanks, ih hL]
    rfl

theorem map_expressionLines_of_writes {L : List String} {cs : List Char}
    (hL : ∀ s ∈ L, IsEntry s.toList) (h : Writes L cs) :
    (expressionLines cs).map String.ofList = L := by
  rw [expressionLines_of_writes hL h, List.map_map]
  simp

/-- A text has no line end, or a first one. -/
theorem exists_line (cs : List Char) :
    IsUnbroken cs ∨ ∃ l e rest, IsUnbroken l ∧ cs = l ++ (LineEnd.text e ++ rest) := by
  induction cs with
  | nil => exact .inl ⟨by simp, by simp⟩
  | cons c cs ih =>
    by_cases hfeed : c = '\n'
    · exact .inr ⟨[], .lineFeed, cs, ⟨by simp, by simp⟩, by rw [hfeed]; rfl⟩
    by_cases hreturn : c = '\r'
    · exact .inr ⟨[], .carriageReturn, cs, ⟨by simp, by simp⟩, by rw [hreturn]; rfl⟩
    rcases ih with hcs | ⟨l, e, rest, hl, rfl⟩
    · exact .inl (isUnbroken_cons.2 ⟨⟨hfeed, hreturn⟩, hcs⟩)
    · exact .inr ⟨c :: l, e, rest, isUnbroken_cons.2 ⟨⟨hfeed, hreturn⟩, hl⟩, rfl⟩

/-- A line holds blanks, or an entry with blanks around it. -/
theorem exists_entry {l : List Char} (hl : IsUnbroken l) :
    (IsPadding l ∧ expressionLines l = []) ∨
      ∃ before after, IsPadding before ∧ IsPadding after ∧ l = before ++ trim l ++ after ∧
        expressionLines l = [trim l] := by
  by_cases hnil : trim l = []
  · have hpadding : IsPadding l := ⟨Text.trim_eq_nil_iff.1 hnil, hl⟩
    exact .inl ⟨hpadding, expressionLines_padding hpadding⟩
  · obtain ⟨before, after, heq, hbefore, hafter⟩ := Text.exists_blanks_around l
    have hpart {cs : List Char} (hcs : cs ⊆ l) : IsUnbroken cs :=
      ⟨fun h => hl.1 (hcs h), fun h => hl.2 (hcs h)⟩
    refine .inr ⟨before, after, ⟨hbefore, hpart ?_⟩, ⟨hafter, hpart ?_⟩, heq, ?_⟩
    · rw [heq, List.append_assoc]
      exact List.subset_append_left _ _
    · rw [heq]
      exact List.subset_append_right _ _
    · rw [expressionLines_unbroken hl]
      simp [hnil]

/-- Every text holds its expressions. -/
theorem writes_expressionLines (cs : List Char) :
    Writes ((expressionLines cs).map String.ofList) cs := by
  -- The induction is on the length: what is left after a line end is shorter.
  induction hn : cs.length using Nat.strongRecOn generalizing cs with
  | _ n ih =>
    rcases exists_line cs with hcs | ⟨l, e, rest, hl, rfl⟩
    · rcases exists_entry hcs with ⟨hpadding, hnone⟩ | ⟨before, after, hbefore, hafter, heq, hone⟩
      · rw [hnone]
        exact .blanks hpadding
      · have hentry := Writes.entry (String.ofList (trim cs)) hbefore hafter
        rw [String.toList_ofList, ← heq] at hentry
        rw [hone]
        exact hentry
    · have hrest : Writes ((expressionLines rest).map String.ofList) rest := by
        refine ih rest.length ?_ rest rfl
        rw [← hn]
        cases e <;> simp only [LineEnd.text, List.length_append, List.length_cons] <;> omega
      rw [expressionLines_append_end hl, List.map_append]
      rcases exists_entry hl with ⟨hpadding, hnone⟩ | ⟨before, after, hbefore, hafter, heq, hone⟩
      · rw [hnone]
        exact .blankLine hpadding e hrest
      · have hentry := Writes.entryLine (String.ofList (trim l)) hbefore hafter e hrest
        rw [String.toList_ofList, ← heq] at hentry
        rw [hone]
        exact hentry

theorem isEntry_of_mem {cs l : List Char} (hl : l ∈ expressionLines cs) : IsEntry l where
  ne_nil := by simpa using (List.mem_filter.1 hl).2
  trimmed := by
    obtain ⟨line, -, rfl⟩ := List.mem_map.1 (List.mem_of_mem_filter hl)
    exact Text.isTrimmed_trim line
  unbroken := SavedTables.expressionLines_chars hl

theorem isPadding_nil : IsPadding [] := ⟨by simp [IsBlankText], by simp [IsUnbroken]⟩

/-- Entries that are joined are held by the text that they are joined to. -/
theorem writes_joined (L : List String) : Writes L (joined L) := by
  induction L with
  | nil => exact .blanks isPadding_nil
  | cons s L ih =>
    cases L with
    | nil =>
      have h := Writes.entry s isPadding_nil isPadding_nil
      simpa [joined] using h
    | cons t L =>
      have h := Writes.entryLine s isPadding_nil isPadding_nil .lineFeed ih
      simpa [joined, LineEnd.text] using h

/-! ## Empty expressions -/

/-- A text is an empty expression exactly if it holds blanks only. -/
theorem evaluate_eq_empty_iff {s : String} :
    evaluate s = .error (.format .emptyExpression) ↔ IsBlankText s.toList := by
  rw [IsBlankText, ← Text.squeeze_eq_nil_iff]
  constructor
  · intro h
    by_contra hne
    rcases evaluate_fault h with ⟨g, hg, hfault⟩ | hfault
    · cases hfault
      rw [ExpressionGrammar.scan_eq_scanFrom hne] at hg
      rcases scanFrom_fault hg with ⟨n, h⟩ | ⟨n, h⟩ | h <;> cases h
    · cases hfault
  · intro h
    refine evaluate_eq_of_not_scan ?_
    rw [scan, h]

theorem evaluate_line_eq_empty_iff {l : List Char} :
    evaluate (String.ofList l) = .error (.format .emptyExpression) ↔ trim l = [] := by
  rw [evaluate_eq_empty_iff, String.toList_ofList, Text.trim_eq_nil_iff]

/-- An entry is not an empty expression. -/
theorem IsEntry.evaluate_ne {s : String} (h : IsEntry s.toList) :
    evaluate s ≠ .error (.format .emptyExpression) := by
  intro hempty
  have hblank := evaluate_eq_empty_iff.1 hempty
  obtain ⟨c, cs, hs⟩ := List.exists_cons_of_ne_nil h.ne_nil
  rw [hs] at hblank
  have hfirst : Text.isBlank c = false := h.trimmed.first c (by rw [hs]; rfl)
  rw [hblank c List.mem_cons_self] at hfirst
  cases hfirst

/-- The third letter tells the other messages of the scanner from that of an empty
    expression. -/
theorem message_of_scan {s : String} {g : FormatFault} (h : scan s = .error g)
    (hne : g ≠ .emptyExpression) : g.message.toList[2]? = some 'v' := by
  rcases scan_fault h with rfl | ⟨n, rfl⟩ | ⟨n, rfl⟩ | rfl
  · exact absurd rfl hne
  · show ("Invalid number at position " ++ Text.natural n).toList[2]? = _
    rw [String.toList_append]
    rfl
  · show ("Invalid operator at position " ++ Text.natural n).toList[2]? = _
    rw [String.toList_append]
    rfl
  · rfl

theorem faultText_ne_of_ne_empty {s : String} {f : Fault} (hf : evaluate s = .error f)
    (hne : f ≠ .format .emptyExpression) : faultText f ≠ faultText (.format .emptyExpression) := by
  rcases evaluate_fault hf with ⟨g, hg, rfl⟩ | rfl
  · intro h
    have hmessage : g.message = FormatFault.emptyExpression.message :=
      (String.append_right_inj _).1 h
    have hletter := message_of_scan hg fun heq => hne (congrArg Fault.format heq)
    rw [hmessage] at hletter
    exact absurd hletter (by decide)
  · decide

theorem error_ne_of_ne_empty {s : String}
    (h : evaluate s ≠ .error (.format .emptyExpression)) :
    (Row.ofExpression s).error ≠ faultText (.format .emptyExpression) := by
  cases hs : evaluate s with
  | ok x =>
    rw [ofExpression_ok hs]
    exact (BatchRows.faultText_ne_empty _).symm
  | error f =>
    rw [ofExpression_error hs]
    refine faultText_ne_of_ne_empty hs ?_
    rintro rfl
    exact h hs

/-! ## Files -/

/-- What a text file gives: the expressions of the text whose bytes it holds. -/
theorem load_eq_ok_iff {files : Files} {path : String} (hpath : Dataset.isTable path = false)
    {column? : Option String} {L : List String} :
    Dataset.load files path column? = .ok L ↔
      ∃ cs, files.read path = .ok (encode cs) ∧ (expressionLines cs).map String.ofList = L := by
  constructor
  · intro h
    rw [Dataset.load] at h
    split at h
    next => cases h
    next bytes hread =>
      rw [Dataset.expressions, if_neg (by simp [hpath])] at h
      split at h
      next => cases h
      next cs hdecode =>
        cases h
        rw [← Text.Utf8.decode_block_eq_ok_iff.1 hdecode] at hread
        exact ⟨cs, hread, rfl⟩
  · rintro ⟨cs, hread, rfl⟩
    rw [Dataset.load, hread]
    simp only [Dataset.expressions, hpath, Bool.false_eq_true, if_false,
      Text.Utf8.decode_block_eq_ok_iff.2 rfl]
    rfl

/-- The lines that are kept are those that are not empty expressions. -/
theorem expressionLines_eq (cs : List Char) :
    expressionLines cs = ((lines cs).filter fun l =>
      evaluate (String.ofList l) ≠ .error (.format .emptyExpression)).map trim := by
  rw [expressionLines, List.filter_map]
  refine congrArg (List.map trim) (List.filter_congr fun l _ => ?_)
  rw [Function.comp_apply, decide_eq_decide, ne_eq, ne_eq, evaluate_line_eq_empty_iff]

/-- Entries in a text file are loaded in order, each as it is, with whatever blanks and line
    ends they have been written.  A text file that is loaded holds the entries that it
    gives, and these are its lines without the blanks around them but for the lines that are
    empty expressions; written with a line feed between each two neighbours they are loaded
    again, and no row of their table has the fault of an empty expression. -/
theorem text_file_gives_entries {path : String} (hpath : Dataset.isTable path = false)
    (files : Files) (column? : Option String) :
    (∀ L cs, (∀ s ∈ L, IsEntry s.toList) → Writes L cs → files.read path = .ok (encode cs) →
      Dataset.load files path column? = .ok L) ∧
    ∀ L, Dataset.load files path column? = .ok L →
      (∃ cs, files.read path = .ok (encode cs) ∧ (∀ s ∈ L, IsEntry s.toList) ∧ Writes L cs ∧
        L = ((lines cs).filter fun l =>
            evaluate (String.ofList l) ≠ .error (.format .emptyExpression)).map
          fun l => String.ofList (trim l)) ∧
      (∀ other : Files, other.read path = .ok (encode (joined L)) →
        Dataset.load other path column? = .ok L) ∧
      ∀ r ∈ evaluateAll L, r.error ≠ faultText (.format .emptyExpression) := by
  constructor
  · intro L cs hL hcs hread
    exact (load_eq_ok_iff hpath).2 ⟨cs, hread, map_expressionLines_of_writes hL hcs⟩
  · intro L hload
    obtain ⟨cs, hread, rfl⟩ := (load_eq_ok_iff hpath).1 hload
    have hentries : ∀ s ∈ (expressionLines cs).map String.ofList, IsEntry s.toList := by
      intro s hs
      obtain ⟨l, hl, rfl⟩ := List.mem_map.1 hs
      rw [String.toList_ofList]
      exact isEntry_of_mem hl
    refine ⟨⟨cs, hread, hentries, writes_expressionLines cs, ?_⟩, ?_, ?_⟩
    · rw [expressionLines_eq, List.map_map]
      rfl
    · intro other hother
      exact (load_eq_ok_iff hpath).2
        ⟨_, hother, map_expressionLines_of_writes hentries (writes_joined _)⟩
    · intro r hr
      obtain ⟨s, hs, rfl⟩ := List.mem_map.1 hr
      exact error_ne_of_ne_empty (hentries s hs).evaluate_ne

/-- A text file with every line end: a carriage return and a line feed next to each other
    are one end, and a line separator within a line is none. -/
def mixedEnds : List Char := " 1+1\r\n\u2028\t\r\n2\u2028*3\u0085".toList

theorem text_file_gives_entries_mixedEnds :
    (∀ s ∈ ["1+1", "2\u2028*3"], IsEntry s.toList) ∧ Writes ["1+1", "2\u2028*3"] mixedEnds ∧
      Dataset.load (.ofList [("in.txt", encode mixedEnds)]) "in.txt" none
        = .ok ["1+1", "2\u2028*3"] ∧
      Dataset.load (.ofList [("in.txt", encode (joined ["1+1", "2\u2028*3"]))]) "in.txt" none
        = .ok ["1+1", "2\u2028*3"] := by
  have hentries : ∀ s ∈ ["1+1", "2\u2028*3"], IsEntry s.toList := by
    decide +kernel
  -- The first two ends are taken for two lines, and read as one.
  have hwrites : Writes ["1+1", "2\u2028*3"] mixedEnds :=
    .entryLine "1+1" (show IsPadding [' '] by decide +kernel) isPadding_nil .carriageReturn
      (.blankLine isPadding_nil .lineFeed
        (.blankLine (show IsPadding ['\u2028', '\t'] by decide +kernel) .returnAndFeed
          (.entry "2\u2028*3" isPadding_nil (show IsPadding ['\u0085'] by decide +kernel))))
  obtain ⟨hload, hagain⟩ :=
    text_file_gives_entries (show Dataset.isTable "in.txt" = false by decide +kernel)
      (.ofList [("in.txt", encode mixedEnds)]) none
  have hfirst := hload _ _ hentries hwrites (by decide +kernel)
  exact ⟨hentries, hwrites, hfirst, (hagain _ hfirst).2.1 _ (by decide +kernel)⟩

end TextFiles

end InfixArithmetic
