/-
  InfixArithmetic.Proofs.SavedTables

  Tables of results that are saved and loaded again.

  A table comes back as it was saved if every field with a carriage return in it is quoted
  (`load_saved`).  A result and an error never hold a carriage return, so that is asked of
  the expressions only (`isWritable_row`).  An expression that was a line of a text holds no
  line end, so a table of such expressions comes back (`isProtected_of_load`).
-/

import InfixArithmetic.Proofs.BatchRows
import InfixArithmetic.Proofs.CsvRoundTrip
import InfixArithmetic.Proofs.RoundTrip
import InfixArithmetic.Table.Batch

namespace InfixArithmetic

/-! ## Results -/

theorem Numeral.return_notMem {cs : List Char} (h : AllDigits cs) : '\r' ∉ cs :=
  fun hreturn => absurd (h _ hreturn) (by decide)

theorem Text.return_notMem_natural (n : Nat) : '\r' ∉ (natural n).toList := by
  rw [natural, String.toList_ofList]
  exact Numeral.return_notMem (Numeral.allDigits_toDigits n)

namespace Layout

theorem return_notMem_positional {digits : List Char} (h : Numeral.AllDigits digits)
    (first : Int) : '\r' ∉ displayed.positional digits first := by
  have hdigits := Numeral.return_notMem h
  have hzeros (k : Nat) := Numeral.return_notMem (Numeral.allDigits_replicate_zero k)
  rw [positional]
  split
  next hsmall =>
    simp only [List.mem_cons, List.mem_append, not_or]
    exact ⟨by decide, by decide, hzeros _, hdigits⟩
  next hlarge =>
    dsimp only
    split
    next hwhole =>
      simp only [List.mem_append, not_or]
      exact ⟨⟨hdigits, hzeros _⟩, by decide⟩
    next hwhole =>
      simp only [List.mem_cons, List.mem_append, not_or]
      exact ⟨fun h => hdigits (List.mem_of_mem_take h), by decide,
        fun h => hdigits (List.mem_of_mem_drop h)⟩

theorem return_notMem_scientific {digits : List Char} (h : Numeral.AllDigits digits)
    (first : Int) : '\r' ∉ displayed.scientific digits first := by
  have hdigits := Numeral.return_notMem h
  have hfraction : '\r' ∉ if digits.drop 1 = [] then [] else '.' :: digits.drop 1 := by
    split
    · exact List.not_mem_nil
    · simp only [List.mem_cons, not_or]
      exact ⟨by decide, fun h => hdigits (List.mem_of_mem_drop h)⟩
  have hexponent :
      '\r' ∉ (Nat.toDigits 10 first.natAbs).leftpad displayed.exponentDigits '0' :=
    Numeral.return_notMem (Numeral.allDigits_append.2
      ⟨Numeral.allDigits_replicate_zero _, Numeral.allDigits_toDigits _⟩)
  have hsign : '\r' ≠ if first < 0 then '-' else '+' := by
    split <;> decide
  simp only [scientific, List.mem_append, List.mem_cons, not_or]
  exact ⟨⟨fun h => hdigits (List.mem_of_mem_take h), hfraction⟩, by decide, hsign, hexponent⟩

theorem return_notMem_render (x : Binary64) : '\r' ∉ (displayed.render x).toList := by
  cases x with
  | nan => decide
  | infinite s => cases s <;> decide
  | finite s n =>
    have hmagnitude : '\r' ∉ displayed.magnitude (.finite s n) n := by
      rw [magnitude]
      split
      · exact return_notMem_positional (Numeral.allDigits_toDigits _) _
      · exact return_notMem_scientific (Numeral.allDigits_toDigits _) _
    rw [render, String.toList_ofList, List.mem_append, not_or]
    refine ⟨?_, hmagnitude⟩
    cases s <;> decide

end Layout

/-! ## Names of files -/

/-- What does not go over a slash at the end of a path is in its last part. -/
theorem Path.getLast?_splitOn {ending : List Char} (h : '/' ∉ ending) (cs : List Char) :
    ∃ before, ((cs ++ ending).splitOn '/').getLast? = some (before ++ ending) := by
  induction cs with
  | nil => exact ⟨[], by rw [List.nil_append, List.splitOn_eq_singleton h]; rfl⟩
  | cons c cs ih =>
    obtain ⟨before, hlast⟩ := ih
    rw [List.cons_append, List.splitOn, List.splitOnP_cons_eq_if_modifyHead]
    rw [List.splitOn] at hlast
    obtain ⟨part, parts, hparts⟩ :=
      List.exists_cons_of_ne_nil (List.splitOnP_ne_nil (· == '/') (cs ++ ending))
    rw [hparts] at hlast ⊢
    split
    next hslash => exact ⟨before, by rw [List.getLast?_cons_cons, hlast]⟩
    next hslash =>
      rw [List.modifyHead_cons]
      cases parts with
      | nil =>
        refine ⟨c :: before, ?_⟩
        rw [List.getLast?_singleton, Option.some_inj] at hlast ⊢
        rw [hlast, List.cons_append]
      | cons next parts =>
        refine ⟨before, ?_⟩
        rw [List.getLast?_cons_cons] at hlast ⊢
        exact hlast

/-- The name of a table is no name of a directory. -/
theorem Path.not_namesDirectory {path : String} (h : Dataset.isTable path = true) :
    Path.namesDirectory path = false := by
  obtain ⟨cs, hcs⟩ := List.isSuffixOf_iff_suffix.1 h
  have hslash : '/' ∉ ".csv".toList := by decide
  obtain ⟨before, hlast⟩ := Path.getLast?_splitOn hslash cs
  rw [hcs] at hlast
  have hlength : 4 ≤ (before ++ ".csv".toList).length := by
    rw [List.length_append]
    exact Nat.le_add_left ..
  simp only [Path.namesDirectory, hlast, Bool.or_eq_false_iff, beq_eq_false_iff_ne, ne_eq,
    Option.some_inj]
  constructor
  · intro hnil
    rw [hnil] at hlength
    exact absurd hlength (by decide)
  · intro hpoint
    rw [hpoint] at hlength
    exact absurd hlength (by decide)

namespace Files

/-- The files after one has been written. -/
def after (files : Files) (w : Batch.Written) : Files where
  bytes? path :=
    if Path.normalize path = Path.normalize w.path then some w.content else files.bytes? path
  isDirectory := files.isDirectory

/-- What has been written can be read. -/
theorem read_after {files : Files} {w : Batch.Written}
    (h : files.checkWritable w.path = .ok ()) : (files.after w).read w.path = .ok w.content := by
  have hbytes : (files.after w).bytes? w.path = some w.content := if_pos rfl
  rw [checkWritable] at h
  split at h
  next => cases h
  next =>
    split at h
    next => cases h
    next hfile =>
      rw [Bool.or_eq_true, not_or, Bool.not_eq_true, Bool.not_eq_true] at hfile
      have hdirectory : (files.after w).isDirectory w.path = false := hfile.1
      simp only [read, hdirectory, hbytes, hfile.2]
      rfl

end Files

namespace SavedTables

open Batch (Row evaluateAll fieldBytes toCsv resultField faultText)
open BatchRows (ofExpression_error ofExpression_expression ofExpression_ok)
open Csv (IsProtected IsWritable)
open EvaluationOutcomes (scan_fault evaluate_fault)
open Expression (scan evaluate)
open Text.Utf8 (encode)

theorem return_notMem_resultField (x : Binary64) : '\r' ∉ (resultField x).toList := by
  rw [resultField]
  split
  · decide
  · exact Layout.return_notMem_render x

/-! ## Errors -/

theorem return_notMem_scanFault {s : String} {f : FormatFault} (h : scan s = .error f) :
    '\r' ∉ f.message.toList := by
  rcases scan_fault h with rfl | ⟨n, rfl⟩ | ⟨n, rfl⟩ | rfl
  · decide
  · show '\r' ∉ ("Invalid number at position " ++ Text.natural n).toList
    rw [String.toList_append, List.mem_append, not_or]
    exact ⟨by decide, Text.return_notMem_natural n⟩
  · show '\r' ∉ ("Invalid operator at position " ++ Text.natural n).toList
    rw [String.toList_append, List.mem_append, not_or]
    exact ⟨by decide, Text.return_notMem_natural n⟩
  · decide

theorem return_notMem_error (s : String) : '\r' ∉ (Row.ofExpression s).error.toList := by
  cases h : evaluate s with
  | ok x =>
    rw [ofExpression_ok h]
    show '\r' ∉ "".toList
    decide
  | error f =>
    rw [ofExpression_error h]
    rcases evaluate_fault h with ⟨g, hg, rfl⟩ | rfl
    · show '\r' ∉ ("FormatError: " ++ g.message).toList
      rw [String.toList_append, List.mem_append, not_or]
      exact ⟨by decide, return_notMem_scanFault hg⟩
    · show '\r' ∉ (faultText (.division .zeroDivisor)).toList
      decide

/-! ## Lines -/

theorem lines_chars {cs l : List Char} (hl : l ∈ Text.lines cs) : '\n' ∉ l ∧ '\r' ∉ l := by
  fun_induction Text.lines cs generalizing l with
  | case1 =>
    rw [List.mem_singleton.1 hl]
    decide
  | case2 cs ih | case3 c cs _ _ ih =>
    rcases List.mem_cons.1 hl with rfl | hl
    · decide
    · exact ih hl
  | case4 c cs _ _ hnil => exact absurd hnil (Text.lines_ne_nil cs)
  | case5 c cs _ hc line ls hlines ih =>
    rw [hlines] at ih
    rcases List.mem_cons.1 hl with rfl | hl
    · obtain ⟨hfeed, hreturn⟩ := ih List.mem_cons_self
      simp only [List.mem_cons, not_or]
      exact ⟨⟨fun h => hc (.inl h.symm), hfeed⟩, fun h => hc (.inr h.symm), hreturn⟩
    · exact ih (List.mem_cons_of_mem line hl)

theorem trim_sublist (cs : List Char) : (Text.trim cs).Sublist cs := by
  rw [Text.trim, Text.trimBy]
  have hfront := List.dropWhile_sublist Text.isBlank (l := cs)
  -- The end of a text is the front of it reversed.
  have hend := (List.dropWhile_sublist Text.isBlank
    (l := (cs.dropWhile Text.isBlank).reverse)).reverse
  rw [List.reverse_reverse] at hend
  exact hend.trans hfront

/-- An expression of a text file holds no line end. -/
theorem expressionLines_chars {cs l : List Char} (hl : l ∈ Dataset.expressionLines cs) :
    '\n' ∉ l ∧ '\r' ∉ l := by
  obtain ⟨line, hline, rfl⟩ := List.mem_map.1 (List.mem_of_mem_filter hl)
  obtain ⟨hfeed, hreturn⟩ := lines_chars hline
  have hsubset := (trim_sublist line).subset
  exact ⟨fun h => hfeed (hsubset h), fun h => hreturn (hsubset h)⟩

/-! ## Saving -/

/-- A name that a table can be saved under. -/
structure IsTarget (files : Files) (out : String) : Prop where
  isTable : Dataset.isTable out = true
  inDirectory : files.isDirectory (Path.parent out) = true
  notDirectory : files.isDirectory out = false

section Target

variable {files : Files} {out : String} (hout : IsTarget files out)

include hout

theorem checkWritable_target : files.checkWritable out = .ok () := by
  have hname := Path.not_namesDirectory hout.isTable
  simp [Files.checkWritable, hout.inDirectory, hout.notDirectory, hname]

theorem save_target (rows : List Row) :
    Batch.save files rows (some out) = .ok ⟨out, toCsv rows⟩ := by
  have hne : out ≠ "" := by
    rintro rfl
    exact absurd hout.isTable (by decide)
  rw [Batch.save, Batch.outputPath, Dataset.orDefault, if_neg hne, checkWritable_target hout]
  rfl

end Target

/-! ## Rows as records -/

theorem mem_fieldBytes_return {s : String} :
    Csv.carriageReturn ∈ fieldBytes s ↔ '\r' ∈ s.toList :=
  Text.Utf8.mem_encode_ascii (d := '\r') (by decide)

theorem isProtected_of_not_mem {s : String} (h : '\r' ∉ s.toList) :
    IsProtected (fieldBytes s) := by
  intro hreturn
  exact absurd (mem_fieldBytes_return.1 hreturn) h

theorem map_fields_ofExpression (s : String) :
    (Row.ofExpression s).fields.map fieldBytes =
      [fieldBytes s, fieldBytes (resultField (Row.ofExpression s).result),
        fieldBytes (Row.ofExpression s).error] := by
  rw [Row.fields, ofExpression_expression]
  rfl

/-- The row of an expression can be written if the expression can. -/
theorem isWritable_row {s : String} (h : IsProtected (fieldBytes s)) :
    IsWritable ((Row.ofExpression s).fields.map fieldBytes) where
  several := by
    rw [List.length_map]
    exact Nat.le_succ 2
  isProtected := by
    rw [map_fields_ofExpression]
    simp only [List.forall_mem_cons]
    exact ⟨h, isProtected_of_not_mem (return_notMem_resultField _),
      isProtected_of_not_mem (return_notMem_error s), List.forall_mem_nil _⟩

theorem isWritable_evaluateAll {L : List String} (hL : ∀ s ∈ L, IsProtected (fieldBytes s)) :
    ∀ r ∈ evaluateAll L, IsWritable (r.fields.map fieldBytes) :=
  List.forall_mem_map.2 fun s hs => isWritable_row (hL s hs)

/-- The header can be written too. -/
theorem isWritable_header : IsWritable ((Batch.columns.map String.toList).map encode) where
  several := by decide
  isProtected := by decide

theorem columnNames_header :
    Csv.columnNames (Batch.columns.map String.toList) = Batch.columns.map String.toList := by
  decide

/-! ## Loading -/

section Loading

variable {rows : List Row} (hrows : ∀ r ∈ rows, IsWritable (r.fields.map fieldBytes))

include hrows

/-- The table in a saved file. -/
theorem parse_toCsv :
    Csv.parse (toCsv rows) = .ok ⟨Batch.columns.map String.toList,
      [rows.map fun r => r.expression.toList,
        rows.map fun r => (resultField r.result).toList,
        rows.map fun r => r.error.toList]⟩ := by
  have hbytes : toCsv rows = Csv.write ((Batch.columns.map String.toList ::
      rows.map fun r => r.fields.map String.toList).map (·.map encode)) := by
    simp only [toCsv, List.map_cons, List.map_map]
    rfl
  have hcolumns : (List.range 3).map (fun i =>
      (rows.map fun r => r.fields.map String.toList).map fun r => r.getD i []) =
      [rows.map fun r => r.expression.toList,
        rows.map fun r => (resultField r.result).toList,
        rows.map fun r => r.error.toList] := by
    simp only [List.map_map]
    rfl
  rw [hbytes, Csv.parse_write]
  · rw [columnNames_header, ← hcolumns]
    rfl
  · refine List.forall_mem_cons.2 ⟨isWritable_header, ?_⟩
    intro texts htexts
    obtain ⟨r, hr, rfl⟩ := List.mem_map.1 htexts
    rw [List.map_map]
    exact hrows r hr
  · intro texts htexts
    obtain ⟨r, -, rfl⟩ := List.mem_map.1 htexts
    rfl
  · rfl

variable {files : Files} {out : String} (hout : IsTarget files out)

include hout

/-- A column of a saved file, by its name. -/
theorem load_column {name : String} (index : Nat)
    (hname : (Batch.columns.map String.toList).idxOf? name.toList = some index) :
    Dataset.load (files.after ⟨out, toCsv rows⟩) out (some name) =
      .ok ([rows.map fun r => r.expression,
        rows.map fun r => resultField r.result,
        rows.map Row.error].getD index []) := by
  have hread := Files.read_after (w := ⟨out, toCsv rows⟩) (checkWritable_target hout)
  have hdefault : Dataset.column (some name) = name := by
    refine if_neg ?_
    rintro rfl
    have hnone : (Batch.columns.map String.toList).idxOf? "".toList = none := by decide
    rw [hnone] at hname
    cases hname
  have hcolumn : Dataset.columnExpressions name (toCsv rows) =
      .ok ([rows.map fun r => r.expression.toList,
        rows.map fun r => (resultField r.result).toList,
        rows.map fun r => r.error.toList].getD index []) := by
    simp only [Dataset.columnExpressions, parse_toCsv hrows]
    rw [Csv.column?_eq rfl hname]
  simp only [Dataset.load, hread, Dataset.expressions, if_pos hout.isTable, hdefault, hcolumn]
  refine congrArg Except.ok ((List.getD_map _ [] (List.map String.ofList)).symm.trans ?_)
  simp only [List.map_cons, List.map_nil, List.map_map, Function.comp_def, String.ofList_toList]

/-- The three columns of a saved file. -/
theorem load_saved :
    Dataset.load (files.after ⟨out, toCsv rows⟩) out (some "expression") =
        .ok (rows.map fun r => r.expression) ∧
      Dataset.load (files.after ⟨out, toCsv rows⟩) out (some "result") =
        .ok (rows.map fun r => resultField r.result) ∧
      Dataset.load (files.after ⟨out, toCsv rows⟩) out (some "error") =
        .ok (rows.map Row.error) :=
  ⟨load_column hrows hout 0 (by decide), load_column hrows hout 1 (by decide),
    load_column hrows hout 2 (by decide)⟩

end Loading

/-- Every table of expressions that can be written comes back. -/
theorem load_evaluateAll {files : Files} {out : String} (hout : IsTarget files out)
    {L : List String} (hL : ∀ s ∈ L, IsProtected (fieldBytes s)) :
    Dataset.load (files.after ⟨out, toCsv (evaluateAll L)⟩) out (some "expression") = .ok L ∧
      Dataset.load (files.after ⟨out, toCsv (evaluateAll L)⟩) out (some "result") =
        .ok ((evaluateAll L).map fun r => resultField r.result) ∧
      Dataset.load (files.after ⟨out, toCsv (evaluateAll L)⟩) out (some "error") =
        .ok ((evaluateAll L).map Row.error) := by
  obtain ⟨hexpression, hresult, herror⟩ := load_saved (isWritable_evaluateAll hL) hout
  refine ⟨?_, hresult, herror⟩
  rw [hexpression, evaluateAll, List.map_map]
  simp only [Function.comp_def, ofExpression_expression, List.map_id']

/-! ## The round trip -/

/-- A text that gives a result back: NaN is the empty one. -/
def GivesBack (x : Binary64) (text : String) : Prop :=
  (x = .nan → text = "") ∧ (x ≠ .nan → NumberText.parse (.text text) = .ok x)

theorem givesBack_resultField (x : Binary64) : GivesBack x (resultField x) := by
  constructor
  · rintro rfl
    rfl
  · intro hne
    have hfield : resultField x = Layout.displayed.render x := by
      cases x with
      | nan => exact absurd rfl hne
      | infinite s | finite s n => rfl
    rw [hfield]
    exact NumberText.parse_text (Layout.displayed_readable.parse?_render x)

/-- The expressions of a text file can be written. -/
theorem isProtected_of_load {files : Files} {path : String} {column? : Option String}
    {L : List String} (hpath : Dataset.isTable path = false)
    (hload : Dataset.load files path column? = .ok L) :
    ∀ s ∈ L, IsProtected (fieldBytes s) := by
  rw [Dataset.load] at hload
  split at hload
  next => cases hload
  next bytes =>
    rw [Dataset.expressions, if_neg (by simp [hpath])] at hload
    split at hload
    next => cases hload
    next cs _ =>
      cases hload
      intro s hs
      obtain ⟨l, hl, rfl⟩ := List.mem_map.1 hs
      refine isProtected_of_not_mem ?_
      rw [String.toList_ofList]
      exact (expressionLines_chars hl).2

/-- The expressions of a text file are evaluated, saved and loaded again.  They come back
    as they were, whatever characters they hold, in the same rows; so do the errors, and
    every result as a text that is read as this result. -/
theorem saved_table_reloads {files : Files} {path : String} {column? : Option String}
    {L : List String} (hpath : Dataset.isTable path = false)
    (hload : Dataset.load files path column? = .ok L) {out : String}
    (hout : IsTarget files out) :
    ∃ w, Batch.save files (evaluateAll L) (some out) = .ok w ∧ w.path = out ∧
      Dataset.load (files.after w) out (some "expression") = .ok L ∧
      Dataset.load (files.after w) out (some "error") = .ok ((evaluateAll L).map Row.error) ∧
      ∃ texts, Dataset.load (files.after w) out (some "result") = .ok texts ∧
        List.Forall₂ (fun r text => GivesBack r.result text) (evaluateAll L) texts := by
  obtain ⟨hexpression, hresult, herror⟩ :=
    load_evaluateAll hout (isProtected_of_load hpath hload)
  refine ⟨⟨out, toCsv (evaluateAll L)⟩, save_target hout _, rfl, hexpression, herror, _,
    hresult, ?_⟩
  rw [List.forall₂_map_right_iff, List.forall₂_same]
  intro r _
  exact givesBack_resultField r.result

/-- Lines with a comma, with a lone quote, with a zero divisor and with a zero character. -/
def fourLines : Files := .ofList [("in.txt", fieldBytes " 1,5\r\n\"\n1/0\n1\x002\n")]

theorem saved_table_reloads_quotes :
    Dataset.load fourLines "in.txt" none = .ok ["1,5", "\"", "1/0", "1\x002"] ∧
      IsTarget fourLines "out.csv" ∧
      ∃ w, Batch.save fourLines (evaluateAll ["1,5", "\"", "1/0", "1\x002"])
          (some "out.csv") = .ok w ∧
        Dataset.load (fourLines.after w) "out.csv" (some "expression") =
          .ok ["1,5", "\"", "1/0", "1\x002"] ∧
        Dataset.load (fourLines.after w) "out.csv" (some "error") =
          .ok ["FormatError: Invalid operator at position 1",
            "FormatError: Invalid number at position 0", "DivisionByZero: Division by zero",
            "FormatError: Invalid operator at position 1"] := by
  have hload : Dataset.load fourLines "in.txt" none = .ok ["1,5", "\"", "1/0", "1\x002"] := by
    decide +kernel
  have hout : IsTarget fourLines "out.csv" :=
    ⟨by decide +kernel, by decide +kernel, by decide +kernel⟩
  obtain ⟨w, hw, -, hexpressions, herrors, -⟩ :=
    saved_table_reloads (by decide +kernel) hload hout
  have hrows : (evaluateAll ["1,5", "\"", "1/0", "1\x002"]).map Row.error =
      ["FormatError: Invalid operator at position 1",
        "FormatError: Invalid number at position 0", "DivisionByZero: Division by zero",
        "FormatError: Invalid operator at position 1"] := by
    decide +kernel
  rw [hrows] at herrors
  exact ⟨hload, hout, w, hw, hexpressions, herrors⟩

end SavedTables

end InfixArithmetic
