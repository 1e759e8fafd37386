/-
  InfixArithmetic.Proofs.UnquotedReturns

  Tables of expressions that are evaluated, saved and loaded again.

  The expressions of a table may hold any character.  Those with a comma, a double quote
  or a line feed are quoted when they are saved, and come back, and so do those without a
  line end (`load_evaluateAll`).  A carriage return by itself is not quoted for, though the
  reader ends a record there: the first such expression does not come back
  (`load_ne_of_not_isProtected`), so the saved table gives the expressions exactly if there
  is none, wherever they have been loaded from.
-/

import InfixArithmetic.Proofs.CutRecords
import InfixArithmetic.Proofs.SavedTables

namespace InfixArithmetic.UnquotedReturns

open Batch (Row evaluateAll fieldBytes toCsv resultField)
open Csv (IsCut IsProtected IsWritable)
open SavedTables (IsTarget checkWritable_target columnNames_header isProtected_of_not_mem
  isWritable_evaluateAll isWritable_header load_evaluateAll map_fields_ofExpression
  mem_fieldBytes_return return_notMem_error return_notMem_resultField save_target)
open Text.Utf8 (encode mem_encode_ascii)

/-! ## Expressions that are protected -/

theorem isProtected_iff {s : String} :
    IsProtected (fieldBytes s) ↔
      ('\r' ∈ s.toList → ',' ∈ s.toList ∨ '"' ∈ s.toList ∨ '\n' ∈ s.toList) := by
  have hquotes : (fieldBytes s).any Csv.needsQuotes = true ↔
      Csv.comma ∈ fieldBytes s ∨ Csv.quote ∈ fieldBytes s ∨ Csv.lineFeed ∈ fieldBytes s := by
    simp only [List.any_eq_true, Csv.needsQuotes, Bool.or_eq_true, beq_iff_eq, and_or_left,
      exists_or, exists_eq_right, or_assoc]
  have hcomma : Csv.comma ∈ fieldBytes s ↔ ',' ∈ s.toList :=
    mem_encode_ascii (d := ',') (by decide)
  have hquote : Csv.quote ∈ fieldBytes s ↔ '"' ∈ s.toList :=
    mem_encode_ascii (d := '"') (by decide)
  have hfeed : Csv.lineFeed ∈ fieldBytes s ↔ '\n' ∈ s.toList :=
    mem_encode_ascii (d := '\n') (by decide)
  rw [IsProtected, hquotes, mem_fieldBytes_return, hcomma, hquote, hfeed]

/-! ## Loading -/

/-- The expressions of a table are the texts of one of its columns. -/
theorem load_table_eq_ok {files : Files} {path : String} (hpath : Dataset.isTable path = true)
    {column? : Option String} {L : List String}
    (hload : Dataset.load files path column? = .ok L) :
    ∃ bytes t column, files.read path = .ok bytes ∧ Csv.parse bytes = .ok t ∧
      t.column? (Dataset.column column?).toList = some column ∧ L = column.map String.ofList := by
  rw [Dataset.load] at hload
  split at hload
  next => cases hload
  next bytes hread =>
    rw [Dataset.expressions, if_pos hpath, Dataset.columnExpressions] at hload
    split at hload
    next => cases hload
    next t hparse =>
      split at hload
      next column hcolumn =>
        cases hload
        exact ⟨bytes, t, column, hread, hparse, hcolumn, rfl⟩
      next => cases hload

/-! ## Saving -/

/-- The rows of some expressions as records. -/
def written (expressions : List String) : List (List (List UInt8)) :=
  (evaluateAll expressions).map fun r => r.fields.map fieldBytes

/-- A file is what is written before a row, the row and what is written after it. -/
theorem toCsv_append (before : List String) (s : String) (after : List String) :
    toCsv (evaluateAll (before ++ s :: after)) =
      Csv.write ((Batch.columns.map String.toList).map encode :: written before) ++
        (Csv.writeRecord [fieldBytes s, fieldBytes (resultField (Row.ofExpression s).result),
            fieldBytes (Row.ofExpression s).error] ++ Csv.write (written after)) := by
  rw [← map_fields_ofExpression]
  simp only [toCsv, written, evaluateAll, Csv.write, List.map_append, List.map_cons, List.map_map,
    List.flatMap_cons, List.flatMap_append, List.append_assoc]
  rfl

/-- The row of an expression that is not protected starts with a record that is cut. -/
theorem opens_cut_row {s : String} (hs : ¬ IsProtected (fieldBytes s)) (rest : List UInt8) :
    ∃ o cut, Csv.opening? 0 [] .lineStart
          (Csv.writeRecord [fieldBytes s, fieldBytes (resultField (Row.ofExpression s).result),
            fieldBytes (Row.ofExpression s).error] ++ rest) = some o ∧
      Csv.takeRecord .fieldStart o.text = some cut ∧ IsCut 3 cut.fields := by
  rw [IsProtected, Classical.not_imp, Bool.not_eq_true] at hs
  have hresult : Csv.carriageReturn ∉ fieldBytes (resultField (Row.ofExpression s).result) :=
    fun h => return_notMem_resultField _ (mem_fieldBytes_return.1 h)
  have herror := isProtected_of_not_mem (return_notMem_error s)
  exact Csv.opens_cut hs.2 hresult (List.cons_ne_nil _ []) (List.forall_mem_singleton.2 herror) rest

/-- The expressions are in the first column. -/
theorem column?_expression {t : Csv.Table} (hnames : t.names = Batch.columns.map String.toList)
    (hcount : t.columns.length = 3) : t.column? "expression".toList = t.columns[0]? := by
  have hindex : t.names.idxOf? "expression".toList = some 0 := by
    rw [hnames]
    decide
  have hlength : t.names.length = t.columns.length := by
    rw [hcount, hnames]
    rfl
  have hlt : 0 < t.columns.length := by omega
  rw [Csv.column?_eq hlength hindex, List.getD_eq_getElem _ _ hlt, List.getElem?_eq_getElem hlt]

/-- The first expression that is not protected is not loaded again in its row. -/
theorem load_ne_of_not_isProtected {files : Files} {out : String} (hout : IsTarget files out)
    {before : List String} (hbefore : ∀ t ∈ before, IsProtected (fieldBytes t)) {s : String}
    (hs : ¬ IsProtected (fieldBytes s)) (after : List String) :
    Dataset.load (files.after ⟨out, toCsv (evaluateAll (before ++ s :: after))⟩) out
        (some "expression") ≠ .ok (before ++ s :: after) := by
  intro hload
  obtain ⟨bytes, t, column, hread, hparse, hcolumn, hL⟩ := load_table_eq_ok hout.isTable hload
  rw [Files.read_after (checkWritable_target hout), Except.ok.injEq] at hread
  rw [← hread, toCsv_append] at hparse
  obtain ⟨o, cut, hopening, htaken, hcut⟩ := opens_cut_row hs (Csv.write (written after))
  have hwritable : ∀ r ∈ (Batch.columns.map String.toList).map encode :: written before,
      IsWritable r :=
    List.forall_mem_cons.2
      ⟨isWritable_header, List.forall_mem_map.2 (isWritable_evaluateAll hbefore)⟩
  have hwidth : ∀ r ∈ written before, r.length = 3 := by
    intro r hr
    obtain ⟨row, -, rfl⟩ := List.mem_map.1 hr
    rfl
  obtain ⟨hnames, hcount, htexts⟩ :=
    Csv.parse_cut hwritable hwidth hopening htaken hcut rfl hparse
  have hfirst : t.columns[0]? = some column :=
    (column?_expression (hnames.trans columnNames_header) hcount).symm.trans hcolumn
  -- The text in the place of the expression is another one.
  have hentry := congrArg (·[before.length]?) hL
  simp only [List.getElem?_append_right, Nat.le_refl, Nat.sub_self, List.getElem?_cons_zero,
    List.getElem?_map] at hentry
  obtain ⟨cs, hcs, rfl⟩ := Option.map_eq_some_iff.1 hentry.symm
  have hplain : '\r' ∉ cs := by
    refine htexts column hfirst cs ?_
    rw [written, evaluateAll, List.length_map, List.length_map, hcs]
  refine hs (isProtected_of_not_mem ?_)
  rw [String.toList_ofList]
  exact hplain

/-! ## The round trip -/

theorem exists_first_of_not_isProtected {L : List String}
    (hL : ¬ ∀ s ∈ L, IsProtected (fieldBytes s)) :
    ∃ before s after, L = before ++ s :: after ∧ (∀ t ∈ before, IsProtected (fieldBytes t)) ∧
      ¬ IsProtected (fieldBytes s) := by
  cases hfind : L.find? (fun s => ¬ IsProtected (fieldBytes s)) with
  | none => exact absurd (by simpa using List.find?_eq_none.1 hfind) hL
  | some s =>
    obtain ⟨hs, before, after, rfl, hbefore⟩ := List.find?_eq_some_iff_append.1 hfind
    exact ⟨before, s, after, rfl, by simpa using hbefore, by simpa using hs⟩

/-- A table of expressions with a comma or a line feed beside a carriage return. -/
def quotedReturns : Files :=
  .ofList [("in.csv", fieldBytes "expression\n\"1\r,2\"\n\"3\r\n+4\"\n")]

/-- A table of one expression, with a carriage return in it. -/
def loneReturn : Files := .ofList [("in.csv", fieldBytes "expression\n\"1\r+2\"\n")]

/-- What it is saved to: the carriage return is not quoted. -/
def splitReturn : Batch.Written :=
  ⟨"out.csv", fieldBytes "expression,result,error\n1\r+2,3.0,\n"⟩

end InfixArithmetic.UnquotedReturns
