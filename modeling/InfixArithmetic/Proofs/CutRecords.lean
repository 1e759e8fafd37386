/-
  InfixArithmetic.Proofs.CutRecords

  Records that carriage returns cut.

  A field with a carriage return, and without a byte for which the writer quotes it, is
  written as it is.  The reader ends a record at the first such return, or passes over it
  as the end of a blank line, so whichever record it finds there has no carriage return in
  its first field (`opens_cut`).  A table with that record keeps its columns, since the
  record is not too wide, and the first of them holds a text without a carriage return in
  the place of the field (`parse_cut`).
-/

import InfixArithmetic.Proofs.CsvRoundTrip
import InfixArithmetic.Proofs.FallibleSteps

namespace InfixArithmetic.Csv

open FallibleSteps (bind_eq_ok map_eq_of_mapM)
open Text.Utf8 (encode mem_encode_ascii)

/-! ## The record of a field that is not protected -/

theorem ends_return (rest : List UInt8) :
    Ends (carriageReturn :: rest) [] (afterReturn rest) := by
  intro place hplace
  cases place with
  | quoted => exact absurd rfl hplace
  | fieldStart | unquoted | quoteSeen => rfl

/-- A record with `n` fields at most, and without a carriage return in the first one. -/
structure IsCut (n : Nat) (fields : List (List UInt8)) : Prop where
  width : fields.length ≤ n
  noReturn : carriageReturn ∉ fields.getD 0 []

/-- A field that is not quoted is read up to the first carriage return in it. -/
theorem takeRecord_cut {field : List UInt8} (hquotes : field.any needsQuotes = false)
    {bs rest : List UInt8} {fields : List (List UInt8)}
    (hnext : takeRecord .fieldStart bs = some ⟨fields, rest⟩) :
    ∃ t, takeRecord .fieldStart (field ++ comma :: bs) = some t ∧
      IsCut (fields.length + 1) t.fields := by
  by_cases hreturn : carriageReturn ∈ field
  · obtain ⟨before, after, rfl, hbefore⟩ := List.eq_append_cons_of_mem hreturn
    rw [List.any_append, Bool.or_eq_false_iff] at hquotes
    refine ⟨⟨[before], afterReturn (after ++ comma :: bs)⟩, ?_, ?_, hbefore⟩
    · rw [List.append_assoc]
      exact takeRecord_unquoted hquotes.1 hbefore (ends_return _) (by decide)
    · exact Nat.le_add_left 1 fields.length
  · exact ⟨⟨field :: fields, rest⟩,
      takeRecord_unquoted hquotes hreturn (ends_comma hnext) (by decide), Nat.le_refl _, hreturn⟩

/-- The record after a field that is not quoted starts in this field, or else the field is
    passed over as blank lines, the last one together with the comma. -/
theorem opening?_unquoted {field : List UInt8} (hquotes : field.any needsQuotes = false)
    (passed : Nat) (kept : List UInt8) (place : Margin) (bs : List UInt8) :
    (∃ passed' field', field' <:+ kept.reverse ++ field ∧
        opening? passed kept place (field ++ comma :: bs) =
          some ⟨passed', field' ++ comma :: bs⟩) ∨
      (place = .afterReturn ∨ carriageReturn ∈ field) ∧ ∃ passed',
        opening? passed kept place (field ++ comma :: bs) =
          opening? passed' (comma :: (field.reverse ++ kept)) .lineStart bs := by
  induction field generalizing passed kept place with
  | nil =>
    cases place with
    | afterReturn => exact .inr ⟨.inl rfl, passed, rfl⟩
    | lineStart => exact .inl ⟨passed, [], List.nil_suffix, rfl⟩
    | indented => exact .inl ⟨passed, kept.reverse, by simp, rfl⟩
  | cons b field ih =>
    rw [List.any_cons, Bool.or_eq_false_iff] at hquotes
    obtain ⟨hb, hquotes⟩ := hquotes
    simp only [needsQuotes, Bool.or_eq_false_iff, beq_eq_false_iff_ne] at hb
    obtain ⟨⟨hcomma, -⟩, hfeed⟩ := hb
    -- What is kept grows by the byte that is passed over.
    have hkept : (b :: kept).reverse ++ field = kept.reverse ++ b :: field := by simp
    have hlast : field.reverse ++ b :: kept = (b :: field).reverse ++ kept := by simp
    rw [List.cons_append, opening?, if_neg hfeed]
    by_cases hreturn : b = carriageReturn
    · rw [if_pos hreturn]
      obtain ⟨passed', field', hsuffix, hopening⟩ | ⟨-, passed', hopening⟩ :=
        ih hquotes (passed + 1) (b :: kept) .afterReturn
      · exact .inl ⟨passed', field', hkept ▸ hsuffix, hopening⟩
      · exact .inr ⟨.inr (hreturn ▸ List.mem_cons_self), passed', hlast ▸ hopening⟩
    · rw [if_neg hreturn, if_neg (fun h => hcomma h.1)]
      split
      next hspace =>
        obtain ⟨passed', field', hsuffix, hopening⟩ | ⟨hplace | hmem, passed', hopening⟩ :=
          ih hquotes passed (b :: kept) .indented
        · exact .inl ⟨passed', field', hkept ▸ hsuffix, hopening⟩
        · cases hplace
        · exact .inr ⟨.inr (List.mem_cons_of_mem b hmem), passed', hlast ▸ hopening⟩
      next hspace =>
        split
        next hindented =>
          exact .inl ⟨passed, kept.reverse ++ b :: field, List.suffix_refl _, by simp⟩
        next hindented =>
          exact .inl ⟨passed, b :: field, List.suffix_append _ _, rfl⟩

theorem any_needsQuotes_of_suffix {field field' : List UInt8} (hsuffix : field' <:+ field)
    (hquotes : field.any needsQuotes = false) : field'.any needsQuotes = false := by
  rw [List.any_eq_false] at hquotes ⊢
  exact fun b hb => hquotes b (hsuffix.subset hb)

/-- Two fields and more, the first of which is not quoted and the second without a carriage
    return: the record that starts there has no carriage return in its first field. -/
theorem opens_cut {first second : List UInt8} (hfirst : first.any needsQuotes = false)
    (hsecond : carriageReturn ∉ second) {fields : List (List UInt8)} (hne : fields ≠ [])
    (hfields : ∀ f ∈ fields, IsProtected f) (rest : List UInt8) :
    ∃ o t, opening? 0 [] .lineStart (writeRecord (first :: second :: fields) ++ rest) = some o ∧
      takeRecord .fieldStart o.text = some t ∧ IsCut (fields.length + 2) t.fields := by
  have hprotected : IsProtected second := fun h => absurd h hsecond
  have hnext := takeRecord_writeRecord (List.cons_ne_nil second fields)
    (List.forall_mem_cons.2 ⟨hprotected, hfields⟩) rest
  have hwritten : writeRecord (first :: second :: fields) ++ rest =
      first ++ comma :: (writeRecord (second :: fields) ++ rest) := by
    rw [writeRecord_cons (List.cons_ne_nil second fields), writeField,
      if_neg (Bool.eq_false_iff.1 hfirst), List.append_assoc, List.cons_append]
  rw [hwritten]
  obtain ⟨passed', field', hsuffix, hopening⟩ | ⟨-, passed', hopening⟩ :=
    opening?_unquoted hfirst 0 [] .lineStart (writeRecord (second :: fields) ++ rest)
  · obtain ⟨t, htaken, hcut⟩ := takeRecord_cut (any_needsQuotes_of_suffix hsuffix hfirst) hnext
    exact ⟨_, t, hopening, htaken, hcut⟩
  · -- The second field starts the record, unless there are spaces before it.
    rw [hopening]
    obtain ⟨back, rfl | rfl, hopening⟩ := opening?_writeRecord hprotected hne passed'
      (comma :: (first.reverse ++ [])) rest
    · exact ⟨_, _, hopening, hnext, Nat.le_succ _, hsecond⟩
    · obtain ⟨t, htaken, hcut⟩ := takeRecord_cut hfirst hnext
      refine ⟨_, t, hopening, ?_, hcut⟩
      simpa using htaken

/-! ## Tables that are read -/

theorem return_notMem_fieldText {field : List UInt8} (hreturn : carriageReturn ∉ field)
    {cs : List Char} (h : fieldText field = .ok cs) : '\r' ∉ cs := by
  intro hmem
  have hbyte := (mem_encode_ascii (d := '\r') (by decide)).2 hmem
  rw [fieldText_eq_ok_iff.1 h] at hbyte
  exact hreturn hbyte

/-- A table that is read has the names of the header, and its columns are those of the other
    records. -/
theorem parse_eq_ok {bs : List UInt8} {all : List Record} {unclosed : Option Nat}
    (hrecords : records (dropMark bs) = (all, unclosed)) {t : Table} (h : parse bs = .ok t) :
    readNames all unclosed = .ok t.names ∧
      (List.range (width all)).map (readColumn (all.drop 1)) = t.columns.map Except.ok := by
  rw [parse, hrecords] at h
  obtain ⟨names, hnames, h⟩ := bind_eq_ok h
  obtain ⟨-, -, h⟩ := bind_eq_ok h
  obtain ⟨columns, hcolumns, h⟩ := bind_eq_ok h
  cases h
  exact ⟨hnames, map_eq_of_mapM hcolumns⟩

/-- A column of a table holds the texts of the fields in its place. -/
theorem map_fieldText_column {bs : List UInt8} {all : List Record} {unclosed : Option Nat}
    (hrecords : records (dropMark bs) = (all, unclosed)) {t : Table} (h : parse bs = .ok t)
    {index : Nat} {column : List (List Char)} (hcolumn : t.columns[index]? = some column) :
    (all.drop 1).map (fun r => fieldText (r.fields.getD index [])) = column.map Except.ok := by
  obtain ⟨-, hcolumns⟩ := parse_eq_ok hrecords h
  have hindex := congrArg (·[index]?) hcolumns
  simp only [List.getElem?_map, hcolumn, Option.map_some, Option.map_eq_some_iff] at hindex
  obtain ⟨i, hi, hread⟩ := hindex
  obtain ⟨hlt, rfl⟩ := List.getElem?_eq_some_iff.1 hi
  rw [List.getElem_range] at hread
  exact map_eq_of_mapM hread

/-! ## Tables with a record that is cut -/

/-- The records up to one that is cut. -/
theorem recordsFrom_cut {header : List (List UInt8)} {front : List (List (List UInt8))}
    (hwritable : ∀ r ∈ header :: front, IsWritable r) {bs : List UInt8} {o : Opening}
    (hopening : opening? 0 [] .lineStart bs = some o) {cut : Taken}
    (htaken : takeRecord .fieldStart o.text = some cut) :
    ∃ first body line more unclosed,
      records (write (header :: front) ++ bs) =
        (first :: (body ++ ⟨line, cut.fields⟩ :: more), unclosed) ∧
      first.fields = header ∧ body.map Record.fields = front := by
  obtain ⟨line, found, hfound, hall⟩ := recordsFrom_write_append hwritable 0 bs
  rw [recordsFrom_step hopening htaken] at hall
  obtain ⟨first, body, rfl, hfirst, hbody⟩ := List.map_eq_cons_iff.1 hfound
  exact ⟨first, body, _, _, _, hall, hfirst, hbody⟩

/-- A table with a record that is cut has the columns of its header, and a text of the first
    column holds no carriage return. -/
theorem parse_cut {header : List (List Char)} {front : List (List (List UInt8))}
    (hwritable : ∀ r ∈ header.map encode :: front, IsWritable r)
    (hwidth : ∀ r ∈ front, r.length = header.length) {bs : List UInt8} {o : Opening}
    (hopening : opening? 0 [] .lineStart bs = some o) {cut : Taken}
    (htaken : takeRecord .fieldStart o.text = some cut) (hcut : IsCut header.length cut.fields)
    (hmark : dropMark (write (header.map encode :: front) ++ bs) =
      write (header.map encode :: front) ++ bs)
    {t : Table} (h : parse (write (header.map encode :: front) ++ bs) = .ok t) :
    t.names = columnNames header ∧ t.columns.length = header.length ∧
      ∀ column, t.columns[0]? = some column → ∀ cs, column[front.length]? = some cs →
        '\r' ∉ cs := by
  obtain ⟨first, body, line, more, unclosed, hall, hfirst, rfl⟩ :=
    recordsFrom_cut hwritable hopening htaken
  have hrecords := (congrArg records hmark).trans hall
  obtain ⟨hnames, hcolumns⟩ := parse_eq_ok hrecords h
  have hsecond : ∀ r ∈ (body ++ ⟨line, cut.fields⟩ :: more).head?,
      r.fields.length ≤ header.length := by
    intro r hr
    cases body with
    | nil =>
      cases hr
      exact hcut.width
    | cons second body =>
      cases hr
      exact Nat.le_of_eq (hwidth _ List.mem_cons_self)
  refine ⟨?_, ?_, ?_⟩
  · rw [readNames_written hfirst (.inr (by simp))] at hnames
    exact (Except.ok.inj hnames).symm
  · have hcount := congrArg List.length hcolumns
    rw [List.length_map, List.length_map, List.length_range,
      width_eq (by rw [hfirst, List.length_map]) hsecond] at hcount
    exact hcount.symm
  · intro column hcolumn cs hcs
    have htexts := congrArg (·[body.length]?) (map_fieldText_column hrecords h hcolumn)
    rw [List.length_map] at hcs
    simp only [List.drop_succ_cons, List.drop_zero, List.map_append, List.map_cons,
      List.getElem?_append_right, List.getElem?_map, List.length_map, Nat.le_refl, Nat.sub_self,
      List.getElem?_cons_zero, hcs, Option.map_some, Option.some_inj] at htexts
    exact return_notMem_fieldText hcut.noReturn htexts

end InfixArithmetic.Csv
