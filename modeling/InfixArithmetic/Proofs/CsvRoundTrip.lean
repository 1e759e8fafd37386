/-
  InfixArithmetic.Proofs.CsvRoundTrip

  Tables that are written and read again.

  Whatever a field holds, it is read back from what is written for it up to the place
  where a field may end (`takeRecord_writeField`), provided that it is quoted if there
  is a carriage return in it (`IsProtected`): outside quotes the reader ends a record
  there, and the writer does not quote a field for that.  A record of two fields or more
  is not a blank line, whatever spaces stand at its start (`opening?_writeRecord`), so
  records are divided where they were joined, and a table of texts is read as these texts
  (`parse_write`).
-/

import InfixArithmetic.Proofs.Utf8Acceptance
import InfixArithmetic.Table.Csv.Table
import Mathlib.Data.List.GetD

namespace InfixArithmetic.Csv

/-! ## Fields -/

/-- A field that is quoted if it holds a carriage return. -/
def IsProtected (field : List UInt8) : Prop :=
  carriageReturn ∈ field → field.any needsQuotes = true

instance : DecidablePred IsProtected := fun field =>
  inferInstanceAs (Decidable (carriageReturn ∈ field → field.any needsQuotes = true))

/-- Bytes put before the first field. -/
def Taken.prepend (bs : List UInt8) (t : Taken) : Taken := bs.foldr Taken.push t

theorem prepend_nil (bs : List UInt8) (fields : List (List UInt8)) (rest : List UInt8) :
    Taken.prepend bs ⟨[] :: fields, rest⟩ = ⟨bs :: fields, rest⟩ := by
  induction bs with
  | nil => rfl
  | cons b bs ih =>
    show Taken.push b (Taken.prepend bs _) = _
    rw [ih]
    rfl

theorem map_prepend_cons (b : UInt8) (bs : List UInt8) (t? : Option Taken) :
    (t?.map (Taken.prepend bs)).map (Taken.push b) = t?.map (Taken.prepend (b :: bs)) :=
  Option.map_map ..

/-- Outside quotes the field ends here, and `fields` are those after it. -/
def Ends (bs : List UInt8) (fields : List (List UInt8)) (rest : List UInt8) : Prop :=
  ∀ place, place ≠ .quoted → takeRecord place bs = some ⟨[] :: fields, rest⟩

theorem ends_lineFeed (rest : List UInt8) : Ends (lineFeed :: rest) [] rest := by
  intro place hplace
  cases place with
  | quoted => exact absurd rfl hplace
  | fieldStart | unquoted | quoteSeen => rfl

theorem ends_comma {bs : List UInt8} {fields : List (List UInt8)} {rest : List UInt8}
    (h : takeRecord .fieldStart bs = some ⟨fields, rest⟩) : Ends (comma :: bs) fields rest := by
  intro place hplace
  have hcomma : takeRecord place (comma :: bs) =
      (takeRecord .fieldStart bs).map Taken.endField := by
    cases place with
    | quoted => exact absurd rfl hplace
    | fieldStart | unquoted | quoteSeen => rfl
  rw [hcomma, h]
  rfl

/-- A byte of a field that is not quoted. -/
theorem takeRecord_plain {b : UInt8} (hquotes : needsQuotes b = false)
    (hreturn : b ≠ carriageReturn) {place : Place} (hplace : place ≠ .quoted)
    (bs : List UInt8) :
    takeRecord place (b :: bs) = (takeRecord .unquoted bs).map (Taken.push b) := by
  simp only [needsQuotes, Bool.or_eq_false_iff, beq_eq_false_iff_ne] at hquotes
  obtain ⟨⟨hcomma, hquote⟩, hfeed⟩ := hquotes
  cases place with
  | quoted => exact absurd rfl hplace
  | fieldStart | unquoted | quoteSeen => simp [takeRecord, hcomma, hquote, hfeed, hreturn]

theorem takeRecord_unquoted {field : List UInt8} (hquotes : field.any needsQuotes = false)
    (hreturn : carriageReturn ∉ field) {bs rest : List UInt8} {fields : List (List UInt8)}
    (hends : Ends bs fields rest) {place : Place} (hplace : place ≠ .quoted) :
    takeRecord place (field ++ bs) = some ⟨field :: fields, rest⟩ := by
  induction field generalizing place with
  | nil => exact hends place hplace
  | cons b field ih =>
    rw [List.any_cons, Bool.or_eq_false_iff] at hquotes
    have hb : b ≠ carriageReturn := fun h => hreturn (h ▸ List.mem_cons_self)
    rw [List.cons_append, takeRecord_plain hquotes.1 hb hplace,
      ih hquotes.2 (fun h => hreturn (List.mem_cons_of_mem b h)) (by decide)]
    rfl

/-- Quotes are closed by the first one that is not doubled. -/
theorem takeRecord_quoted (field bs : List UInt8) :
    takeRecord .quoted (doubleQuotes field ++ quote :: bs) =
      (takeRecord .quoteSeen bs).map (Taken.prepend field) := by
  induction field with
  | nil =>
    show takeRecord .quoteSeen bs = _
    exact Option.map_id'.symm
  | cons b field ih =>
    rw [← map_prepend_cons, ← ih, doubleQuotes]
    split
    next hquote =>
      subst hquote
      rfl
    next hquote =>
      rw [List.cons_append, takeRecord, if_neg hquote]

/-- A field is read back from what is written for it. -/
theorem takeRecord_writeField {field : List UInt8} (h : IsProtected field)
    {bs rest : List UInt8} {fields : List (List UInt8)} (hends : Ends bs fields rest) :
    takeRecord .fieldStart (writeField field ++ bs) = some ⟨field :: fields, rest⟩ := by
  rw [writeField]
  split
  next hquotes =>
    have hopen : takeRecord .fieldStart (quote :: doubleQuotes field ++ [quote] ++ bs) =
        takeRecord .quoted (doubleQuotes field ++ quote :: bs) := by
      rw [List.append_assoc]
      rfl
    rw [hopen, takeRecord_quoted, hends _ (by decide), Option.map_some, prepend_nil]
  next hquotes =>
    rw [Bool.not_eq_true] at hquotes
    refine takeRecord_unquoted hquotes ?_ hends (by decide)
    intro hreturn
    rw [h hreturn] at hquotes
    cases hquotes

/-! ## Records -/

theorem writeRecord_singleton (field : List UInt8) :
    writeRecord [field] = writeField field ++ [lineFeed] := by
  simp [writeRecord]

theorem writeRecord_cons {fields : List (List UInt8)} (hne : fields ≠ []) (field : List UInt8) :
    writeRecord (field :: fields) = writeField field ++ comma :: writeRecord fields := by
  obtain ⟨next, fields, rfl⟩ := List.exists_cons_of_ne_nil hne
  simp [writeRecord]

theorem takeRecord_writeRecord {fields : List (List UInt8)} (hne : fields ≠ [])
    (h : ∀ f ∈ fields, IsProtected f) (rest : List UInt8) :
    takeRecord .fieldStart (writeRecord fields ++ rest) = some ⟨fields, rest⟩ := by
  induction fields with
  | nil => exact absurd rfl hne
  | cons field fields ih =>
    obtain ⟨hfield, hfields⟩ := List.forall_mem_cons.1 h
    by_cases hlast : fields = []
    · subst hlast
      rw [writeRecord_singleton, List.append_assoc]
      exact takeRecord_writeField hfield (ends_lineFeed rest)
    · rw [writeRecord_cons hlast, List.append_assoc]
      exact takeRecord_writeField hfield (ends_comma (ih hlast hfields))

/-- After spaces at its start, a line that does not hold spaces only opens a record, together
    with what is kept. -/
theorem opening?_indented {text : List UInt8}
    (htext : ∀ b ∈ text, b ≠ lineFeed ∧ b ≠ carriageReturn) {b : UInt8}
    (hb : b = comma ∨ b = quote) (passed : Nat) (kept bs : List UInt8) :
    opening? passed kept .indented (text ++ b :: bs) =
      some ⟨passed, kept.reverse ++ (text ++ b :: bs)⟩ := by
  induction text generalizing kept with
  | nil =>
    rcases hb with rfl | rfl
    · rfl
    · rfl
  | cons c text ih =>
    obtain ⟨⟨hfeed, hreturn⟩, htext⟩ := List.forall_mem_cons.1 htext
    rw [List.cons_append, opening?, if_neg hfeed, if_neg hreturn, if_neg (fun h => by cases h.2)]
    split
    next hspace =>
      rw [ih htext]
      simp
    next hspace => rfl

/-- At the start of a line, what is kept belongs to the record exactly if there are spaces
    before it. -/
theorem opening?_lineStart {text : List UInt8}
    (htext : ∀ b ∈ text, b ≠ lineFeed ∧ b ≠ carriageReturn) {b : UInt8}
    (hb : b = comma ∨ b = quote) (passed : Nat) (kept bs : List UInt8) :
    ∃ back, (back = [] ∨ back = kept.reverse) ∧
      opening? passed kept .lineStart (text ++ b :: bs) =
        some ⟨passed, back ++ (text ++ b :: bs)⟩ := by
  cases text with
  | nil =>
    rcases hb with rfl | rfl
    · exact ⟨[], .inl rfl, rfl⟩
    · exact ⟨[], .inl rfl, rfl⟩
  | cons c text =>
    obtain ⟨⟨hfeed, hreturn⟩, htext⟩ := List.forall_mem_cons.1 htext
    rw [List.cons_append, opening?, if_neg hfeed, if_neg hreturn, if_neg (fun h => by cases h.2)]
    split
    next hspace =>
      refine ⟨kept.reverse, .inr rfl, ?_⟩
      rw [opening?_indented htext hb]
      simp
    next hspace => exact ⟨[], .inl rfl, rfl⟩

/-- A record of two fields or more starts where it was written, or at what is kept. -/
theorem opening?_writeRecord {first : List UInt8} (h : IsProtected first)
    {fields : List (List UInt8)} (hne : fields ≠ []) (passed : Nat) (kept rest : List UInt8) :
    ∃ back, (back = [] ∨ back = kept.reverse) ∧
      opening? passed kept .lineStart (writeRecord (first :: fields) ++ rest) =
        some ⟨passed, back ++ (writeRecord (first :: fields) ++ rest)⟩ := by
  rw [writeRecord_cons hne, List.append_assoc, List.cons_append, writeField]
  split
  next hquotes => exact ⟨[], .inl rfl, rfl⟩
  next hquotes =>
    have htext : ∀ b ∈ first, b ≠ lineFeed ∧ b ≠ carriageReturn := by
      intro b hb
      constructor
      · rintro rfl
        exact hquotes (List.any_eq_true.2 ⟨lineFeed, hb, by decide⟩)
      · rintro rfl
        exact hquotes (h hb)
    exact opening?_lineStart htext (.inl rfl) passed kept _

/-- A record that can be told from a blank line and holds no line end outside quotes. -/
structure IsWritable (fields : List (List UInt8)) : Prop where
  several : 2 ≤ fields.length
  isProtected : ∀ f ∈ fields, IsProtected f

/-- The next record, and then those after it. -/
theorem recordsFrom_step {bs : List UInt8} {o : Opening} {t : Taken}
    (hopening : opening? 0 [] .lineStart bs = some o)
    (htaken : takeRecord .fieldStart o.text = some t) (line : Nat) :
    recordsFrom line bs =
      (⟨line + o.passed + 1, t.fields⟩ :: (recordsFrom (line + o.passed + 1) t.rest).1,
        (recordsFrom (line + o.passed + 1) t.rest).2) := by
  rw [recordsFrom]
  split
  next hnone =>
    rw [hopening] at hnone
    cases hnone
  next o' ho =>
    rw [hopening] at ho
    cases ho
    split
    next hnone =>
      rw [htaken] at hnone
      cases hnone
    next t' ht =>
      rw [htaken] at ht
      cases ht
      rfl

/-- Records are divided where they were joined, whatever comes after them. -/
theorem recordsFrom_write_append {rows : List (List (List UInt8))}
    (h : ∀ r ∈ rows, IsWritable r) (line : Nat) (rest : List UInt8) :
    ∃ line' records, records.map Record.fields = rows ∧
      recordsFrom line (write rows ++ rest) =
        (records ++ (recordsFrom line' rest).1, (recordsFrom line' rest).2) := by
  induction rows generalizing line with
  | nil => exact ⟨line, [], rfl, rfl⟩
  | cons row rows ih =>
    obtain ⟨hrow, hrows⟩ := List.forall_mem_cons.1 h
    obtain ⟨line', records, hfields, hrecords⟩ := ih hrows (line + 1)
    obtain ⟨first, second, fields, rfl⟩ : ∃ a b l, row = a :: b :: l := by
      match row, hrow.several with
      | a :: b :: l, _ => exact ⟨a, b, l, rfl⟩
    obtain ⟨back, hback, hopening⟩ := opening?_writeRecord
      (hrow.isProtected first List.mem_cons_self) (List.cons_ne_nil second fields) 0 []
      (write rows ++ rest)
    obtain rfl : back = [] := hback.elim id id
    have htaken := takeRecord_writeRecord (List.cons_ne_nil _ _) hrow.isProtected
      (write rows ++ rest)
    have hwrite : write ((first :: second :: fields) :: rows) ++ rest =
        writeRecord (first :: second :: fields) ++ (write rows ++ rest) :=
      List.append_assoc ..
    refine ⟨line', ⟨line + 1, first :: second :: fields⟩ :: records, ?_, ?_⟩
    · rw [List.map_cons, hfields]
    · -- The reader finds the record at once, and nothing of it is left over.
      have hstep := recordsFrom_step hopening htaken line
      simp only [Nat.add_zero] at hstep
      rw [hwrite, hstep, hrecords]
      rfl

theorem recordsFrom_write {rows : List (List (List UInt8))} (h : ∀ r ∈ rows, IsWritable r)
    (line : Nat) :
    ∃ records, recordsFrom line (write rows) = (records, none) ∧
      records.map Record.fields = rows := by
  obtain ⟨line', records, hfields, hrecords⟩ := recordsFrom_write_append h line []
  have hend : recordsFrom line' [] = ([], none) := by
    rw [recordsFrom]
    rfl
  rw [List.append_nil, hend, List.append_nil] at hrecords
  exact ⟨records, hrecords, hfields⟩

/-! ## Tables -/

section Texts

open Text.Utf8 (encode decode_eq_ok_iff)

variable {header : List (List Char)} {body : List (List (List Char))} {first : Record}
  {records : List Record}

/-- A field holds the text whose bytes it consists of. -/
theorem fieldText_eq_ok_iff {field : List UInt8} {cs : List Char} :
    fieldText field = .ok cs ↔ encode cs = field := by
  rw [fieldText, ← decode_eq_ok_iff]
  cases Text.Utf8.decode none field with
  | error fault => exact iff_of_false (fun h => by cases h) (fun h => by cases h)
  | ok cs' => exact ⟨fun h => by cases h; rfl, fun h => by cases h; rfl⟩

theorem fieldText_encode (cs : List Char) : fieldText (encode cs) = .ok cs :=
  fieldText_eq_ok_iff.2 rfl

/-- The names are read before it is known whether a later record is closed. -/
theorem readNames_written (hfirst : first.fields = header.map encode) {unclosed : Option Nat}
    (hclosed : unclosed = none ∨ records ≠ []) :
    readNames (first :: records) unclosed = .ok (columnNames header) := by
  have hmapM : first.fields.mapM fieldText = .ok header := by
    rw [hfirst, List.mapM_map]
    simp only [Function.comp_def, fieldText_encode]
    exact List.mapM_pure.trans (congrArg Except.ok (List.map_id' header))
  rcases hclosed with rfl | hne
  · simp only [readNames, hmapM]
    rfl
  · obtain ⟨second, records, rfl⟩ := List.exists_cons_of_ne_nil hne
    simp only [readNames, hmapM]
    rfl

/-- Every record has as many fields as its row. -/
theorem length_fields_written (hwidth : ∀ r ∈ body, r.length = header.length)
    (hrecords : records.map Record.fields = body.map (·.map encode)) :
    ∀ r ∈ records, r.fields.length = header.length := by
  intro r hr
  have hmem : r.fields ∈ body.map (·.map encode) := hrecords ▸ List.mem_map_of_mem hr
  obtain ⟨row, hrow, heq⟩ := List.mem_map.1 hmem
  rw [← heq, List.length_map, hwidth row hrow]

/-- No record but the second one can make a table wider than its header. -/
theorem width_eq {n : Nat} (hfirst : first.fields.length = n)
    (hsecond : ∀ r ∈ records.head?, r.fields.length ≤ n) : width (first :: records) = n := by
  cases records with
  | nil => simp [width, hfirst]
  | cons second records =>
    have hle : second.fields.length ≤ n := hsecond second rfl
    simp [width, hfirst, hle]

theorem checkRecords_eq {n : Nat} (hfirst : first.fields.length = n)
    (hrecords : ∀ r ∈ records, r.fields.length = n) :
    checkRecords (first :: records) none = .ok () := by
  have hwidth : width (first :: records) = n :=
    width_eq hfirst fun r hr => Nat.le_of_eq (hrecords r (List.mem_of_mem_head? hr))
  have hnone : (records.drop 1).find?
      (fun r => decide (width (first :: records) < r.fields.length)) = none := by
    rw [List.find?_eq_none]
    intro r hr
    rw [hwidth, hrecords r (List.mem_of_mem_drop hr)]
    simp
  simp only [checkRecords, List.drop_succ_cons, hnone]

theorem fieldText_getD (row : List (List Char)) (index : Nat) :
    fieldText ((row.map encode).getD index []) = .ok (row.getD index []) := by
  have hgetD : (row.map encode).getD index [] = encode (row.getD index []) :=
    List.getD_map row [] encode
  rw [hgetD, fieldText_encode]

theorem readColumn_written (hrecords : records.map Record.fields = body.map (·.map encode))
    (index : Nat) :
    readColumn records index = .ok (body.map fun r => r.getD index []) := by
  have hfields : readColumn records index =
      (records.map Record.fields).mapM fun f => fieldText (f.getD index []) := by
    rw [List.mapM_map]
    rfl
  rw [hfields, hrecords, List.mapM_map]
  simp only [Function.comp_def, fieldText_getD]
  exact List.mapM_pure

/-- A table of texts is read as these texts. -/
theorem parse_write (hwritable : ∀ r ∈ header :: body, IsWritable (r.map encode))
    (hwidth : ∀ r ∈ body, r.length = header.length)
    (hmark : dropMark (write ((header :: body).map (·.map encode))) =
      write ((header :: body).map (·.map encode))) :
    parse (write ((header :: body).map (·.map encode))) =
      .ok ⟨columnNames header,
        (List.range header.length).map fun i => body.map fun r => r.getD i []⟩ := by
  obtain ⟨all, hall, hfields⟩ := recordsFrom_write (List.forall_mem_map.2 hwritable) 0
  rw [List.map_cons, List.map_eq_cons_iff] at hfields
  obtain ⟨first, records, rfl, hfirst, hrecords⟩ := hfields
  have hlength : first.fields.length = header.length := by rw [hfirst, List.length_map]
  have hlengths := length_fields_written hwidth hrecords
  have hcolumnCount : width (first :: records) = header.length :=
    width_eq hlength fun r hr => Nat.le_of_eq (hlengths r (List.mem_of_mem_head? hr))
  have hcolumns : (List.range (width (first :: records))).mapM (readColumn records) =
      .ok ((List.range header.length).map fun i => body.map fun r => r.getD i []) := by
    rw [hcolumnCount, funext (readColumn_written hrecords)]
    exact List.mapM_pure
  rw [parse, hmark, Csv.records, hall]
  simp only [readNames_written hfirst (.inl rfl), checkRecords_eq hlength hlengths,
    List.drop_succ_cons, List.drop_zero, hcolumns]
  rfl

/-- A column is found by its name. -/
theorem column?_eq {t : Table} (hlength : t.names.length = t.columns.length)
    {name : List Char} {index : Nat} (h : t.names.idxOf? name = some index) :
    t.column? name = some (t.columns.getD index []) := by
  simp only [Table.column?, h, hlength, Nat.sub_self, Option.map_some, Nat.zero_add]

end Texts

end InfixArithmetic.Csv
