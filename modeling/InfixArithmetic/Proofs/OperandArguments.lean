/-
  InfixArithmetic.Proofs.OperandArguments

  An operation whose operands are given on the command line.

  A text that the operation takes for a number is a plain argument or an unknown one, nothing
  else (`ofArgument_operand`), since no number starts with the short help.  Only the plain
  arguments at the start are operands (`take_many`, `parse_operands`): what comes after them
  is read as an expression, and the operation lacks it.
-/

import InfixArithmetic.Proofs.ArgumentUses
import InfixArithmetic.Proofs.ReportedFailures

namespace InfixArithmetic.OperandArguments

open Argument (classify)
open ArgumentClass (isNegativeNumber ofArgument ofDashed ofWhole? splitEquals)
open ArgumentUses
open FallibleSteps (bind_eq_ok exists_mem_of_mapM map_eq_ok)
open Program (Part Outcome operationPart run runTexts valuePart)

/-! ## Texts of numbers -/

/-- Characters at the start that are not trimmed stay there. -/
theorem prefix_trimBy {p : Char → Bool} {a b : Char} (ha : p a = false) (hb : p b = false)
    (cs : List Char) : ∃ rest, Text.trimBy p (a :: b :: cs) = a :: b :: rest := by
  have hstart : ([b, a] : List Char).dropWhile p = [b, a] := by simp [hb]
  have hend : (cs.reverse ++ [b, a]).dropWhile p = cs.reverse.dropWhile p ++ [b, a] := by
    rw [List.dropWhile_append]
    split
    · rename_i hnil
      rw [hstart, List.isEmpty_iff.1 hnil, List.nil_append]
    · rfl
  refine ⟨(cs.reverse.dropWhile p).reverse, ?_⟩
  rw [Text.trimBy, List.dropWhile_cons_of_neg (by simp [ha])]
  simp [hend]

/-- What starts with the short help is no number. -/
theorem not_number_of_shortHelp {s : String} (h : ['-', 'h'] <+: s.toList) :
    Numeral.parse? s = none ∧ IntegerText.parse? s = none := by
  obtain ⟨cs, hs⟩ := h
  have hs' : s.toList = '-' :: 'h' :: cs := hs.symm
  constructor
  · obtain ⟨rest, htrim⟩ := prefix_trimBy (show Text.isBlank '-' = false by decide)
      (show Text.isBlank 'h' = false by decide) cs
    -- After the sign there are no digits, and no word for infinity or NaN starts like that.
    have hdecimal : Numeral.readDecimal? ('h' :: rest) = none := rfl
    have hread : Numeral.read? ('-' :: 'h' :: rest) = none := by
      simp [Numeral.read?, Numeral.takeSign, Numeral.infinityWords, hdecimal]
    rw [Numeral.parse?, hs', Text.trim, htrim, hread]
    rfl
  · obtain ⟨rest, htrim⟩ := prefix_trimBy (show IntegerText.isMargin '-' = false by decide)
      (show IntegerText.isMargin 'h' = false by decide) cs
    have hdigits : IntegerText.readDigits? false ('h' :: rest) = none := rfl
    simp [IntegerText.parse?, hs', htrim, Numeral.takeSign, hdigits]

theorem parse_of_both {f : Number → Number → Except Fault Binary64} {a b : Value} {x : Binary64}
    (h : NumberText.both f a b = .ok x) :
    (∃ p, NumberText.parse a = .ok p) ∧ ∃ q, NumberText.parse b = .ok q := by
  obtain ⟨p, hp, h⟩ := bind_eq_ok h
  obtain ⟨q, hq, -⟩ := bind_eq_ok h
  exact ⟨⟨p, hp⟩, ⟨q, hq⟩⟩

/-- An operation on texts takes numbers only. -/
theorem parse_of_applyText {o : Operation} {vs : List Value} {v : Value}
    (h : Operation.applyText o vs = .ok v) : ∀ w ∈ vs, ∃ x, NumberText.parse w = .ok x := by
  have hpair : ∀ {f : Number → Number → Except Fault Binary64} {a b : Value},
      (∀ {x : Binary64}, NumberText.both f a b = .ok x →
        ∀ w ∈ [a, b], ∃ y, NumberText.parse w = .ok y) := by
    intro f a b x hx w hw
    obtain ⟨hp, hq⟩ := parse_of_both hx
    rcases List.mem_pair.1 hw with rfl | rfl
    · exact hp
    · exact hq
  unfold Operation.applyText at h
  split at h
  case h_1 | h_2 | h_3 | h_4 | h_5 =>
    obtain ⟨text, htext, -⟩ := map_eq_ok h
    obtain ⟨x, hx, -⟩ := map_eq_ok htext
    exact hpair hx
  case h_6 =>
    obtain ⟨x, hx, -⟩ := map_eq_ok h
    exact hpair hx
  case h_7 | h_8 =>
    obtain ⟨text, htext, -⟩ := map_eq_ok h
    obtain ⟨x, hx, -⟩ := bind_eq_ok htext
    intro w hw
    rw [List.mem_singleton.1 hw]
    exact ⟨x, hx⟩
  case h_9 => cases h

/-- No operand of an operation with a value starts with the short help. -/
theorem not_shortHelp_of_applyTexts {o : Operation} {t : OperandType} {operands : List String}
    {v : Value} (h : o.applyTexts t operands = .ok v) :
    ∀ x ∈ operands, ¬ ['-', 'h'] <+: x.toList := by
  intro x hx hstart
  obtain ⟨hnumeral, hinteger⟩ := not_number_of_shortHelp hstart
  unfold Operation.applyTexts at h
  split at h
  · obtain ⟨vs, hconvert, happly⟩ := bind_eq_ok h
    obtain ⟨w, hw, hwx⟩ := exists_mem_of_mapM hconvert hx
    cases t with
    | float => simp [Operation.convert, NumberText.parse, hnumeral] at hwx
    | int => simp [Operation.convert, hinteger] at hwx
    | string =>
      -- Nothing is converted here; the text is read when the operation is applied.
      cases hwx
      obtain ⟨y, hy⟩ := parse_of_applyText happly _ hw
      simp [NumberText.parse, hnumeral] at hy
  · cases h

/-! ## Classes of operands -/

/-- An argument is taken as a value: it does not start with a dash, or it is only that, or it
    holds a space, or it is a minus with a decimal number after it. -/
def TakenAsValue (x : String) : Prop :=
  ¬ ['-'] <+: x.toList ∨ x.toList = ['-'] ∨ ' ' ∈ x.toList ∨ isNegativeNumber x.toList

instance (x : String) : Decidable (TakenAsValue x) :=
  inferInstanceAs (Decidable (_ ∨ _ ∨ _ ∨ _))

theorem ofWhole?_eq_none {name : List Char} (hdashes : ¬ ['-', '-'] <+: name)
    (hhelp : ¬ ['-', 'h'] <+: name) : ofWhole? name = none := by
  unfold ofWhole?
  rw [if_neg (by rintro rfl; exact hhelp (by decide)), Flag.ofName?, List.find?_eq_none]
  intro f _ hf
  rw [beq_iff_eq] at hf
  refine hdashes (hf ▸ ?_)
  cases f <;> decide

theorem prefix_splitEquals (cs : List Char) : (splitEquals cs).1 <+: cs := by
  induction cs with
  | nil => exact List.prefix_rfl
  | cons c cs ih =>
    rw [splitEquals]
    split
    · exact List.nil_prefix
    · exact (List.prefix_cons_inj c).2 ih

theorem ofDashed_eq {cs : List Char} (hdashes : ¬ ['-', '-'] <+: cs)
    (hhelp : ¬ ['-', 'h'] <+: cs) :
    ofDashed cs = if isNegativeNumber cs ∨ ' ' ∈ cs then .plain else .unknown := by
  unfold ofDashed
  dsimp only
  split
  · rename_i rest
    exact absurd (List.prefix_append ['-', '-'] rest) hdashes
  · rename_i rest
    exact absurd (List.prefix_append ['-', 'h'] rest) hhelp
  · rfl

/-- An argument that starts neither with two dashes nor with the short help is taken as a value
    or unknown. -/
theorem ofArgument_operand {x : String} (hdashes : ¬ ['-', '-'] <+: x.toList)
    (hhelp : ¬ ['-', 'h'] <+: x.toList) :
    ofArgument x = if TakenAsValue x then .plain else .unknown := by
  have hname : ∀ {ys : List Char}, ¬ ys <+: x.toList → ¬ ys <+: (splitEquals x.toList).1 :=
    fun h hys => h (hys.trans (prefix_splitEquals _))
  have hwhole := ofWhole?_eq_none hdashes hhelp
  have hnone := ofWhole?_eq_none (hname hdashes) (hname hhelp)
  unfold ofArgument
  split
  · rename_i c cs hx
    have hdash : ['-'] <+: x.toList := by
      rw [hx]
      exact List.prefix_append ['-'] (c :: cs)
    have hlonger : x.toList ≠ ['-'] := by
      rw [hx]
      rintro ⟨⟩
    have htaken : TakenAsValue x ↔ isNegativeNumber x.toList ∨ ' ' ∈ x.toList := by
      rw [TakenAsValue, or_iff_right (not_not_intro hdash), or_iff_right hlonger, or_comm]
    simp only [htaken, ← ofDashed_eq hdashes hhelp]
    -- Neither the whole text nor what is before an equals sign is the name of a flag.
    rw [← hx, hwhole]
    dsimp only
    split
    · rename_i name attached hsplit
      rw [hsplit] at hnone
      rw [hnone]
    · rfl
  · rename_i hx
    rw [if_pos]
    cases hlist : x.toList with
    | nil => exact .inl (by rw [hlist]; decide)
    | cons c cs =>
      by_cases hc : c = '-'
      · subst hc
        cases cs with
        | nil => exact .inr (.inl hlist)
        | cons d ds => exact absurd hlist (hx d ds)
      · refine .inl ?_
        rw [hlist, List.cons_prefix_cons]
        exact fun h => hc h.1.symm

/-! ## Arguments of an operation -/

theorem take_one {p : Progress} {a v : Argument} {rest : List Argument} {f : Flag} {r : Request}
    (ha : a.kind = .flag f none) (hf : f.arity = .one) (hv : v.isPlain)
    (hset : p.request.set f [v.text] = .ok r) :
    p.take (a :: v :: rest) = { p with request := r }.take rest := by
  rw [Progress.take, ha]
  simp only [hf, List.take_succ_cons, List.take_zero, List.takeWhile_cons, hv, if_true,
    List.takeWhile_nil, List.map_cons, List.map_nil, hset]
  rfl

/-- A flag with many values takes the plain arguments after it. -/
theorem take_many {p : Progress} {a : Argument} {values rest : List Argument} {f : Flag}
    (ha : a.kind = .flag f none) (hf : f.arity = .many) (hvalues : ∀ v ∈ values, v.isPlain)
    (hrest : NoPlainFirst rest) :
    p.take (a :: (values ++ rest)) =
      p.request.set f (values.map Argument.text) >>= fun r =>
        { p with request := r }.take rest := by
  rw [Progress.take, ha]
  simp only [hf, List.take_length, takeWhile_isPlain_append hvalues hrest, List.drop_left]

/-- The arguments that ask for an operation. -/
def operationArguments (o : Operation) (t : OperandType) (operands : List String) :
    List String :=
  "--operation" :: o.name :: "--operand_type" :: t.name :: "--operands" :: operands

theorem ambiguity?_eq_none {as : List Argument} (h : ∀ a ∈ as, ∀ fs, a.kind ≠ .ambiguous fs) :
    Argument.ambiguity? as = none := by
  rw [Argument.ambiguity?, List.findSome?_eq_none_iff]
  intro a ha
  split
  · rename_i fs hkind
    exact absurd hkind (h a ha fs)
  · rfl

theorem ofArgument_flag (f : Flag) : ofArgument f.name = .flag f none := by
  cases f <;> decide

theorem ofArgument_name (o : Operation) : ofArgument o.name = .plain := by
  cases o <;> decide

theorem ofArgument_typeName (t : OperandType) : ofArgument t.name = .plain := by
  cases t <;> decide

theorem not_mem_operationArguments (o : Operation) (t : OperandType) {operands : List String}
    (h : "--" ∉ operands) : "--" ∉ operationArguments o t operands := by
  have ho : "--" ≠ o.name := by cases o <;> decide
  have ht : "--" ≠ t.name := by cases t <;> decide
  simp only [operationArguments, List.mem_cons, not_or]
  exact ⟨by decide, ho, by decide, ht, by decide, h⟩

theorem not_ambiguous_operationArguments (o : Operation) (t : OperandType)
    {operands : List String}
    (h : ∀ x ∈ operands, ofArgument x = .plain ∨ ofArgument x = .unknown) :
    ∀ x ∈ operationArguments o t operands, ∀ fs, ofArgument x ≠ .ambiguous fs := by
  intro x hx fs
  have hflag : ∀ f : Flag, ofArgument f.name ≠ .ambiguous fs := fun f => by
    simp [ofArgument_flag]
  simp only [operationArguments, List.mem_cons] at hx
  rcases hx with rfl | rfl | rfl | rfl | rfl | hx
  · exact hflag .operation
  · simp [ofArgument_name]
  · exact hflag .operandType
  · simp [ofArgument_typeName]
  · exact hflag .operands
  · rcases h x hx with h | h <;> simp [h]

/-- The operands are the plain arguments at the start. -/
theorem parse_operands (o : Operation) (t : OperandType) (values rest : List String)
    (hvalues : ∀ x ∈ values, ofArgument x = .plain)
    (hrest : ∀ x ∈ rest, ofArgument x = .plain ∨ ofArgument x = .unknown)
    (hfirst : ∀ x ∈ rest.head?, ofArgument x = .unknown) (hdashes : "--" ∉ values ++ rest) :
    Request.parse (operationArguments o t (values ++ rest)) =
      (({ operation := some o, operandType := t } : Request).set .operands values >>= fun r =>
        ({ request := r } : Progress).take (rest.map fun x => ⟨x, ofArgument x⟩)) >>=
          Progress.finish := by
  have hnames := not_mem_operationArguments o t hdashes
  have hclasses : ∀ a ∈ classify (operationArguments o t (values ++ rest)),
      ∀ fs, a.kind ≠ .ambiguous fs := by
    rw [classify_eq_map hnames]
    intro a ha
    obtain ⟨x, hx, rfl⟩ := List.mem_map.1 ha
    refine not_ambiguous_operationArguments o t (fun y hy => ?_) x hx
    rcases List.mem_append.1 hy with hy | hy
    · exact .inl (hvalues y hy)
    · exact hrest y hy
  rw [Request.parse, ambiguity?_eq_none hclasses, classify_eq_map hnames]
  have hplain : ∀ v ∈ values.map fun x => (⟨x, ofArgument x⟩ : Argument), v.isPlain := by
    intro v hv
    obtain ⟨x, hx, rfl⟩ := List.mem_map.1 hv
    exact isPlain_iff.2 (hvalues x hx)
  have hend : NoPlainFirst (rest.map fun x => ⟨x, ofArgument x⟩) := by
    intro a ha
    rw [List.head?_map] at ha
    obtain ⟨x, hx, rfl⟩ := Option.mem_map.1 ha
    simp [Argument.isPlain, hfirst x hx]
  have htexts : (values.map fun x => (⟨x, ofArgument x⟩ : Argument)).map Argument.text =
      values := by
    simp [Function.comp_def]
  simp only [operationArguments, List.map_cons, List.map_append]
  rw [take_one (ofArgument_flag .operation) rfl (isPlain_iff.2 (ofArgument_name o))
      (r := { operation := some o }) (by simp [Request.set, Request.choose]),
    take_one (ofArgument_flag .operandType) rfl (isPlain_iff.2 (ofArgument_typeName t))
      (r := { operation := some o, operandType := t }) (by simp [Request.set, Request.choose]),
    take_many (ofArgument_flag .operands) rfl hplain hend, htexts]

/-! ## Runs of an operation -/

/-- The line of an operation with a value. -/
def resultLine (o : Operation) (operands : List String) (v : Value) : String :=
  o.name ++ "(" ++ ", ".intercalate operands ++ ") = " ++ v.printed ++ "\n"

/-- The entry for an operation that is given one operand and takes two. -/
def lackEntry (o : Operation) : LogEntry :=
  ⟨.program, .error, "Operation " ++ o.name ++ " failed: " ++ (o.countFault 1).message⟩

section Runs

variable {o : Operation} {t : OperandType} {operands : List String} {v : Value}

theorem length_of_applyTexts (h : o.applyTexts t operands = .ok v) :
    operands.length = o.arity := by
  unfold Operation.applyTexts at h
  split at h
  · assumption
  · cases h

/-- An operation has one operand or two. -/
theorem operands_of_applyTexts (h : o.applyTexts t operands = .ok v) :
    (∃ a, operands = [a]) ∨ ∃ a b, operands = [a, b] := by
  have hlength := length_of_applyTexts h
  cases o with
  | squareRoot | abs => exact .inl (List.length_eq_one_iff.1 hlength)
  | _ => exact .inr (List.length_eq_two.1 hlength)

/-- An unknown argument after all others is left over. -/
theorem take_unknown (p : Progress) {x : String} (hx : ofArgument x = .unknown) :
    p.take [⟨x, ofArgument x⟩] = .ok { p with extras := p.extras ++ [x] } := by
  rw [Progress.take, hx]
  dsimp only
  rw [Progress.take]

/-- What is left over is an expression after the others. -/
theorem finish_of_noDashes {r : Request} {x : String} (hx : ¬ ['-', '-'] <+: x.toList) :
    ({ request := r, extras := [x] } : Progress).finish = .ok { r with expressions := [x] } := by
  have hextras : [x].filter (fun e => ['-', '-'].isPrefixOf e.toList) = [] := by
    rw [List.filter_eq_nil_iff]
    intro e he
    rwa [List.mem_singleton.1 he, List.isPrefixOf_iff_prefix]
  rw [Progress.finish, hextras]
  rfl

section Valued

variable (time : String) (files : Files) (h : o.applyTexts t operands = .ok v)
  (hdashes : ∀ x ∈ operands, ¬ ['-', '-'] <+: x.toList)

include h hdashes

theorem ofArgument_of_applyTexts {x : String} (hx : x ∈ operands) :
    ofArgument x = if TakenAsValue x then .plain else .unknown :=
  ofArgument_operand (hdashes x hx) (not_shortHelp_of_applyTexts h x hx)

/-- Operands that are all taken are those of the operation. -/
theorem main_taken (hall : ∀ x ∈ operands, TakenAsValue x) :
    Program.main time files (operationArguments o t operands) =
      ⟨resultLine o operands v, "", [], .ok 0⟩ := by
  have hset : ({ operation := some o, operandType := t } : Request).set .operands operands =
      .ok { operation := some o, operandType := t, operands := operands } := by
    rcases operands_of_applyTexts h with ⟨a, rfl⟩ | ⟨a, b, rfl⟩
    · rfl
    · rfl
  have hparse : Request.parse (operationArguments o t operands) =
      .ok { operation := some o, operandType := t, operands := operands } := by
    have hparts := parse_operands o t operands []
      (fun x hx => by rw [ofArgument_of_applyTexts h hdashes hx, if_pos (hall x hx)])
      (by simp) (by simp) fun hmem => hdashes _ (by simpa using hmem) (by decide)
    rw [List.append_nil, hset] at hparts
    rw [hparts]
    show Progress.take { request := _ } [] >>= Progress.finish = _
    rw [Progress.take]
    rfl
  have hpart : operationPart o t operands = ⟨[resultLine o operands v], [], true⟩ := by
    rw [operationPart, h]
    rfl
  have hrun : run files { operation := some o, operandType := t, operands := operands } =
      ⟨[resultLine o operands v], [], [], .ok 0⟩ := by
    show Outcome.ofPart (Part.empty ++ operationPart o t operands) [] = _
    rw [hpart]
    rfl
  rw [ReportedFailures.main_of_asked hparse rfl, hrun]
  simp [Program.logText, LogEntry.select]

/-- Without an operand in the first place there is none at all. -/
theorem main_first_untaken {a : String} {more : List String} (hshape : operands = a :: more)
    (ha : ¬ TakenAsValue a) :
    Program.main time files (operationArguments o t operands) =
      ⟨"", (UsageFault.missingValue .operands).report, [], .ok 2⟩ := by
  have hparse : Request.parse (operationArguments o t operands) =
      .error (.fault (.missingValue .operands)) := by
    refine parse_operands o t [] operands (by simp) (fun x hx => ?_) (fun x hx => ?_)
      fun hmem => hdashes _ hmem (by decide)
    · rw [ofArgument_of_applyTexts h hdashes hx]
      split
      · exact .inl rfl
      · exact .inr rfl
    · subst hshape
      cases hx
      rw [ofArgument_of_applyTexts h hdashes List.mem_cons_self, if_neg ha]
  rw [Program.main, hparse]

/-- An operand in the second place that is not taken is an expression, and the operation
    lacks it. -/
theorem main_second_untaken {a b : String} (hshape : operands = [a, b]) (ha : TakenAsValue a)
    (hb : ¬ TakenAsValue b) :
    Program.main time files (operationArguments o t operands) =
      ⟨String.join (valuePart b).printed,
        Program.logText time .info ((valuePart b).log ++ [lackEntry o]), [], .ok 1⟩ := by
  subst hshape
  have hplain : ofArgument a = .plain := by
    rw [ofArgument_of_applyTexts h hdashes (by simp), if_pos ha]
  have hunknown : ofArgument b = .unknown := by
    rw [ofArgument_of_applyTexts h hdashes (by simp), if_neg hb]
  have hparse : Request.parse (operationArguments o t [a, b]) =
      .ok { expressions := [b], operation := some o, operandType := t, operands := [a] } := by
    have hparts := parse_operands o t [a] [b] (by simpa using hplain) (by simp [hunknown])
      (by simp [hunknown]) fun hmem => hdashes _ hmem (by decide)
    refine hparts.trans ?_
    show Progress.take { request := _ } [⟨b, ofArgument b⟩] >>= Progress.finish = _
    rw [take_unknown _ hunknown]
    exact finish_of_noDashes (hdashes b (by simp))
  -- The operation is applied to what is left of its operands.
  have hpart : operationPart o t [a] = ⟨[], [lackEntry o], false⟩ := by
    have htwo : 2 = o.arity := length_of_applyTexts h
    have hcount : o.applyTexts t [a] = .error (o.countFault 1) := if_neg (by simp [← htwo])
    rw [operationPart, hcount]
    rfl
  have hrun : run files
      { expressions := [b], operation := some o, operandType := t, operands := [a] } =
        ⟨(valuePart b).printed, (valuePart b).log ++ [lackEntry o], [], .ok 1⟩ := by
    show Outcome.ofPart (Part.empty ++ valuePart b ++ Part.empty ++ operationPart o t [a]) [] = _
    rw [hpart]
    simp [Outcome.ofPart, Part.empty]
  rw [ReportedFailures.main_of_asked hparse rfl, hrun]

/-- With an operand that is not taken the run does not end well. -/
theorem taken_of_ending
    (hending : (Program.main time files (operationArguments o t operands)).ending = .ok 0) :
    ∀ x ∈ operands, TakenAsValue x := by
  rcases operands_of_applyTexts h with ⟨a, hshape⟩ | ⟨a, b, hshape⟩
  · have ha : TakenAsValue a := by
      by_contra ha
      rw [main_first_untaken time files h hdashes hshape ha] at hending
      cases hending
    simpa [hshape] using ha
  · have ha : TakenAsValue a := by
      by_contra ha
      rw [main_first_untaken time files h hdashes hshape ha] at hending
      cases hending
    have hb : TakenAsValue b := by
      by_contra hb
      rw [main_second_untaken time files h hdashes hshape ha hb] at hending
      cases hending
    simpa [hshape] using ⟨ha, hb⟩

end Valued

end Runs

/-- An operation with a value, on operands that do not start with two dashes, is printed with
    its value and status 0 exactly if every operand is taken as a value.  If the first is not,
    none is given, which is a fault of the command line; if only the second is not, it is read
    as an expression and missing for the operation. -/
theorem operation_printed_iff_taken (time : String) (files : Files) {o : Operation}
    {t : OperandType} {operands : List String} {v : Value} (h : o.applyTexts t operands = .ok v)
    (hdashes : ∀ x ∈ operands, ¬ ['-', '-'] <+: x.toList) :
    ((Program.main time files (operationArguments o t operands)).ending = .ok 0 ↔
      ∀ x ∈ operands, TakenAsValue x) ∧
    ((∀ x ∈ operands, TakenAsValue x) →
      Program.main time files (operationArguments o t operands) =
        ⟨resultLine o operands v, "", [], .ok 0⟩) ∧
    (∀ a more, operands = a :: more → ¬ TakenAsValue a →
      Program.main time files (operationArguments o t operands) =
        ⟨"", (UsageFault.missingValue .operands).report, [], .ok 2⟩) ∧
    ∀ a b, operands = [a, b] → TakenAsValue a → ¬ TakenAsValue b →
      Program.main time files (operationArguments o t operands) =
        ⟨String.join (valuePart b).printed,
          Program.logText time .info ((valuePart b).log ++ [lackEntry o]), [], .ok 1⟩ := by
  refine ⟨⟨taken_of_ending time files h hdashes, fun hall => ?_⟩,
    main_taken time files h hdashes, fun a more => main_first_untaken time files h hdashes,
    fun a b => main_second_untaken time files h hdashes⟩
  rw [main_taken time files h hdashes hall]

/-- Digits after a minus are taken as a value, and all that starts with a blank; a word after
    a minus is not, and neither are digits with an underscore. -/
theorem operation_printed_iff_taken_signs :
    Program.main "TIME" (.ofList []) (operationArguments .add .string ["-5", " 1e5"]) =
        ⟨"add(-5,  1e5) = 99995\n", "", [], .ok 0⟩ ∧
      Program.main "TIME" (.ofList []) (operationArguments .abs .string ["-Infinity"]) =
        ⟨"", (UsageFault.missingValue .operands).report, [], .ok 2⟩ ∧
      (Program.main "TIME" (.ofList []) (operationArguments .add .int ["1", "-1_000"])).ending =
        .ok 1 := by
  have hadd : Operation.add.applyTexts .string ["-5", " 1e5"] = .ok (.text "99995") := by
    decide +kernel
  have habs : Operation.abs.applyTexts .string ["-Infinity"] = .ok (.text "Infinity") := by
    decide +kernel
  have hint : Operation.add.applyTexts .int ["1", "-1_000"] = .ok (.int (-999)) := by
    decide +kernel
  refine ⟨?_, ?_, ?_⟩
  · obtain ⟨-, htaken, -, -⟩ :=
      operation_printed_iff_taken "TIME" (.ofList []) hadd (by decide +kernel)
    exact htaken (by decide +kernel)
  · obtain ⟨-, -, hfirst, -⟩ :=
      operation_printed_iff_taken "TIME" (.ofList []) habs (by decide +kernel)
    exact hfirst "-Infinity" [] rfl (by decide +kernel)
  · obtain ⟨-, -, -, hsecond⟩ :=
      operation_printed_iff_taken "TIME" (.ofList []) hint (by decide +kernel)
    rw [hsecond "1" "-1_000" rfl (by decide +kernel) (by decide +kernel)]

/-- A negative number with an exponent has an absolute value, which is never asked for. -/
theorem exponent_operand_untaken :
    Operation.abs.applyTexts .string ["-1e5"] = .ok (.text "100000") ∧
      (∀ x ∈ ["-1e5"], ¬ ['-', '-'] <+: x.toList) ∧
      (Program.main "TIME" (.ofList [])
        ["--operation", "abs", "--operand_type", "string", "--operands", "-1e5"]).ending =
          .ok 2 ∧
      (Program.main "TIME" (.ofList [])
        ["--operation", "abs", "--operand_type", "string", "--operands", "-1e5"]).output = "" := by
  decide +kernel

end InfixArithmetic.OperandArguments
