/-
  InfixArithmetic.Proofs.ArgumentUses

  What becomes of every argument of a command line.

  A command line divides into stretches, and in one way only (`Reads.unique`): options with
  the values that follow them, options with an attached value, runs of plain arguments that
  no option takes, and unknown arguments.  `take_reads` finds this division in the way the
  arguments are taken, along with what each stretch leaves in the request (`Took`), one
  lemma a kind of stretch.  No argument stands in two stretches or in none, so the
  expressions and the values of the options are read off the division.
-/

import Mathlib.Data.List.Basic
import Mathlib.Data.List.TakeWhile
import InfixArithmetic.Proofs.FallibleSteps
import InfixArithmetic.CommandLine.Program

namespace InfixArithmetic.ArgumentUses

open Argument (classify)
open ArgumentClass (ofArgument)
open FallibleSteps (FaultsIn bind_eq_ok faultsIn_error faultsIn_ok)

/-! ## Uses -/

/-- What an argument is used as. -/
inductive Use where
  | option
  | value
  | expression
deriving DecidableEq, Repr

/-- Some arguments of a command line that stand together. -/
inductive Stretch where
  | option (argument : String) (flag : Flag) (values : List String)
  /-- An option with its value in the same argument. -/
  | attached (argument : String) (flag : Flag) (value : String)
  | run (arguments : List String)
  | unknown (argument : String)
deriving DecidableEq, Repr

namespace Stretch

/-- The arguments of a stretch, each with its use. -/
def uses : Stretch → List (String × Use)
  | option a _ values => (a, .option) :: values.map (·, .value)
  | attached a _ _ => [(a, .option)]
  | run as => as.map (·, .expression)
  | unknown a => [(a, .expression)]

/-- The arguments of a stretch that are used as expressions. -/
def expressions : Stretch → List String
  | option .. | attached .. => []
  | run as => as
  | unknown a => [a]

def isRun : Stretch → Bool
  | run _ => true
  | _ => false

/-- The values that a stretch gives to a flag. -/
def values? (f : Flag) : Stretch → Option (List String)
  | option _ g values => if g = f then some values else none
  | attached _ g value => if g = f then some [value] else none
  | run _ | unknown _ => none

end Stretch

/-- The arguments of the first run, if there is one. -/
def firstRun? (S : List Stretch) : Option (List String) :=
  (S.find? Stretch.isRun).map Stretch.expressions

/-- The expressions outside the first run, in order. -/
def laterExpressions (S : List Stretch) : List String :=
  (S.eraseP Stretch.isRun).flatMap Stretch.expressions

/-- The values that are given to a flag last. -/
def lastValues? (S : List Stretch) (f : Flag) : Option (List String) :=
  (S.filterMap (Stretch.values? f)).getLast?

/-- The values of a flag in a request, if it has any. -/
def held (r : Request) : Flag → Option (List String)
  | .help => none
  | .showTokens => if r.showTokens then some [] else none
  | .operation => r.operation.map fun o => [o.name]
  | .operandType => some [r.operandType.name]
  | .operands => some r.operands
  | .inputPath => r.inputPath.map ([·])
  | .expressionColumn => some [r.expressionColumn]
  | .outputPath => r.outputPath.map ([·])
  | .logLevel => some [r.logLevel.name]

/-! ## The division of a command line -/

/-- No plain argument comes first. -/
def NoPlainFirst (as : List Argument) : Prop := ∀ a ∈ as.head?, a.isPlain = false

/-- A flag takes these values, of which there are enough, and of what is after them it takes
    nothing. -/
def Takes (f : Flag) (values rest : List Argument) : Prop :=
  match f.arity with
  | .none => values = []
  | .one => values.length = 1
  | .many => values ≠ [] ∧ NoPlainFirst rest

/-- Arguments divide into stretches. -/
inductive Reads : List Argument → List Stretch → Prop
  | nil : Reads [] []
  | option {a : Argument} {f : Flag} {values rest : List Argument} {S : List Stretch} :
    a.kind = .flag f none → (∀ v ∈ values, v.isPlain) → Takes f values rest → Reads rest S →
      Reads (a :: (values ++ rest)) (.option a.text f (values.map Argument.text) :: S)
  | attached {a : Argument} {f : Flag} {value : String} {rest : List Argument}
    {S : List Stretch} :
    a.kind = .flag f (some value) → f.arity ≠ .none → Reads rest S →
      Reads (a :: rest) (.attached a.text f value :: S)
  | run {a : Argument} {more rest : List Argument} {S : List Stretch} :
    a.isPlain → (∀ b ∈ more, b.isPlain) → NoPlainFirst rest → Reads rest S →
      Reads (a :: (more ++ rest)) (.run (a.text :: more.map Argument.text) :: S)
  | unknown {a : Argument} {rest : List Argument} {S : List Stretch} :
    a.kind = .unknown → Reads rest S → Reads (a :: rest) (.unknown a.text :: S)

theorem takeWhile_isPlain_append {xs ys : List Argument} (hxs : ∀ a ∈ xs, a.isPlain)
    (hys : NoPlainFirst ys) : (xs ++ ys).takeWhile Argument.isPlain = xs := by
  rw [List.takeWhile_append_of_pos hxs]
  cases ys with
  | nil => simp
  | cons y ys => simp [hys y rfl]

/-- A run of plain arguments ends where no plain argument follows. -/
theorem plain_append_injective {xs ys xs' ys' : List Argument} (hxs : ∀ a ∈ xs, a.isPlain)
    (hys : NoPlainFirst ys) (hxs' : ∀ a ∈ xs', a.isPlain) (hys' : NoPlainFirst ys')
    (h : xs ++ ys = xs' ++ ys') : xs = xs' ∧ ys = ys' := by
  have hfirst : xs = xs' := by
    rw [← takeWhile_isPlain_append hxs hys, h, takeWhile_isPlain_append hxs' hys']
  subst hfirst
  exact ⟨rfl, List.append_cancel_left h⟩

theorem Takes.unique {f : Flag} {values rest values' rest' : List Argument}
    (hplain : ∀ v ∈ values, v.isPlain) (htakes : Takes f values rest)
    (hplain' : ∀ v ∈ values', v.isPlain) (htakes' : Takes f values' rest')
    (h : values ++ rest = values' ++ rest') : values = values' ∧ rest = rest' := by
  unfold Takes at htakes htakes'
  cases hf : f.arity with
  | none =>
    simp only [hf] at htakes htakes'
    subst htakes htakes'
    exact ⟨rfl, h⟩
  | one =>
    simp only [hf] at htakes htakes'
    exact List.append_inj h (htakes.trans htakes'.symm)
  | many =>
    simp only [hf] at htakes htakes'
    exact plain_append_injective hplain htakes.2 hplain' htakes'.2 h

/-- Arguments divide into stretches in one way only. -/
theorem Reads.unique {as : List Argument} {S S' : List Stretch} (h : Reads as S)
    (h' : Reads as S') : S = S' := by
  induction h generalizing S' with
  | nil => cases h'; rfl
  | @option a f values rest S hkind hplain htakes hrest ih =>
    -- What follows the flag is divided in both ways, and the flag's arity tells where.
    generalize hall : values ++ rest = all at h'
    cases h' with
    | option hkind' hplain' htakes' hrest' =>
      obtain ⟨⟩ := hkind.symm.trans hkind'
      obtain ⟨rfl, rfl⟩ := Takes.unique hplain htakes hplain' htakes' hall
      rw [ih hrest']
    | attached hkind' => simp [hkind] at hkind'
    | run hplain' => simp [Argument.isPlain, hkind] at hplain'
    | unknown hkind' => simp [hkind] at hkind'
  | @attached a f value rest S hkind harity hrest ih =>
    cases h' with
    | option hkind' => simp [hkind] at hkind'
    | attached hkind' harity' hrest' =>
      obtain ⟨⟩ := hkind.symm.trans hkind'
      rw [ih hrest']
    | run hplain' => simp [Argument.isPlain, hkind] at hplain'
    | unknown hkind' => simp [hkind] at hkind'
  | @run a more rest S hplain hmore hend hrest ih =>
    generalize hall : more ++ rest = all at h'
    cases h' with
    | option hkind' => simp [Argument.isPlain, hkind'] at hplain
    | attached hkind' => simp [Argument.isPlain, hkind'] at hplain
    | run hplain' hmore' hend' hrest' =>
      obtain ⟨rfl, rfl⟩ := plain_append_injective hmore hend hmore' hend' hall
      rw [ih hrest']
    | unknown hkind' => simp [Argument.isPlain, hkind'] at hplain
  | @unknown a rest S hkind hrest ih =>
    cases h' with
    | option hkind' => simp [hkind] at hkind'
    | attached hkind' => simp [hkind] at hkind'
    | run hplain' => simp [Argument.isPlain, hkind] at hplain'
    | unknown hkind' hrest' => rw [ih hrest']

/-- Every argument stands in one stretch, with one use. -/
theorem Reads.map_uses {as : List Argument} {S : List Stretch} (h : Reads as S) :
    (S.flatMap Stretch.uses).map Prod.fst = as.map Argument.text := by
  induction h with
  | nil => rfl
  | option _ _ _ _ ih => simp [Stretch.uses, ih, Function.comp_def]
  | attached _ _ _ ih => simp [Stretch.uses, ih]
  | run _ _ _ _ ih => simp [Stretch.uses, ih, Function.comp_def]
  | unknown _ _ ih => simp [Stretch.uses, ih]

theorem Reads.unknown_mem {as : List Argument} {S : List Stretch} (h : Reads as S)
    {a : Argument} (ha : a ∈ as) (hkind : a.kind = .unknown) : Stretch.unknown a.text ∈ S := by
  induction h with
  | nil => cases ha
  | option hflag hplain _ _ ih =>
    rcases List.mem_cons.1 ha with rfl | ha
    · simp [hkind] at hflag
    · rcases List.mem_append.1 ha with ha | ha
      · simpa [Argument.isPlain, hkind] using hplain a ha
      · exact List.mem_cons_of_mem _ (ih ha)
  | attached hflag _ _ ih =>
    rcases List.mem_cons.1 ha with rfl | ha
    · simp [hkind] at hflag
    · exact List.mem_cons_of_mem _ (ih ha)
  | run hplain hmore _ _ ih =>
    rcases List.mem_cons.1 ha with rfl | ha
    · simp [Argument.isPlain, hkind] at hplain
    · rcases List.mem_append.1 ha with ha | ha
      · simpa [Argument.isPlain, hkind] using hmore a ha
      · exact List.mem_cons_of_mem _ (ih ha)
  | unknown _ _ ih =>
    rcases List.mem_cons.1 ha with rfl | ha
    · exact List.mem_cons_self
    · exact List.mem_cons_of_mem _ (ih ha)

/-- The first run and what comes later are all expressions. -/
theorem perm_expressions (S : List Stretch) :
    ((firstRun? S).getD [] ++ laterExpressions S).Perm (S.flatMap Stretch.expressions) := by
  induction S with
  | nil => rfl
  | cons s S ih =>
    unfold firstRun? laterExpressions at ih ⊢
    cases hs : s.isRun with
    | true => simp [hs]
    | false =>
      -- The expressions of this stretch stand after the first run, and before it here.
      rw [List.find?_cons_of_neg (by simp [hs]), List.eraseP_cons_of_neg (by simp [hs]),
        List.flatMap_cons, List.flatMap_cons]
      exact (List.perm_append_comm_assoc ..).trans (ih.append_left _)

theorem filter_uses (S : List Stretch) :
    ((S.flatMap Stretch.uses).filter fun u => u.2 = .expression).map Prod.fst =
      S.flatMap Stretch.expressions := by
  rw [List.filter_flatMap, List.map_flatMap]
  refine List.flatMap_congr fun s _ => ?_
  cases s <;> simp [Stretch.uses, Stretch.expressions, List.filter_map, Function.comp_def]

/-! ## Values in a request -/

/-- Values that are given later count more. -/
theorem lastValues?_cons (s : Stretch) (S : List Stretch) (f : Flag) :
    lastValues? (s :: S) f = (lastValues? S f).or (s.values? f) := by
  unfold lastValues?
  cases hs : s.values? f with
  | none => simp [hs]
  | some values =>
    rw [List.filterMap_cons_some hs, List.getLast?_cons]
    cases (S.filterMap (Stretch.values? f)).getLast? <;> rfl

section Set

variable {r r' : Request} {f : Flag} {values : List String}

theorem set_one (hf : f.arity = .one) (h : r.set f values = .ok r') : ∃ v, values = [v] := by
  match values, h with
  | [v], _ => exact ⟨v, rfl⟩
  | [], h | _ :: _ :: _, h =>
    cases f with
    | help | showTokens | operands => cases hf
    | _ => cases h

theorem set_many (hf : f.arity = .many) (h : r.set f values = .ok r') : values ≠ [] := by
  rintro rfl
  cases f with
  | showTokens => cases hf
  | _ => cases h

theorem choose_eq_ok {α : Type} {read? : String → Option α} {v : String} {a : α}
    (h : Request.choose f read? v = .ok a) : read? v = some a := by
  unfold Request.choose at h
  cases hread : read? v with
  | none => simp [hread] at h
  | some b =>
    simp only [hread, Except.ok.injEq] at h
    rw [h]

/-- A flag has the values that it is given, and all others keep theirs. -/
theorem held_set (h : r.set f values = .ok r') (hcount : f.arity = .none → values = [])
    (g : Flag) : held r' g = if f = g then some values else held r g := by
  cases f with
  | help => cases h
  | showTokens =>
    obtain rfl := hcount rfl
    cases h
    cases g <;> rfl
  | operation =>
    obtain ⟨v, rfl⟩ := set_one rfl h
    obtain ⟨o, ho, h⟩ := bind_eq_ok h
    rw [← Operation.name_of_ofName? (choose_eq_ok ho)]
    cases h
    cases g <;> rfl
  | operandType =>
    obtain ⟨v, rfl⟩ := set_one rfl h
    obtain ⟨t, ht, h⟩ := bind_eq_ok h
    have hname : t.name = v := by simpa using List.find?_some (choose_eq_ok ht)
    rw [← hname]
    cases h
    cases g <;> rfl
  | operands =>
    obtain ⟨v, vs, rfl⟩ := List.exists_cons_of_ne_nil (set_many rfl h)
    cases h
    cases g <;> rfl
  | inputPath | expressionColumn | outputPath =>
    obtain ⟨v, rfl⟩ := set_one rfl h
    cases h
    cases g <;> rfl
  | logLevel =>
    obtain ⟨v, rfl⟩ := set_one rfl h
    obtain ⟨l, hl, h⟩ := bind_eq_ok h
    have hname : l.name = v := by simpa using List.find?_some (choose_eq_ok hl)
    rw [← hname]
    cases h
    cases g <;> rfl

theorem setAttached_eq_ok {v : String} (h : r.setAttached f v = .ok r') :
    f.arity ≠ .none ∧ r.set f [v] = .ok r' := by
  unfold Request.setAttached at h
  cases hf : f.arity with
  | none => simp [hf] at h
  | one | many => exact ⟨by rintro ⟨⟩, by simpa [hf] using h⟩

end Set

/-! ## Reserved texts -/

/-- A text that asks for help, or separates: it starts with the short help, or it is the
    start of the long help from its two dashes on, of which these alone are the separator. -/
def Reserved (a : String) : Prop :=
  ['-', 'h'] <+: a.toList ∨ ['-', '-'] <+: a.toList ∧ a.toList <+: Flag.help.name.toList

instance (a : String) : Decidable (Reserved a) :=
  inferInstanceAs (Decidable (_ ∨ _ ∧ _))

/-- The classes of reserved texts. -/
def isReserved : ArgumentClass → Bool
  | .separator | .helpCluster _ => true
  | .flag f attached => f = .help && attached.isNone
  | _ => false

theorem eq_of_splitEquals {cs name : List Char} (h : ArgumentClass.splitEquals cs = (name, none)) :
    name = cs := by
  induction cs generalizing name with
  | nil =>
    cases h
    rfl
  | cons c cs ih =>
    rw [ArgumentClass.splitEquals] at h
    split at h
    · cases h
    · obtain ⟨rfl, hnone⟩ := Prod.mk.inj h
      exact congrArg (c :: ·) (ih (Prod.ext rfl hnone))

/-- The names of the help are reserved. -/
theorem reserved_of_ofWhole? {a : String} (h : ArgumentClass.ofWhole? a.toList = some .help) :
    Reserved a := by
  unfold ArgumentClass.ofWhole? at h
  split at h
  · rename_i hshort
    exact .inl (by rw [hshort]; decide)
  · have hname : Flag.help.name.toList = a.toList := by simpa using List.find?_some h
    exact .inr (by rw [← hname]; decide)

/-- A text that is no name is reserved if it is the start of the long help, or if it goes on
    after the short one. -/
theorem reserved_of_ofDashed {a : String} (h : isReserved (ArgumentClass.ofDashed a.toList)) :
    Reserved a := by
  have hloose : ∀ p : Prop, [Decidable p] →
      isReserved (if p then .plain else .unknown) = false := by
    intro p _
    split <;> rfl
  unfold ArgumentClass.ofDashed at h
  cases hsplit : ArgumentClass.splitEquals a.toList with
  | mk start attached =>
    simp only [hsplit] at h
    split at h
    · rename_i cs ha
      split at h
      · simp [hloose] at h
      · rename_i f hf
        simp only [isReserved, Bool.and_eq_true, decide_eq_true_eq, Option.isNone_iff_eq_none,
          Option.map_eq_none_iff] at h
        obtain ⟨rfl, rfl⟩ := h
        have hmem : Flag.help ∈ Flag.startingWith start := by rw [hf]; exact List.mem_cons_self
        have hstart := (List.mem_filter.1 hmem).2
        rw [eq_of_splitEquals hsplit] at hstart
        refine .inr ⟨?_, List.isPrefixOf_iff_prefix.1 hstart⟩
        rw [ha]
        exact List.prefix_append ['-', '-'] cs
      · cases h
    · rename_i letters ha
      refine .inl ?_
      rw [ha]
      exact List.prefix_append ['-', 'h'] letters
    · simp [hloose] at h

theorem reserved_of_ofArgument {a : String} (h : isReserved (ofArgument a)) : Reserved a := by
  unfold ArgumentClass.ofArgument at h
  split at h
  · rename_i c cs ha
    rw [← ha] at h
    dsimp only at h
    split at h
    · rename_i f hf
      simp only [isReserved, Option.isNone_none, Bool.and_true, decide_eq_true_eq] at h
      exact reserved_of_ofWhole? (h ▸ hf)
    · split at h
      · split at h
        · simp [isReserved] at h
        · exact reserved_of_ofDashed h
      · exact reserved_of_ofDashed h
  · cases h

/-! ## Arguments that are taken -/

/-- What the arguments in some stretches leave behind. -/
structure Took (p : Progress) (S : List Stretch) (q : Progress) : Prop where
  expressions : q.expressions = p.expressions.or (firstRun? S)
  extras : q.extras = p.extras ++
    if p.expressions.isSome then S.flatMap Stretch.expressions else laterExpressions S
  held : ∀ f, held q.request f = (lastValues? S f).or (held p.request f)

namespace Took

variable {p q : Progress} {S : List Stretch}

theorem nil (p : Progress) : Took p [] p where
  expressions := by simp [firstRun?]
  extras := by simp [laterExpressions]
  held f := rfl

/-- A stretch that gives a flag its values, before the others. -/
theorem given {s : Stretch} {f : Flag} {values : List String} {r : Request}
    (hrun : s.isRun = false) (hnone : s.expressions = [])
    (hvalues : ∀ g, s.values? g = if f = g then some values else none)
    (hset : p.request.set f values = .ok r) (hcount : f.arity = .none → values = [])
    (h : Took { p with request := r } S q) : Took p (s :: S) q where
  expressions := by
    rw [h.expressions, firstRun?, firstRun?, List.find?_cons_of_neg (by simp [hrun])]
  extras := by
    rw [h.extras, laterExpressions, laterExpressions, List.eraseP_cons_of_neg (by simp [hrun]),
      List.flatMap_cons, List.flatMap_cons, hnone, List.nil_append, List.nil_append]
  held g := by
    rw [h.held, held_set hset hcount, lastValues?_cons, hvalues]
    split
    · simp
    · simp

/-- A run of plain arguments before the others. -/
theorem run {as : List String} (has : "--" ∉ as) (h : Took (p.takeRun as) S q) :
    Took p (.run as :: S) q := by
  -- The first run is that of the expressions, any other is left over.
  cases hp : p.expressions with
  | none =>
    have htake : p.takeRun as = { p with expressions := some as } := by
      rw [Progress.takeRun, hp, List.erase_of_not_mem has]
    rw [htake] at h
    refine ⟨?_, ?_, h.held⟩
    · rw [h.expressions, hp]
      rfl
    · rw [h.extras, hp]
      rfl
  | some first =>
    have htake : p.takeRun as = { p with extras := p.extras ++ as } := by
      rw [Progress.takeRun, hp]
    rw [htake] at h
    refine ⟨?_, ?_, h.held⟩
    · rw [h.expressions, hp]
      rfl
    · rw [h.extras, hp, List.append_assoc]
      rfl

/-- An unknown argument before the others. -/
theorem unknown {a : String} (h : Took { p with extras := p.extras ++ [a] } S q) :
    Took p (.unknown a :: S) q := by
  refine ⟨h.expressions, ?_, h.held⟩
  rw [h.extras, List.append_assoc]
  cases p.expressions <;> rfl

end Took

/-- An argument that neither separates nor asks for help. -/
structure IsOrdinary (a : Argument) : Prop where
  kind : isReserved a.kind = false
  text : a.text ≠ "--"

theorem IsOrdinary.ne_separator {a : Argument} (h : IsOrdinary a) : a.kind ≠ .separator := by
  intro hkind
  exact absurd h.kind (by simp [hkind, isReserved])

theorem isPlain_iff {a : Argument} : a.isPlain ↔ a.kind = .plain := decide_eq_true_iff

theorem isLoose_iff {a : Argument} : a.isLoose ↔ a.kind = .plain ∨ a.kind = .separator :=
  decide_eq_true_iff

/-- The arguments after a run of loose ones go on with no plain one. -/
theorem noPlainFirst_dropWhile {p : Argument → Bool} (hp : ∀ a, a.isPlain → p a)
    (as : List Argument) : NoPlainFirst (as.dropWhile p) := by
  intro a ha
  have hend := List.head?_dropWhile_not p as
  rw [Option.mem_def.1 ha] at hend
  exact Bool.eq_false_iff.2 fun hplain => Bool.false_ne_true (hend.symm.trans (hp a hplain))

/-- The values that a flag takes are those that follow it, if they are enough. -/
theorem takes_of_set {f : Flag} {as : List Argument} {r r' : Request} {limit : Nat}
    (hlimit : limit = match f.arity with
      | .none => 0
      | .one => 1
      | .many => as.length)
    {values : List Argument} (hvalues : values = (as.take limit).takeWhile Argument.isPlain)
    (h : r.set f (values.map Argument.text) = .ok r') :
    Takes f values (as.drop values.length) := by
  unfold Takes
  cases hf : f.arity with
  | none => simp [hvalues, hlimit, hf]
  | one =>
    obtain ⟨v, hv⟩ := set_one hf h
    simpa using congrArg List.length hv
  | many =>
    refine ⟨fun hnil => set_many hf h (by rw [hnil]; rfl), ?_⟩
    simp only [hf] at hlimit
    rw [hlimit, List.take_length] at hvalues
    have hdrop : as.drop values.length = as.dropWhile Argument.isPlain := by
      conv_lhs =>
        rw [← List.takeWhile_append_dropWhile (p := Argument.isPlain) (l := as), ← hvalues]
      exact List.drop_left
    rw [hdrop]
    exact noPlainFirst_dropWhile (fun _ => id) as

/-- Arguments that are taken divide into stretches. -/
theorem take_reads {as : List Argument} {p q : Progress} (has : ∀ a ∈ as, IsOrdinary a)
    (h : p.take as = .ok q) : ∃ S, Reads as S ∧ Took p S q := by
  induction p, as using Progress.take.induct with
  | case1 p =>
    rw [Progress.take] at h
    cases h
    exact ⟨[], .nil, .nil _⟩
  | case2 p a as hkind ih =>
    rw [Progress.take, hkind] at h
    obtain ⟨S, hreads, htook⟩ := ih (fun b hb => has b (List.mem_cons_of_mem _ hb)) h
    exact ⟨_, .unknown hkind hreads, htook.unknown⟩
  | case3 p a as candidates hkind => simp [Progress.take, hkind] at h
  | case4 p a as letters hkind => simp [Progress.take, hkind] at h
  | case5 p a as f value hkind ih =>
    rw [Progress.take, hkind] at h
    obtain ⟨r, hset, h⟩ := bind_eq_ok h
    obtain ⟨harity, hset⟩ := setAttached_eq_ok hset
    obtain ⟨S, hreads, htook⟩ := ih r (fun b hb => has b (List.mem_cons_of_mem _ hb)) h
    exact ⟨_, .attached hkind harity hreads,
      htook.given rfl rfl (fun _ => rfl) hset fun hnone => absurd hnone harity⟩
  | case6 p a as f hkind limit values ih =>
    rw [Progress.take, hkind] at h
    obtain ⟨r, hset, h⟩ := bind_eq_ok h
    obtain ⟨S, hreads, htook⟩ := ih r
      (fun b hb => has b (List.mem_cons_of_mem _ (List.mem_of_mem_drop hb))) h
    -- The values are a start of what follows, and `set` has found them to be enough.
    have htakes : Takes f values (as.drop values.length) := takes_of_set rfl rfl hset
    have hsplit : values ++ as.drop values.length = as :=
      List.prefix_iff_eq_append.1 ((List.takeWhile_prefix _).trans (List.take_prefix ..))
    have hreads := Reads.option hkind (fun v hv => List.mem_takeWhile_imp hv) htakes hreads
    rw [hsplit] at hreads
    refine ⟨_, hreads, htook.given rfl rfl (fun _ => rfl) hset fun hnone => ?_⟩
    have hnil : values = [] := by simpa [Takes, hnone] using htakes
    exact congrArg (List.map Argument.text) hnil
  | case7 p a as hkind ih =>
    rw [Progress.take, hkind] at h
    have hsplit := List.takeWhile_append_dropWhile (p := Argument.isLoose) (l := as)
    obtain ⟨S, hreads, htook⟩ := ih
      (fun b hb => has b (List.mem_cons_of_mem _ ((List.dropWhile_sublist _).subset hb))) h
    -- There is no separator, so a run of loose arguments is one of plain arguments.
    have hmore : ∀ b ∈ as.takeWhile Argument.isLoose, b.isPlain := by
      intro b hb
      have hordinary := has b (List.mem_cons_of_mem _ ((List.takeWhile_sublist _).subset hb))
      have hloose := isLoose_iff.1 (List.mem_takeWhile_imp hb)
      exact isPlain_iff.2 (hloose.resolve_right hordinary.ne_separator)
    have hreads := Reads.run (isPlain_iff.2 hkind) hmore
      (noPlainFirst_dropWhile (fun _ hb => isLoose_iff.2 (.inl (isPlain_iff.1 hb))) as) hreads
    rw [hsplit] at hreads
    refine ⟨_, hreads, htook.run fun hdashes => ?_⟩
    rw [← List.map_cons] at hdashes
    obtain ⟨b, hb, htext⟩ := List.mem_map.1 hdashes
    refine (has b ?_).text htext
    exact List.cons_subset_cons _ (List.takeWhile_sublist _).subset hb
  | case8 p a as hkind ih => exact absurd hkind (has a List.mem_cons_self).ne_separator

/-- Without a separator each argument is classified by itself. -/
theorem classify_eq_map {args : List String} (h : "--" ∉ args) :
    classify args = args.map fun a => ⟨a, ofArgument a⟩ := by
  induction args with
  | nil => rfl
  | cons a as ih =>
    have ha : a ≠ "--" := by
      rintro rfl
      exact h List.mem_cons_self
    rw [classify, if_neg ha, ih fun has => h (List.mem_cons_of_mem _ has), List.map_cons]

theorem isOrdinary_of_mem_classify {args : List String} (hargs : ∀ a ∈ args, ¬ Reserved a)
    {a : Argument} (ha : a ∈ classify args) : IsOrdinary a := by
  have hdashes : "--" ∉ args := fun h => hargs _ h (by decide)
  rw [classify_eq_map hdashes] at ha
  obtain ⟨text, htext, rfl⟩ := List.mem_map.1 ha
  constructor
  · exact Bool.eq_false_iff.2 fun h => hargs text htext (reserved_of_ofArgument h)
  · rintro rfl
    exact hdashes htext

/-! ## Faults -/

theorem choose_ne_help {α : Type} (f : Flag) (read? : String → Option α) (v : String) :
    FaultsIn (· ≠ .help) (Request.choose f read? v) := by
  unfold Request.choose
  cases read? v with
  | none => exact faultsIn_error (by rintro ⟨⟩)
  | some a => exact faultsIn_ok a

theorem set_ne_help {f : Flag} (hf : f ≠ .help) (r : Request) (values : List String) :
    FaultsIn (· ≠ .help) (r.set f values) := by
  unfold Request.set
  split
  case h_1 => exact absurd rfl hf
  case h_3 | h_4 | h_9 => exact .bind (choose_ne_help _ _ _) fun _ _ => faultsIn_ok _
  case h_2 | h_5 | h_6 | h_7 | h_8 => exact faultsIn_ok _
  case h_10 => exact faultsIn_error (by rintro ⟨⟩)

theorem setAttached_ne_help (r : Request) (f : Flag) (v : String) :
    FaultsIn (· ≠ .help) (r.setAttached f v) := by
  unfold Request.setAttached
  split
  · exact faultsIn_error (by rintro ⟨⟩)
  · rename_i harity
    exact set_ne_help (by rintro rfl; exact harity rfl) r [v]

/-- No help is given unless it is asked for. -/
theorem take_ne_help {as : List Argument} (has : ∀ a ∈ as, IsOrdinary a) (p : Progress) :
    FaultsIn (· ≠ .help) (p.take as) := by
  induction p, as using Progress.take.induct with
  | case1 p =>
    rw [Progress.take]
    exact faultsIn_ok p
  | case2 p a as hkind ih =>
    rw [Progress.take, hkind]
    exact ih fun b hb => has b (List.mem_cons_of_mem _ hb)
  | case3 p a as candidates hkind =>
    rw [Progress.take, hkind]
    exact faultsIn_error (by rintro ⟨⟩)
  | case4 p a as letters hkind =>
    have hcluster := (has a List.mem_cons_self).kind
    simp [hkind, isReserved] at hcluster
  | case5 p a as f value hkind ih =>
    rw [Progress.take, hkind]
    exact .bind (setAttached_ne_help _ _ _) fun r _ =>
      ih r fun b hb => has b (List.mem_cons_of_mem _ hb)
  | case6 p a as f hkind limit values ih =>
    have hf : f ≠ .help := by
      rintro rfl
      have hhelp := (has a List.mem_cons_self).kind
      simp [hkind, isReserved] at hhelp
    rw [Progress.take, hkind]
    exact .bind (set_ne_help hf _ _) fun r _ =>
      ih r fun b hb => has b (List.mem_cons_of_mem _ (List.mem_of_mem_drop hb))
  | case7 p a as hkind ih =>
    rw [Progress.take, hkind]
    exact ih fun b hb => has b (List.mem_cons_of_mem _ ((List.dropWhile_sublist _).subset hb))
  | case8 p a as hkind ih => exact absurd hkind (has a List.mem_cons_self).ne_separator

theorem finish_ne_help (p : Progress) : FaultsIn (· ≠ .help) p.finish := by
  unfold Progress.finish
  split
  · exact faultsIn_ok _
  · exact faultsIn_error (by rintro ⟨⟩)

theorem parse_ne_help {args : List String} (hargs : ∀ a ∈ args, ¬ Reserved a) :
    FaultsIn (· ≠ .help) (Request.parse args) := by
  unfold Request.parse
  dsimp only
  split
  · exact faultsIn_error (by rintro ⟨⟩)
  · exact (take_ne_help (fun a ha => isOrdinary_of_mem_classify hargs ha) _).bind fun p _ =>
      finish_ne_help p

/-- What is asked for, if nothing is wrong with the arguments. -/
theorem parse_eq_ok {args : List String} {r : Request} (h : Request.parse args = .ok r) :
    ∃ p, Progress.take {} (classify args) = .ok p ∧
      (∀ e ∈ p.extras, ¬ ['-', '-'] <+: e.toList) ∧
      r = { p.request with expressions := p.expressions.getD [] ++ p.extras } := by
  unfold Request.parse at h
  dsimp only at h
  split at h
  · cases h
  · obtain ⟨p, htake, h⟩ := bind_eq_ok h
    refine ⟨p, htake, ?_⟩
    unfold Progress.finish at h
    split at h
    · rename_i hextras
      cases h
      refine ⟨fun e he hdashes => ?_, rfl⟩
      exact List.filter_eq_nil_iff.1 hextras e he (List.isPrefixOf_iff_prefix.2 hdashes)
    · cases h

/-! ## The whole command line -/

/-- What is asked for follows from the one division of the arguments. -/
theorem parse_reads {args : List String} (hargs : ∀ a ∈ args, ¬ Reserved a) {r : Request}
    (h : Request.parse args = .ok r) :
    ∃ S, Reads (classify args) S ∧ r.expressions = (firstRun? S).getD [] ++ laterExpressions S ∧
      (∀ e ∈ laterExpressions S, ¬ ['-', '-'] <+: e.toList) ∧
      ∀ f, held r f = (lastValues? S f).or (held {} f) := by
  obtain ⟨p, htake, hextras, rfl⟩ := parse_eq_ok h
  obtain ⟨S, hreads, htook⟩ := take_reads (fun a ha => isOrdinary_of_mem_classify hargs ha) htake
  have hlater : p.extras = laterExpressions S := htook.extras
  refine ⟨S, hreads, ?_, hlater ▸ hextras, fun f => ?_⟩
  · show p.expressions.getD [] ++ p.extras = _
    rw [hlater, htook.expressions]
    rfl
  · have hheld := htook.held f
    cases f <;> exact hheld

/-- Arguments that ask for no help, do not separate and are all understood divide into
    stretches in one way, in which each of them has one use.  The expressions are those of
    the first run and after them the others in order, of which none starts with two dashes:
    all arguments of this use and no more.  Each option has the values that are given to it
    last, or else those it has by itself.  An unknown argument that starts with two dashes is
    a fault, which is all that is printed. -/
theorem arguments_used_once {args : List String} (hargs : ∀ a ∈ args, ¬ Reserved a) :
    ((∀ f, Request.parse args ≠ .error (.fault f)) →
      ∃ r S, Request.parse args = .ok r ∧
        Reads (classify args) S ∧ (∀ S', Reads (classify args) S' → S' = S) ∧
        (S.flatMap Stretch.uses).map Prod.fst = args ∧
        r.expressions = (firstRun? S).getD [] ++ laterExpressions S ∧
        (∀ e ∈ laterExpressions S, ¬ ['-', '-'] <+: e.toList) ∧
        r.expressions.Perm
          (((S.flatMap Stretch.uses).filter fun u => u.2 = .expression).map Prod.fst) ∧
        ∀ f, held r f = (lastValues? S f).or (held {} f)) ∧
    ∀ a ∈ args, ofArgument a = .unknown → ['-', '-'] <+: a.toList →
      ∃ f, Request.parse args = .error (.fault f) ∧
        ∀ time files, Program.main time files args = ⟨"", f.report, [], .ok 2⟩ := by
  have hclasses := classify_eq_map fun h => hargs _ h (by decide)
  constructor
  · intro hfault
    cases hparse : Request.parse args with
    | error stop =>
      cases stop with
      | help => exact absurd rfl (parse_ne_help hargs _ hparse)
      | fault f => exact absurd hparse (hfault f)
    | ok r =>
      obtain ⟨S, hreads, hexpressions, hlater, hheld⟩ := parse_reads hargs hparse
      refine ⟨r, S, rfl, hreads, fun S' h => h.unique hreads, ?_, hexpressions, hlater, ?_,
        hheld⟩
      · rw [hreads.map_uses, hclasses, List.map_map]
        exact List.map_id args
      · rw [filter_uses, hexpressions]
        exact perm_expressions S
  · intro a ha hunknown hdashes
    cases hparse : Request.parse args with
    | error stop =>
      cases stop with
      | help => exact absurd rfl (parse_ne_help hargs _ hparse)
      | fault f => exact ⟨f, rfl, fun time files => by rw [Program.main, hparse]⟩
    | ok r =>
      obtain ⟨S, hreads, -, hlater, -⟩ := parse_reads hargs hparse
      have hmem : ⟨a, ofArgument a⟩ ∈ classify args := by
        rw [hclasses]
        exact List.mem_map_of_mem ha
      refine absurd hdashes (hlater a ?_)
      refine List.mem_flatMap.2 ⟨.unknown a, ?_, List.mem_singleton_self a⟩
      exact (List.mem_eraseP_of_neg (by rintro ⟨⟩)).2 (hreads.unknown_mem hmem hunknown)

/-- Options of all kinds between several runs of expressions. -/
theorem arguments_used_once_interleaved :
    (∃ S, Reads (classify ["-5+3*2", "1+1", "--show_tokens", "2*3", "--operation=add",
        "--operands", "1", "-2", "--input", "in.txt", "3"]) S ∧
      ["1+1", "-5+3*2", "2*3", "3"] = (firstRun? S).getD [] ++ laterExpressions S ∧
      some ["1", "-2"] = (lastValues? S .operands).or (some [])) ∧
    ∃ f : UsageFault, ∀ time files,
      Program.main time files ["1+1", "--unknown"] = ⟨"", f.report, [], .ok 2⟩ := by
  have hargs : ∀ a ∈ ["-5+3*2", "1+1", "--show_tokens", "2*3", "--operation=add",
      "--operands", "1", "-2", "--input", "in.txt", "3"], ¬ Reserved a := by decide +kernel
  have hparse : Request.parse ["-5+3*2", "1+1", "--show_tokens", "2*3", "--operation=add",
      "--operands", "1", "-2", "--input", "in.txt", "3"] =
        .ok { expressions := ["1+1", "-5+3*2", "2*3", "3"], showTokens := true,
              operation := some .add, operands := ["1", "-2"], inputPath := some "in.txt" } := by
    decide +kernel
  have hargs' : ∀ a ∈ ["1+1", "--unknown"], ¬ Reserved a := by decide +kernel
  constructor
  · obtain ⟨r, S, hr, hreads, -, -, hexpressions, -, -, hheld⟩ :=
      (arguments_used_once hargs).1 fun f hfault => by rw [hparse] at hfault; cases hfault
    rw [hparse] at hr
    cases hr
    exact ⟨S, hreads, hexpressions, hheld .operands⟩
  · obtain ⟨f, -, hmain⟩ := (arguments_used_once hargs').2 "--unknown" (by decide)
      (by decide +kernel) (by decide +kernel)
    exact ⟨f, hmain⟩

end InfixArithmetic.ArgumentUses
