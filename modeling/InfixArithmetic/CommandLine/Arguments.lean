/-
  InfixArithmetic.CommandLine.Arguments

  What the arguments of a command line ask for.

  Every argument is first classified by itself: as plain, as a flag with or without
  an attached value, or as unknown. Then they are taken from left to right: a flag
  takes its values from the plain arguments just after it, the first plain
  arguments that no flag takes are expressions, and everything else is left over.
-/

import InfixArithmetic.CommandLine.Usage
import InfixArithmetic.Settings
import InfixArithmetic.Text.DecimalDigit

namespace InfixArithmetic

/-! ## Classification -/

/-- What an argument is by itself. -/
inductive ArgumentClass where
  | plain
  /-- Two dashes, after which everything is plain. -/
  | separator
  /-- A flag, and the value that an equals sign attaches to it. -/
  | flag (flag : Flag) (attached : Option String)
  /-- The short help with more letters directly after it. -/
  | helpCluster (letters : List Char)
  /-- The start of several flags. -/
  | ambiguous (candidates : List Flag)
  /-- Anything else that starts with a dash. -/
  | unknown
deriving DecidableEq, Repr

namespace ArgumentClass

/-- A text before its first equals sign, and what comes after that. -/
def splitEquals : List Char → List Char × Option (List Char)
  | [] => ([], none)
  | c :: cs =>
    if c = '=' then ([], some cs)
    else let (name, attached) := splitEquals cs; (c :: name, attached)

/-- True of digits only, and at least one of them. -/
def isDigits (cs : List Char) : Bool :=
  !cs.isEmpty && cs.all fun c => (Text.digitValue? c).isSome

/-- A text without the line feed that it may end in. -/
def dropLineFeed (cs : List Char) : List Char :=
  if cs.getLast? = some '\n' then cs.dropLast else cs

/-- True of a minus with digits after it, or with digits, a point and more digits,
    of which the first may be missing. -/
def isNegativeNumber : List Char → Bool
  | '-' :: cs =>
    let cs := dropLineFeed cs
    isDigits cs ||
      match cs.dropWhile fun c => (Text.digitValue? c).isSome with
      | '.' :: fraction => isDigits fraction
      | _ => false
  | _ => false

/-- The flag whose whole name is given. -/
def ofWhole? (name : List Char) : Option Flag :=
  if name = Flag.shortHelp.toList then some .help else Flag.ofName? name

/-- The class of an argument that starts with a dash, goes on, and is no flag or
    flag with an attached value as it stands. -/
def ofDashed (cs : List Char) : ArgumentClass :=
  let (start, attached) := splitEquals cs
  let loose := if isNegativeNumber cs ∨ ' ' ∈ cs then plain else unknown
  match cs with
  | '-' :: '-' :: _ =>
    match Flag.startingWith start with
    | [] => loose
    | [f] => flag f (attached.map String.ofList)
    | fs => ambiguous fs
  | '-' :: 'h' :: letters => helpCluster letters
  | _ => loose

/-- The class of an argument before any separator. -/
def ofArgument (argument : String) : ArgumentClass :=
  match argument.toList with
  | '-' :: c :: cs =>
    let whole := '-' :: c :: cs
    match ofWhole? whole with
    | some f => flag f none
    | none =>
      match splitEquals whole with
      | (name, some attached) =>
        match ofWhole? name with
        | some f => flag f (some (String.ofList attached))
        | none => ofDashed whole
      | (_, none) => ofDashed whole
  | _ => plain

end ArgumentClass

/-- An argument with its class. -/
structure Argument where
  text : String
  kind : ArgumentClass
deriving DecidableEq, Repr

namespace Argument

/-- The arguments of a command line with their classes. -/
def classify : List String → List Argument
  | [] => []
  | a :: as =>
    if a = "--" then ⟨a, .separator⟩ :: as.map (⟨·, .plain⟩)
    else ⟨a, .ofArgument a⟩ :: classify as

def isPlain (a : Argument) : Bool := a.kind = .plain

/-- True of plain arguments and the separator. -/
def isLoose (a : Argument) : Bool := a.kind = .plain ∨ a.kind = .separator

/-- The fault of the first ambiguous argument. -/
def ambiguity? (as : List Argument) : Option UsageFault :=
  as.findSome? fun a =>
    match a.kind with
    | .ambiguous candidates => some (.ambiguous a.text candidates)
    | _ => none

end Argument

/-! ## Requests -/

/-- What a command line asks for. -/
structure Request where
  expressions : List String := []
  showTokens : Bool := false
  operation : Option Operation := none
  operandType : OperandType := .float
  operands : List String := []
  inputPath : Option String := none
  expressionColumn : String := Settings.standard.data.expressionColumn
  outputPath : Option String := none
  logLevel : Level := .info
deriving DecidableEq, Repr

/-- Why the arguments are not taken to their end. -/
inductive Stop where
  | help
  | fault (fault : UsageFault)
deriving DecidableEq, Repr

/-- Where the letters after a short help lead. Each further `h` is the short help
    again, and takes no value either; any other letter is passed over for the help
    that has been asked for, unless it is a dash. -/
def Stop.ofHelpCluster : List Char → Stop
  | 'h' :: '=' :: value => .fault (.unwantedValue .help (String.ofList value))
  | 'h' :: letters => .ofHelpCluster letters
  | '-' :: letters => .fault (.unwantedValue .help (String.ofList ('-' :: letters)))
  | _ => .help

namespace Request

/-- A value out of the choices of a flag. -/
def choose {α : Type} (f : Flag) (read? : String → Option α) (value : String) :
    Except Stop α :=
  match read? value with
  | some a => .ok a
  | none => .error (.fault (.invalidChoice f value))

/-- The request with a flag and its values; a later one replaces an earlier one. -/
def set (r : Request) : Flag → List String → Except Stop Request
  | .help, _ => .error .help
  | .showTokens, _ => .ok { r with showTokens := true }
  | .operation, [v] => do
    return { r with operation := some (← choose .operation Operation.ofName? v) }
  | .operandType, [v] => do
    return { r with operandType := ← choose .operandType OperandType.ofName? v }
  | .operands, v :: vs => .ok { r with operands := v :: vs }
  | .inputPath, [v] => .ok { r with inputPath := some v }
  | .expressionColumn, [v] => .ok { r with expressionColumn := v }
  | .outputPath, [v] => .ok { r with outputPath := some v }
  | .logLevel, [v] => do
    return { r with logLevel := ← choose .logLevel Level.ofName? v }
  | f, _ => .error (.fault (.missingValue f))

/-- The request with a flag and the value attached to it, which a flag without
    values does not take. -/
def setAttached (r : Request) (f : Flag) (value : String) : Except Stop Request :=
  match f.arity with
  | .none => .error (.fault (.unwantedValue f value))
  | _ => r.set f [value]

/-- Whether anything is asked for at all. -/
def isEmpty (r : Request) : Bool :=
  r.expressions.isEmpty && r.operation.isNone && (r.inputPath.getD "").isEmpty

end Request

/-! ## Taking arguments -/

/-- What has been taken so far: the flags, the expressions as soon as there are
    any, and what is left over. -/
structure Progress where
  request : Request := {}
  expressions : Option (List String) := none
  extras : List String := []
deriving DecidableEq, Repr

namespace Progress

/-- A run of loose arguments: the first one is the expressions, without its first
    separator. -/
def takeRun (p : Progress) (run : List String) : Progress :=
  match p.expressions with
  | none => { p with expressions := some (run.erase "--") }
  | some _ => { p with extras := p.extras ++ run }

/-- Takes all arguments in order. -/
def take (p : Progress) : List Argument → Except Stop Progress
  | [] => .ok p
  | a :: as =>
    match a.kind with
    | .unknown => take { p with extras := p.extras ++ [a.text] } as
    | .ambiguous candidates => .error (.fault (.ambiguous a.text candidates))
    | .helpCluster letters => .error (.ofHelpCluster letters)
    | .flag f (some value) => do
      take { p with request := ← p.request.setAttached f value } as
    | .flag f none =>
      let limit := match f.arity with
        | .none => 0
        | .one => 1
        | .many => as.length
      -- Too few values are a fault of the flag, which `set` notices.
      let values := (as.take limit).takeWhile Argument.isPlain
      do
        take { p with request := ← p.request.set f (values.map Argument.text) }
          (as.drop values.length)
    | .plain | .separator =>
      take (p.takeRun (a :: as.takeWhile Argument.isLoose |>.map Argument.text))
        (as.dropWhile Argument.isLoose)
termination_by as => as.length
decreasing_by
  all_goals simp only [List.length_cons, List.length_drop]
  · omega
  · omega
  · omega
  · have := (List.dropWhile_sublist Argument.isLoose (l := as)).length_le
    omega

/-- The whole request. Arguments left over are further expressions, unless they
    start with two dashes. -/
def finish (p : Progress) : Except Stop Request :=
  match p.extras.filter fun e => ['-', '-'].isPrefixOf e.toList with
  | [] => .ok { p.request with expressions := p.expressions.getD [] ++ p.extras }
  | unknown => .error (.fault (.unrecognized unknown))

end Progress

/-- What the arguments of a command line ask for. An ambiguous argument is noticed
    before any is taken. -/
def Request.parse (args : List String) : Except Stop Request :=
  let as := Argument.classify args
  match Argument.ambiguity? as with
  | some fault => .error (.fault fault)
  | none => do (← Progress.take {} as).finish

end InfixArithmetic
