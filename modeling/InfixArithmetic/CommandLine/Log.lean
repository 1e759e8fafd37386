/-
  InfixArithmetic.CommandLine.Log

  What a program reports on the way, by level.
-/

namespace InfixArithmetic

/-- How important an entry is. -/
inductive Level where
  | debug
  | info
  | warning
  | error
deriving DecidableEq, Repr

namespace Level

/-- All levels, from the least to the most important. -/
def all : List Level := [debug, info, warning, error]

def name : Level → String
  | debug => "DEBUG"
  | info => "INFO"
  | warning => "WARNING"
  | error => "ERROR"

/-- The level with a name. -/
def ofName? (s : String) : Option Level := all.find? (·.name == s)

/-- The place of a level among all. -/
def rank : Level → Nat
  | debug => 0
  | info => 1
  | warning => 2
  | error => 3

end Level

/-- The part of the program that an entry comes from. -/
inductive Source where
  | scanner
  | evaluator
  | loader
  | program
deriving DecidableEq, Repr

/-- The name of a part in log lines. -/
def Source.name : Source → String
  | scanner => "core.token_system"
  | evaluator => "core.expression_evaluator"
  | loader => "data.data_loader"
  | program => "__main__"

/-- One entry of a log. -/
structure LogEntry where
  source : Source
  level : Level
  message : String
deriving DecidableEq, Repr

/-- The entries that are as important as a level or more. -/
def LogEntry.select (threshold : Level) (log : List LogEntry) : List LogEntry :=
  log.filter fun e => threshold.rank ≤ e.level.rank

/-- An entry as a line, after the time at which it was made. -/
def LogEntry.line (time : String) (e : LogEntry) : String :=
  time ++ " - " ++ e.source.name ++ " - " ++ e.level.name ++ " - " ++ e.message ++ "\n"

end InfixArithmetic
