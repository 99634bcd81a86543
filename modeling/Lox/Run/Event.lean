import Lox.Execution.Machine
import Lox.Grammar.Program
import Lox.Problem.Basic

/-!
# Runs — Events

What happens while a source is read and run, in order: problems and faults, which are reported, and
notes, which are logged for those who want to follow a run closely.
-/

namespace Lox

/-- How the run of a source ends. -/
inductive Outcome where
  | ok
  | syntaxError
  | runtimeError
  deriving DecidableEq, Repr

/-- The name of an outcome. -/
def Outcome.text : Outcome → String
  | ok => "Ok"
  | syntaxError => "SyntaxError"
  | runtimeError => "RuntimeError"

/-- The importance of a note, the highest first. -/
inductive Note.Level where
  | error
  | warn
  | info
  | debug
  | trace
  deriving DecidableEq, Repr

namespace Note.Level

/-- The place of a level among the others. -/
def rank : Level → Nat
  | error => 1
  | warn => 2
  | info => 3
  | debug => 4
  | trace => 5

/-- The name of a level. -/
def text : Level → String
  | error => "ERROR"
  | warn => "WARN"
  | info => "INFO"
  | debug => "DEBUG"
  | trace => "TRACE"

end Note.Level

/-- A remark on a run. -/
inductive Note where
  /-- A script is about to run. -/
  | running (path : String)
  | read (bytes : Nat) (path : String)
  | scanned (tokens : Nat)
  | parsed (statements : Nat)
  /-- After an error, parsing went on before this token. -/
  | resumed (before : Token)
  | moved (move : Move)
  | faulted (fault : Fault)
  | lineFinished (outcome : Outcome)
  /-- A session ended because its input could not be read. -/
  | sessionStopped (reason : String)

namespace Note

/-- The importance of a note. -/
def level : Note → Level
  | sessionStopped _ => .error
  | running _ => .info
  | read _ _ | scanned _ | parsed _ | faulted _ | lineFinished _ => .debug
  | resumed _ | moved _ => .trace

/-- The part of the program that a note is about. -/
def area : Note → String
  | running _ | sessionStopped _ => "loxi"
  | lineFinished _ => "loxi::repl"
  | read _ _ => "lox_core::runner"
  | scanned _ => "lox_core::lexer::lexer"
  | parsed _ | resumed _ => "lox_core::parser::parser"
  | moved _ => "lox_core::environment::environment"
  | faulted _ => "lox_core::eval"

/-- The remark itself. -/
def text : Note → String
  | running path => "running " ++ path
  | read bytes path => "read " ++ toString bytes ++ " bytes from " ++ path
  | scanned tokens => "scanned " ++ toString tokens ++ " tokens"
  | parsed statements => "parsed " ++ toString statements ++ " statements"
  | resumed t => "synchronized at line " ++ toString t.line ++ " before `" ++ t.lexeme ++ "`"
  | moved (.entered scope depth) =>
    "entered scope " ++ toString scope ++ " (depth " ++ toString depth ++ ")"
  | moved (.left scope outer) => "left scope " ++ toString scope ++ " for " ++ toString outer
  | faulted f => "runtime error at line " ++ toString f.line ++ ": " ++ f.message
  | lineFinished o => "line finished with " ++ o.text
  | sessionStopped reason => "repl stopped: " ++ reason

/-- A note as a line of a log. -/
def line (n : Note) : String := "[" ++ n.level.text ++ "] [" ++ n.area ++ "] " ++ n.text

end Note

/-- What happens in a run. -/
inductive Event where
  | problem (p : Problem)
  | fault (f : Fault)
  | note (n : Note)

namespace Event

/-- What is noticed while tokens are read, as an event. -/
def ofNotice : Grammar.Notice → Event
  | .error e => .problem (.grammar e)
  | .resumed before => .note (.resumed before)

/-- The problem that an event tells of. -/
def problem? : Event → Option Problem
  | problem p => some p
  | _ => none

/-- The fault that an event tells of. -/
def fault? : Event → Option Fault
  | fault f => some f
  | _ => none

/-- The note that an event is. -/
def note? : Event → Option Note
  | note n => some n
  | _ => none

end Event

end Lox
