import Lox.Execution.Statement
import Lox.Run.Event
import Lox.Token.Scan

/-!
# Runs — Sources

Reading and running a source text. A source with a problem is not run at all; any other is run up to
its first fault. How a run ends depends on the source and the machine alone, never on what was
reported before.
-/

namespace Lox

/-- A source text that was read: the statements that could be read, and what happened. -/
structure Reading where
  statements : List Stmt
  events : List Event

namespace Reading

/-- Reads a source text. The lexical errors come first, then the grammar errors. -/
def ofString (source : String) : Reading :=
  let scan := Token.Scan.ofString source
  let parse := Parse.ofTokens scan.tokens
  { statements := parse.statements
    events :=
      scan.errors.map (fun e => .problem (.lexical e)) ++
      .note (.scanned scan.tokens.length) :: parse.notices.map Event.ofNotice ++
      [.note (.parsed parse.statements.length)] }

/-- The problems that were found, in the order in which they were. -/
def problems (r : Reading) : List Problem := r.events.filterMap Event.problem?

end Reading

/-- What a run comes to. -/
structure Run where
  outcome : Outcome
  machine : Machine
  events : List Event

namespace Machine

/-- Runs statements, and tells what happens. -/
def interpret (m : Machine) (statements : List Stmt) : Run :=
  let moved (m' : Machine) : List Event := m'.moves.reverse.map fun move => .note (.moved move)
  match Stmt.executeAll statements { m with moves := [] } with
  | .ok _ m' => ⟨.ok, m', moved m'⟩
  | .error f m' => ⟨.runtimeError, m', moved m' ++ [.note (.faulted f), .fault f]⟩

/-- Reads a source text and runs it, unless there is a problem with it. -/
def run (m : Machine) (source : String) : Run :=
  let reading := Reading.ofString source
  if reading.problems.isEmpty then
    let run := m.interpret reading.statements
    { run with events := reading.events ++ run.events }
  else
    ⟨.syntaxError, m, reading.events⟩

end Machine

end Lox
