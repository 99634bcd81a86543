import Lox.Execution.Sink
import Lox.Problem.Fault
import Lox.Scope.Environment

/-!
# Execution — Machines

The state of a running program, and the effects that a program has on it. An effect ends with a
result or with a fault; what it changed before a fault stays changed.
-/

namespace Lox

/-- An effect on a state. -/
abbrev Effect (σ α : Type) := EStateM Fault σ α

/-- An answer as an effect: a reason for which there is none becomes a fault, for which `token` is
blamed. -/
def Effect.blaming {σ α : Type} (token : Token) : Except Fault.Cause α → Effect σ α
  | .ok a => pure a
  | .error cause => throw ⟨cause, token⟩

/-- Entering a scope, or leaving one for another. -/
inductive Move where
  /-- A scope was opened, which makes so many scopes. -/
  | entered (scope : ScopeId) (depth : Nat)
  | left (scope outer : ScopeId)
  deriving DecidableEq, Repr

/-- A machine: the scopes, the sink, and the moves between scopes, the latest first. -/
structure Machine where
  environment : Environment
  sink : Sink
  moves : List Move

namespace Machine

/-- A machine that has not run yet. -/
def initial (sink : Sink) : Machine := ⟨.initial, sink, []⟩

/-- Opens a scope. -/
def enter (m : Machine) : Machine :=
  let e := m.environment.enter
  { m with environment := e, moves := .entered e.current e.depth :: m.moves }

/-- Leaves the current scope for another. -/
def leaveTo (m : Machine) (scope : ScopeId) : Machine :=
  { m with
    environment := m.environment.leaveTo scope
    moves := .left m.environment.current scope :: m.moves }

end Machine

namespace Effect

/-- An effect on the scopes as an effect on the machine. -/
def onEnvironment {α : Type} (x : Effect Environment α) : Effect Machine α := fun m =>
  match x m.environment with
  | .ok a e => .ok a { m with environment := e }
  | .error f e => .error f { m with environment := e }

/-- An effect inside a scope of its own, which is left again however the effect ends. -/
def inScope {α : Type} (x : Effect Machine α) : Effect Machine α := fun m =>
  match x m.enter with
  | .ok a m' => .ok a (m'.leaveTo m.environment.current)
  | .error f m' => .error f (m'.leaveTo m.environment.current)

/-- Writes a line, or as much of it as the sink takes; `token` is blamed if that is not all. -/
def writeLine (token : Token) (text : String) : Effect Machine Unit := fun m =>
  let line := text ++ "\n"
  if m.sink.fits line.toUTF8 then
    .ok () { m with sink := m.sink.write line }
  else
    .error ⟨.output m.sink.failure, token⟩ { m with sink := m.sink.write line }

end Effect

end Lox
