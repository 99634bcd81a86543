import Lox.Execution.Expression

/-!
# Execution — Statements

Running statements. The first fault ends a list of statements; what was written and assigned before
it stays.
-/

namespace Lox

/-- Binds a name in the current scope. -/
def Effect.define (name : Token) (v : Value) : Effect Environment Unit := fun e =>
  .ok () (e.define name.lexeme v)

/-- The value that a declaration gives to its name, nil if it gives none. -/
def initialValue : Option Expr → Effect Environment Value
  | some e => e.evaluate
  | none => pure .nil

mutual

/-- Runs a statement. -/
def Stmt.execute : Stmt → Effect Machine Unit
  | .expression e => do
    let _ ← Effect.onEnvironment e.evaluate
  | .print keyword e => do
    let v ← Effect.onEnvironment e.evaluate
    Effect.writeLine keyword v.display
  | .declare name initializer? => Effect.onEnvironment do
    Effect.define name (← initialValue initializer?)
  | .block body => Effect.inScope (Stmt.executeAll body)
  | .conditional condition consequent alternative? => do
    if (← Effect.onEnvironment condition.evaluate).truthy then
      consequent.execute
    else
      match alternative? with
      | some alternative => alternative.execute
      | none => pure ()

/-- Runs statements in order, up to the first fault. -/
def Stmt.executeAll : List Stmt → Effect Machine Unit
  | [] => pure ()
  | s :: ss => do
    s.execute
    Stmt.executeAll ss

end

end Lox
