import Lox.Execution.Machine
import Lox.Execution.Operator
import Lox.Tree.Basic

/-!
# Execution — Expressions

The value of an expression. Operands are evaluated from left to right and only then is the operator
applied, so of two faults the left one is met first. All that evaluation can change is what names
stand for.
-/

namespace Lox

namespace Effect

/-- The value that a name stands for. -/
def lookUp (name : Token) : Effect Environment Value := fun e =>
  match e.value? name.lexeme with
  | some v => .ok v e
  | none => .error ⟨.undefinedVariable name.lexeme, name⟩ e

/-- Makes a name that is bound stand for another value. -/
def assign (name : Token) (v : Value) : Effect Environment Unit := fun e =>
  match e.assign? name.lexeme v with
  | some e' => .ok () e'
  | none => .error ⟨.undefinedVariable name.lexeme, name⟩ e

end Effect

/-- The value of an expression. -/
def Expr.evaluate : Expr → Effect Environment Value
  | .literal v => pure v
  | .variable name => Effect.lookUp name
  | .grouping e => e.evaluate
  | .unary operator e => do
    let v ← e.evaluate
    Effect.blaming operator (Operator.unary operator v)
  | .binary l operator r => do
    let v ← l.evaluate
    let w ← r.evaluate
    Effect.blaming operator (Operator.binary operator v w)
  | .logical l operator r => do
    let v ← l.evaluate
    if Operator.decides operator v then pure v else r.evaluate
  | .assign name e => do
    let v ← e.evaluate
    Effect.assign name v
    return v

end Lox
