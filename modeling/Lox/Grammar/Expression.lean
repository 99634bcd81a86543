import Lox.Grammar.Step
import Lox.Tree.Basic

/-!
# Grammar — Expressions

Reading an expression. `operand` reads what stands between two operators; `climb` then takes every
operator that binds tighter than a given level, each with a right operand of its own. An operator of
its own level ends a right operand, so chains lean to the left; `=` alone takes a whole expression,
so it leans to the right.

Both recurse on a budget of tokens. Every call consumes a token or is the last one, so a budget of
the number of tokens left is never used up; `expression` supplies it.
-/

namespace Lox.Grammar

/-- The levels of binding, the loosest first. -/
inductive Level where
  | lowest
  | assign
  | or
  | and
  | equality
  | comparison
  | term
  | factor
  | unary
  deriving DecidableEq, Repr

namespace Level

/-- The place of a level among the others. -/
def rank : Level → Nat
  | lowest => 0
  | assign => 1
  | or => 2
  | and => 3
  | equality => 4
  | comparison => 5
  | term => 6
  | factor => 7
  | unary => 8

/-- Whether a level is looser than another. -/
def below (a b : Level) : Bool := a.rank < b.rank

/-- The level at which a token binds the operand in front of it; the lowest if it does not. -/
def ofKind : Token.Kind → Level
  | .equal => assign
  | .kwOr => or
  | .kwAnd => and
  | .bangEqual | .equalEqual => equality
  | .greater | .greaterEqual | .less | .lessEqual => comparison
  | .minus | .plus => term
  | .slash | .star => factor
  | _ => lowest

end Level

/-- What becomes of a value that `=` is to store. Only a plain variable can be assigned to; anything
else is noted as an error and stands for itself, the value being dropped. -/
def assignTo (target : Expr) (equals : Token) (value : Expr) : Reader Expr :=
  match target with
  | .variable name => pure (.assign name value)
  | target => do
    Reader.report ⟨.invalidAssignmentTarget, equals⟩
    pure target

/-- The operation of an operator other than `=`. -/
def operation (left : Expr) (operator : Token) (right : Expr) : Expr :=
  match operator.kind with
  | .kwAnd | .kwOr => .logical left operator right
  | _ => .binary left operator right

mutual

/-- Reads an operand: a literal, a variable, an expression between parentheses, or an operand with
`!` or `-` in front. -/
def operand : Nat → Reader Expr
  | 0 => Reader.fail .expectExpression
  | budget + 1 => do
    match (← Reader.peek).kind with
    | .bang | .minus =>
      let operator ← Reader.advance
      return .unary operator (← operand budget)
    | .number | .string | .kwTrue | .kwFalse | .kwNil =>
      let token ← Reader.advance
      return .literal (token.literal?.getD .nil)
    | .identifier => return .variable (← Reader.advance)
    | .leftParen =>
      let _ ← Reader.advance
      let first ← operand budget
      let inner ← climb budget .lowest first
      let _ ← Reader.expect .rightParen (.expectRightParen "expression")
      return .grouping inner
    | _ => Reader.fail .expectExpression

/-- Reads the operators behind an operand that bind tighter than `level`. -/
def climb : Nat → Level → Expr → Reader Expr
  | 0, _, left => pure left
  | budget + 1, level, left => do
    let binding := Level.ofKind (← Reader.peek).kind
    if level.below binding then
      let operator ← Reader.advance
      let first ← operand budget
      if operator.kind = .equal then
        let value ← climb budget .lowest first
        climb budget level (← assignTo left operator value)
      else
        let right ← climb budget binding first
        climb budget level (operation left operator right)
    else
      return left

end

/-- Reads an expression. -/
def expression : Reader Expr :=
  Reader.budgeted id fun budget => do
    let first ← operand budget
    climb budget .lowest first

end Lox.Grammar
