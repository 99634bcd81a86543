import Lox.Problem.Fault
import Lox.Value

/-!
# Execution — Operators

What operators make of values. `==` and `!=` take any two values, `+` two numbers or two strings,
and the other operators numbers only.
-/

namespace Lox

/-- A value, or the reason why there is none. -/
abbrev Answer := Except Fault.Cause Value

namespace Operator

/-- The answer of an operator that takes one value. -/
def unary (operator : Token) (v : Value) : Answer :=
  match operator.kind, v with
  | .bang, v => .ok (.bool (!v.truthy))
  | .minus, .number x => .ok (.number (-x))
  | .minus, _ => .error .operandMustBeNumber
  | _, _ => .error (.unknownOperator operator.lexeme)

/-- The answer of an operator that takes two numbers. -/
def arithmetic (operator : Token) (x y : Float) : Answer :=
  match operator.kind with
  | .minus => .ok (.number (x - y))
  | .star => .ok (.number (x * y))
  | .slash => .ok (.number (x / y))
  | .greater => .ok (.bool (x > y))
  | .greaterEqual => .ok (.bool (x ≥ y))
  | .less => .ok (.bool (x < y))
  | .lessEqual => .ok (.bool (x ≤ y))
  | _ => .error (.unknownOperator operator.lexeme)

/-- The answer of `+`: the sum of two numbers, or two strings one behind the other. -/
def plus : Value → Value → Answer
  | .number x, .number y => .ok (.number (x + y))
  | .string s, .string t => .ok (.string (s ++ t))
  | _, _ => .error .operandsMustBeNumbersOrStrings

/-- The answer of an operator that takes two values. -/
def binary (operator : Token) (left right : Value) : Answer :=
  match operator.kind, left, right with
  | .equalEqual, v, w => .ok (.bool (v == w))
  | .bangEqual, v, w => .ok (.bool (v != w))
  | .plus, v, w => plus v w
  | _, .number x, .number y => arithmetic operator x y
  | _, _, _ => .error .operandsMustBeNumbers

/-- Whether the left operand is the answer, so that the right one is not evaluated: with `or` if it
is truthy, otherwise if it is not. -/
def decides (operator : Token) (left : Value) : Bool :=
  match operator.kind with
  | .kwOr => left.truthy
  | _ => !left.truthy

end Operator

end Lox
