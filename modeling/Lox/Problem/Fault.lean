import Lox.Problem.InputOutput
import Lox.Token.Basic

/-!
# Problems — Faults

A fault stops a running program. It is blamed on a token of the program.
-/

namespace Lox

/-- Why a program cannot go on. -/
inductive Fault.Cause where
  | operandMustBeNumber
  | operandsMustBeNumbers
  | operandsMustBeNumbersOrStrings
  | undefinedVariable (name : String)
  | unknownOperator (operator : String)
  | output (kind : IoKind)
  deriving DecidableEq, Repr

/-- A fault and the token that is blamed for it. -/
structure Fault where
  cause : Fault.Cause
  token : Token

namespace Fault

/-- What went wrong, in one sentence. -/
def Cause.message : Cause → String
  | operandMustBeNumber => "Operand must be a number."
  | operandsMustBeNumbers => "Operands must be numbers."
  | operandsMustBeNumbersOrStrings => "Operands must be two numbers or two strings."
  | undefinedVariable name => "Undefined variable '" ++ name ++ "'."
  | unknownOperator operator => "Unknown operator '" ++ operator ++ "'."
  | output kind => "Failed to write output: " ++ kind.text ++ "."

/-- What went wrong, in one sentence. -/
def message (f : Fault) : String := f.cause.message

/-- The line of the blamed token. -/
def line (f : Fault) : Nat := f.token.line

/-- The fault in two lines: the message, then the line number. -/
def text (f : Fault) : String :=
  f.message ++ "\n[line " ++ toString f.line ++ "]"

end Fault

end Lox
