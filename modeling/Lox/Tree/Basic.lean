import Lox.Token.Basic

/-!
# Trees — Expressions and statements

A program is a list of statements. Trees keep the tokens that a fault may have to name: operators,
names and the word `print`.
-/

namespace Lox

/-- An expression. -/
inductive Expr where
  | literal (value : Value)
  | variable (name : Token)
  | grouping (inner : Expr)
  | unary (operator : Token) (operand : Expr)
  | binary (left : Expr) (operator : Token) (right : Expr)
  /-- An operation whose right operand is evaluated only if the left one does not decide it. -/
  | logical (left : Expr) (operator : Token) (right : Expr)
  | assign (name : Token) (value : Expr)

/-- A statement. -/
inductive Stmt where
  | expression (value : Expr)
  | print (keyword : Token) (value : Expr)
  | declare (name : Token) (initializer? : Option Expr)
  | block (body : List Stmt)
  | conditional (condition : Expr) (consequent : Stmt) (alternative? : Option Stmt)

end Lox
