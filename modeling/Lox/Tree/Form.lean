import Lox.Tree.Basic

/-!
# Trees — Parenthesised form

The text of a tree. Every operation is written in front of its operands, between parentheses.
-/

namespace Lox

/-- An operation between parentheses: its name, then its operands, a space in front of each. -/
def parenthesised (name : String) (operands : List String) : String :=
  "(" ++ name ++ String.join (operands.map (" " ++ ·)) ++ ")"

/-- The text of an expression. -/
def Expr.form : Expr → String
  | .literal v => v.form
  | .variable name => name.lexeme
  | .grouping e => parenthesised "group" [e.form]
  | .unary op e => parenthesised op.lexeme [e.form]
  | .binary l op r => parenthesised op.lexeme [l.form, r.form]
  | .logical l op r => parenthesised op.lexeme [l.form, r.form]
  | .assign name e => parenthesised "=" [name.lexeme, e.form]

mutual

/-- The text of a statement. -/
def Stmt.form : Stmt → String
  | .expression e => parenthesised "expr" [e.form]
  | .print _ e => parenthesised "print" [e.form]
  | .declare name none => parenthesised "var" [name.lexeme]
  | .declare name (some e) => parenthesised "var" [name.lexeme, e.form]
  | .block body => parenthesised "block" (Stmt.forms body)
  | .conditional c s none => parenthesised "if" [c.form, s.form]
  | .conditional c s (some t) => parenthesised "if" [c.form, s.form, t.form]

/-- The texts of the statements of a list. -/
def Stmt.forms : List Stmt → List String
  | [] => []
  | s :: ss => s.form :: Stmt.forms ss

end

end Lox
