import Lox.Problem.Grammar
import Lox.Problem.Lexical

/-!
# Problems

A problem is found before a program runs, in its characters or in the order of its tokens.
-/

namespace Lox

/-- A problem of a source text. -/
inductive Problem where
  | lexical (e : LexicalError)
  | grammar (e : GrammarError)

namespace Problem

/-- The problem in one line. -/
def text : Problem → String
  | lexical e => e.text
  | grammar e => e.text

/-- The line the problem is reported on. -/
def line : Problem → Nat
  | lexical e => e.line
  | grammar e => e.token.line

/-- The bytes the problem covers. -/
def span : Problem → Span
  | lexical e => e.span
  | grammar e => e.token.span

end Problem

end Lox
