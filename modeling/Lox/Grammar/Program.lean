import Lox.Grammar.Statement

/-!
# Grammar — Programs

From a token list to the statements it holds. Only the tokens in front of the first end of input
count. A list without one is read as if it had one right behind its last token.
-/

namespace Lox

/-- The tokens that are read, and the token behind them. -/
structure Grammar.Input where
  body : List Token
  last : Token

namespace Grammar.Input

/-- The end of input that is supplied behind a list without one. -/
def suppliedEof (ts : List Token) : Token :=
  match ts.getLast? with
  | some t => .eof t.line t.span.stop
  | none => .eof 1 0

/-- Cuts a token list at its first end of input. -/
def ofTokens (ts : List Token) : Input where
  body := ts.takeWhile (!·.isEof)
  last := (ts.find? (·.isEof)).getD (suppliedEof ts)

end Grammar.Input

/-- What reading a token list comes to: the statements that could be read, and what was noticed. -/
structure Parse where
  statements : List Stmt
  notices : List Grammar.Notice

namespace Parse

/-- Reads a token list. -/
def ofTokens (ts : List Token) : Parse :=
  let input := Grammar.Input.ofTokens ts
  let step := Grammar.program input.last input.body
  ⟨step.result.toOption.getD [], step.notices⟩

/-- The errors, in the order in which they were noticed. -/
def errors (p : Parse) : List GrammarError :=
  p.notices.filterMap fun
    | .error e => some e
    | .resumed _ => none

end Parse

end Lox
