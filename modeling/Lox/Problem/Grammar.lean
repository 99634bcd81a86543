import Lox.Token.Basic

/-!
# Problems — Grammar errors

What can be wrong with the order of tokens, blamed on the token at which it shows.
-/

namespace Lox

/-- What a token list should have had at some place, or had at a place where it may not stand. The
mandatory marks carry a description of what they come after. -/
inductive GrammarError.Cause where
  | expectExpression
  | expectVariableName
  | expectSemicolon (after : String)
  | expectLeftParen (after : String)
  | expectRightParen (after : String)
  | expectRightBrace
  | invalidAssignmentTarget
  deriving DecidableEq, Repr

/-- A grammar error and the token that is blamed for it. -/
structure GrammarError where
  cause : GrammarError.Cause
  token : Token

namespace GrammarError

/-- What went wrong, in one sentence. -/
def message (e : GrammarError) : String :=
  match e.cause with
  | .expectExpression => "Expect expression."
  | .expectVariableName => "Expect variable name."
  | .expectSemicolon after => "Expect ';' after " ++ after ++ "."
  | .expectLeftParen after => "Expect '(' after " ++ after ++ "."
  | .expectRightParen after => "Expect ')' after " ++ after ++ "."
  | .expectRightBrace => "Expect '\x7d' after block."
  | .invalidAssignmentTarget => "Invalid assignment target."

/-- Where the error shows, to be read behind the word `Error`. -/
def place (e : GrammarError) : String :=
  if e.token.isEof then " at end" else " at '" ++ e.token.lexeme ++ "'"

/-- The blamed token, described. -/
def found (e : GrammarError) : String :=
  match e.token.kind with
  | .eof => "the end of the file"
  | .number => "a Number"
  | .string => "a String"
  | .identifier => "the identifier `" ++ e.token.lexeme ++ "`"
  | kind =>
    if kind.isReserved then "the keyword `" ++ e.token.lexeme ++ "`"
    else "`" ++ e.token.lexeme ++ "`"

/-- The error in one line. -/
def text (e : GrammarError) : String :=
  "[line " ++ toString e.token.line ++ "] Error" ++ e.place ++ ": " ++ e.message

end GrammarError

end Lox
