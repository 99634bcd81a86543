import Lox.Span
import Lox.Text.Quoted

/-!
# Problems — Lexical errors

What can be wrong with the characters of a source, and the words in which it is told.
-/

namespace Lox

/-- Why a stretch of source text is no token. -/
inductive LexicalError.Cause where
  /-- A character that can start no token. -/
  | unexpectedCharacter (c : Char)
  | unterminatedString
  /-- A run of digits that denotes no number. No source text has one. -/
  | invalidNumber
  deriving DecidableEq, Repr

/-- A lexical error, with the line it is reported on and the bytes it covers. -/
structure LexicalError where
  cause : LexicalError.Cause
  line : Nat
  span : Span
  deriving DecidableEq, Repr

namespace LexicalError

/-- What went wrong, in one sentence. -/
def message (e : LexicalError) : String :=
  match e.cause with
  | .unexpectedCharacter _ => "Unexpected character."
  | .unterminatedString => "Unterminated string."
  | .invalidNumber => "Invalid number literal."

/-- Further remarks for a reader who sees the source. -/
def notes (e : LexicalError) : List String :=
  match e.cause with
  | .unexpectedCharacter c =>
    ["Found `" ++ String.singleton c ++ "` (" ++ Text.quotedChar c ++ ")"]
  | .unterminatedString => ["A string must be closed with `\"`"]
  | .invalidNumber => []

/-- The error in one line. -/
def text (e : LexicalError) : String :=
  "[line " ++ toString e.line ++ "] Error: " ++ e.message

end LexicalError

end Lox
