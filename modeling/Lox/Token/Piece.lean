import Lox.Token.Basic

/-!
# Tokens — Pieces

A source text is cut into pieces: tokens, blanks, comments, characters that can start no token, and
a string that is never closed. Cutting looks at characters only; where a piece lies is
`Lox.Token.Scan`.

`Piece.cut` takes the piece at the front, as long as it can be. `pieces` cuts again behind each
piece, so that the texts of all pieces, one after the other, are the source.
-/

namespace Lox.Token

/-- What a piece of source text is. -/
inductive Piece.Role where
  /-- A blank or a comment. -/
  | skipped
  | token (kind : Kind)
  /-- A character that can start no token. -/
  | stray (c : Char)
  /-- A string whose closing quote is missing; it reaches to the end of the source. -/
  | unclosed
  deriving DecidableEq, Repr

/-- A piece of source text. -/
structure Piece where
  text : List Char
  role : Piece.Role
  deriving DecidableEq, Repr

/-- Whether a character separates tokens and has no other meaning. -/
def isBlank (c : Char) : Bool := c == ' ' || c == '\t' || c == '\r' || c == '\n'

/-- Whether a character is an ASCII digit. -/
def isDigit (c : Char) : Bool := '0' ≤ c && c ≤ '9'

/-- Whether a character can start a word: an ASCII letter or an underscore. -/
def startsWord (c : Char) : Bool := ('a' ≤ c && c ≤ 'z') || ('A' ≤ c && c ≤ 'Z') || c == '_'

/-- Whether a character can stand inside a word. -/
def continuesWord (c : Char) : Bool := startsWord c || isDigit c

/-- The kind of a word: its own if it is reserved. -/
def kindOfWord (word : List Char) : Kind :=
  (Kind.ofReserved? (String.ofList word)).getD .identifier

namespace Piece

/-- A token of one character. -/
def single (c : Char) (kind : Kind) : Piece := ⟨[c], .token kind⟩

/-- A token of two characters if the second one follows, otherwise a token of the first alone. -/
def double (c : Char) (rest : List Char) (second : Char) (long short : Kind) : Piece :=
  if rest.head? = some second then ⟨[c, second], .token long⟩ else single c short

/-- A comment, up to the end of its line, or else a slash. -/
def slash (rest : List Char) : Piece :=
  if rest.head? = some '/' then ⟨'/' :: rest.takeWhile (· ≠ '\n'), .skipped⟩
  else single '/' .slash

/-- The piece that an opening quote starts. -/
def string (rest : List Char) : Piece :=
  let body := rest.takeWhile (· ≠ '"')
  match rest.dropWhile (· ≠ '"') with
  | [] => ⟨'"' :: body, .unclosed⟩
  | _ :: _ => ⟨'"' :: body ++ ['"'], .token .string⟩

/-- The piece that a digit starts. A point belongs to the number only with a digit behind it. -/
def number (c : Char) (rest : List Char) : Piece :=
  let whole := c :: rest.takeWhile isDigit
  match rest.dropWhile isDigit with
  | '.' :: d :: rest' =>
    if isDigit d then ⟨whole ++ '.' :: d :: rest'.takeWhile isDigit, .token .number⟩
    else ⟨whole, .token .number⟩
  | _ => ⟨whole, .token .number⟩

/-- The piece that a letter or an underscore starts. -/
def word (c : Char) (rest : List Char) : Piece :=
  let text := c :: rest.takeWhile continuesWord
  ⟨text, .token (kindOfWord text)⟩

/-- The piece at the front of a source that starts with `c`. -/
def cut (c : Char) (rest : List Char) : Piece :=
  match c with
  | '(' => single c .leftParen
  | ')' => single c .rightParen
  | '{' => single c .leftBrace
  | '}' => single c .rightBrace
  | ',' => single c .comma
  | '.' => single c .dot
  | '-' => single c .minus
  | '+' => single c .plus
  | ';' => single c .semicolon
  | '*' => single c .star
  | '!' => double c rest '=' .bangEqual .bang
  | '=' => double c rest '=' .equalEqual .equal
  | '<' => double c rest '=' .lessEqual .less
  | '>' => double c rest '=' .greaterEqual .greater
  | '/' => slash rest
  | '"' => string rest
  | c =>
    if isDigit c then number c rest
    else if startsWord c then word c rest
    else if isBlank c then ⟨[c], .skipped⟩
    else ⟨[c], .stray c⟩

/-- The value that a token of this kind and text stands for. -/
def literal? (kind : Kind) (text : List Char) : Option Value :=
  match kind with
  | .number => some (.number (Number.ofNumeral text))
  | .string => some (.string (String.ofList (text.drop 1).dropLast))
  | .kwTrue => some (.bool true)
  | .kwFalse => some (.bool false)
  | .kwNil => some .nil
  | _ => none

end Piece

/-- The pieces of a source of which the first `skip` characters are already cut off. -/
def piecesBehind : Nat → List Char → List Piece
  | _, [] => []
  | skip + 1, _ :: cs => piecesBehind skip cs
  | 0, c :: cs =>
    let piece := Piece.cut c cs
    piece :: piecesBehind (piece.text.length - 1) cs

/-- The pieces of a source text, in order. -/
def pieces (cs : List Char) : List Piece := piecesBehind 0 cs

end Lox.Token
