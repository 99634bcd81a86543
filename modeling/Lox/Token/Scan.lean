import Lox.Problem.Lexical
import Lox.Token.Piece

/-!
# Tokens — Scans

Gives the pieces of a source their places. A source is a list of characters with an offset each;
usually the offset is the number of bytes in front of the character (`Source.ofString`), but nothing
here depends on that. A piece starts at the offset of its first character and stops at that of the
character behind it, or at the end of the source (`Source.stop`). It lies on the line of its first
character, counted from one; a string that is never closed is reported on the last line.
-/

namespace Lox.Token

/-- Characters, each with its offset. -/
abbrev Source := List (Offset × Char)

namespace Source

/-- Characters with the number of bytes in front of each, the first one standing at `offset`. -/
def ofChars (offset : Nat) : List Char → Source
  | [] => []
  | c :: cs => (offset.toUInt32, c) :: ofChars (offset + c.utf8Size) cs

/-- A text with its byte offsets. -/
def ofString (s : String) : Source := ofChars 0 s.toList

/-- The characters of a source. -/
def chars (src : Source) : List Char := src.map (·.2)

/-- The offset behind the last character. -/
def stop (src : Source) : Offset :=
  match src.getLast? with
  | some (o, c) => o + c.utf8Size.toUInt32
  | none => 0

/-- The offset of the first character of what is left of a source that stops at `last`. -/
def front (rest : Source) (last : Offset) : Offset :=
  match rest with
  | (o, _) :: _ => o
  | [] => last

end Source

/-- The number of line breaks in a text. -/
def lineBreaks (cs : List Char) : Nat := cs.count '\n'

/-- What is scanned: a token, or a stretch of text that is none. -/
abbrev Item := Except LexicalError Token

/-- What a piece on a given line and span amounts to, if it is not skipped. -/
def Piece.item? (p : Piece) (line : Nat) (span : Span) : Option Item :=
  match p.role with
  | .skipped => none
  | .token kind => some (.ok ⟨kind, String.ofList p.text, literal? kind p.text, line, span⟩)
  | .stray c => some (.error ⟨.unexpectedCharacter c, line, span⟩)
  | .unclosed => some (.error ⟨.unterminatedString, line + lineBreaks p.text, span⟩)

/-- A scanned source: its items in order, and the token at its end. -/
structure Scan where
  items : List Item
  last : Token

namespace Scan

/-- Places pieces that lie one behind the other at the front of what is left of a source. -/
def place (last : Offset) : Nat → Source → List Piece → Scan
  | line, rest, [] => ⟨[], .eof line (Source.front rest last)⟩
  | line, rest, p :: ps =>
    let behind := rest.drop p.text.length
    let span := ⟨Source.front rest last, Source.front behind last⟩
    let scan := place last (line + lineBreaks p.text) behind ps
    { scan with items := (p.item? line span).toList ++ scan.items }

/-- Scans a source. -/
def ofSource (src : Source) : Scan := place src.stop 1 src (pieces src.chars)

/-- Scans a text. -/
def ofString (s : String) : Scan := ofSource (.ofString s)

/-- The tokens, the one at the end included. -/
def tokens (s : Scan) : List Token :=
  s.items.filterMap Except.toOption ++ [s.last]

/-- The lexical errors, in order. -/
def errors (s : Scan) : List LexicalError :=
  s.items.filterMap fun
    | .ok _ => none
    | .error e => some e

/-- Takes the first item; behind the last one there is always the token at the end. -/
def next (s : Scan) : Item × Scan :=
  match s.items with
  | [] => (.ok s.last, s)
  | i :: is => (i, { s with items := is })

/-- The items that are left and the token at the end. -/
def drain (s : Scan) : List Item := s.items ++ [.ok s.last]

end Scan

end Lox.Token
