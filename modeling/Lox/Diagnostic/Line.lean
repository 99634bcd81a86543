import Lox.Text.Blank
import Lox.Text.Width

/-!
# Diagnostics — Lines

The lines of a source text and the columns that their characters take. A line ends behind a line
break; behind the last one there is one more line, which may be empty. A tab reaches to the next
multiple of four columns.
-/

namespace Lox

/-- A line: the number of bytes in front of it, and its characters, the line break included. -/
structure Line where
  start : Nat
  chars : List Char

/-- A character of a line: the number of bytes in front of it in that line, and the columns that it
takes. -/
structure Glyph where
  offset : Nat
  char : Char
  columns : Nat

namespace Glyph

/-- Where the bytes of a glyph stop. -/
def stop (g : Glyph) : Nat := g.offset + g.char.utf8Size

/-- A glyph as it is shown. -/
def text (g : Glyph) : String :=
  if g.char = '\t' then String.ofList (List.replicate g.columns ' ') else String.singleton g.char

/-- The number of columns between two places to which a tab reaches. -/
def tabWidth : Nat := 4

/-- The glyphs of characters that stand behind so many bytes and so many columns of their line. -/
def ofChars (offset column : Nat) : List Char → List Glyph
  | [] => []
  | c :: cs =>
    let columns := if c = '\t' then tabWidth - column % tabWidth else Text.columns c
    ⟨offset, c, columns⟩ :: ofChars (offset + c.utf8Size) (column + columns) cs

end Glyph

namespace Line

/-- The number of bytes of characters. -/
def bytes : List Char → Nat
  | [] => 0
  | c :: cs => c.utf8Size + bytes cs

/-- The lines of characters. The first line starts behind `start` bytes, and in it the characters
`front`, of which the last stands first, come before the others. -/
def split (start : Nat) (front : List Char) : List Char → List Line
  | [] => [⟨start, front.reverse⟩]
  | '\n' :: cs =>
    let line := ('\n' :: front).reverse
    ⟨start, line⟩ :: split (start + bytes line) [] cs
  | c :: cs => split start (c :: front) cs

/-- The lines of a text. -/
def ofString (s : String) : List Line := split 0 [] s.toList

/-- The place, among lines, of the line in which an offset lies. -/
def indexAt (lines : List Line) (offset : Nat) : Nat :=
  (lines.takeWhile (·.start ≤ offset)).length - 1

/-- The column of an offset in its line: one more than the number of characters that end at or
before it. -/
def columnAt (l : Line) (offset : Nat) : Nat :=
  1 + ((Glyph.ofChars l.start 0 l.chars).filter (·.stop ≤ offset)).length

/-- Whether a character is left out at the end of a line. -/
def isTrailing (c : Char) : Bool := c = '\n' || c = '\r' || c = '\x00'

/-- What is shown of a line. -/
def shown (l : Line) : List Char := (l.chars.reverse.dropWhile isTrailing).reverse

/-- The glyphs of what is shown. -/
def glyphs (l : Line) : List Glyph := Glyph.ofChars 0 0 l.shown

/-- The number of bytes of white space in front. -/
def indentation (l : Line) : Nat := bytes (l.shown.takeWhile Text.isBlank)

end Line

end Lox
