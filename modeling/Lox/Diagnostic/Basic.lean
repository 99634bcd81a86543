import Lox.Span

/-!
# Diagnostics

An error as it is told to somebody who has the source at hand: a title, the place in the source with
a label for it, and notes.
-/

namespace Lox

/-- A place in a source text, and the label that is written at it. -/
structure Location where
  path : String
  source : String
  span : Span
  label : String

/-- An error, to be shown. -/
structure Diagnostic where
  title : String
  notes : List String
  location? : Option Location

namespace Location

/-- The number of bytes of the source. -/
def size (l : Location) : Nat := l.source.utf8ByteSize

/-- Where the span starts, or the end of the source if it starts behind that. -/
def start (l : Location) : Nat := min l.span.start.toNat l.size

/-- Where the span stops, or the end of the source if it stops behind that. -/
def stop (l : Location) : Nat := min l.span.stop.toNat l.size

end Location

end Lox
