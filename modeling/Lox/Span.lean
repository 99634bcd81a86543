/-!
# Spans

Byte offsets and byte ranges of a source text. An offset is a 32-bit word: a text of 2^32 bytes or
more has offsets that wrap, and whatever is said about positions below is said of shorter texts.
-/

namespace Lox

/-- A byte offset into a source text. -/
abbrev Offset := UInt32

/-- The bytes from `start` up to, and not including, `stop`. -/
structure Span where
  start : Offset
  stop : Offset
  deriving DecidableEq, Repr

namespace Span

/-- The empty span at an offset. -/
def point (o : Offset) : Span := ⟨o, o⟩

/-- A span is written `start..stop`. -/
def text (s : Span) : String :=
  toString s.start.toNat ++ ".." ++ toString s.stop.toNat

end Span

end Lox
