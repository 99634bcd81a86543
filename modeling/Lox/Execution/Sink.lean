import Lox.Problem.InputOutput

/-!
# Execution — Sinks

Where a program writes. A sink may take a limited number of bytes; what is written beyond them
fails, the bytes that still fit being kept.
-/

namespace Lox

/-- A sink: the bytes written so far, the number of bytes it takes at all, if there is a limit, and
how writing beyond them fails. -/
structure Sink where
  written : ByteArray
  limit? : Option Nat
  failure : IoKind

namespace Sink

/-- A sink that takes everything. -/
def unlimited : Sink := ⟨.empty, none, .brokenPipe⟩

/-- The bytes of `bytes` that a sink takes. -/
def accepted (s : Sink) (bytes : ByteArray) : ByteArray :=
  match s.limit? with
  | none => bytes
  | some limit => bytes.extract 0 (limit - s.written.size)

/-- Whether a sink takes all of `bytes`. -/
def fits (s : Sink) (bytes : ByteArray) : Bool :=
  match s.limit? with
  | none => true
  | some limit => s.written.size + bytes.size ≤ limit

/-- Writes a text as far as it is taken. -/
def write (s : Sink) (text : String) : Sink :=
  { s with written := s.written ++ s.accepted text.toUTF8 }

end Sink

end Lox
