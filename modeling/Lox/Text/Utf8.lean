import Lox.Text.Characters

/-!
# Text — UTF-8

How a character is read from its bytes. The number of ones in front of the first byte of a sequence
is its length; every further byte has a single one in front. A sequence must be the shortest one for
its character. Bytes that end inside a sequence end too early, and anything else that is no
character is invalid.
-/

namespace Lox.Text.Utf8

/-- A form of sequences: the number of further bytes, the ones that mark the first byte, and the
least code point for which a sequence of this form is the shortest. -/
structure Form where
  further : Nat
  mark : Nat
  least : Nat

/-- The form of the sequence that a byte begins. -/
def form? (b : UInt8) : Option Form :=
  if b < 0x80 then some ⟨0, 0, 0⟩
  else if b < 0xC0 then none
  else if b < 0xE0 then some ⟨1, 0xC0, 0x80⟩
  else if b < 0xF0 then some ⟨2, 0xE0, 0x800⟩
  else if b < 0xF8 then some ⟨3, 0xF0, 0x10000⟩
  else none

/-- Whether a byte may stand behind the first of a sequence. -/
def isFurther (b : UInt8) : Bool := 0x80 ≤ b && b < 0xC0

/-- The code point of a sequence: the bits of its first byte behind the mark, and six bits of each
further byte. -/
def Form.code (f : Form) (b : UInt8) (more : List UInt8) : Nat :=
  more.foldl (fun code b => 64 * code + (b.toNat - 0x80)) (b.toNat - f.mark)

/-- The character of a code point, if a sequence of this form is the shortest one for it. -/
def Form.char? (f : Form) (code : Nat) : Option Char :=
  if h : f.least ≤ code ∧ code.isValidChar then some (Char.ofNatAux code h.2) else none

/-- Reads the sequence that a byte begins. -/
def sequence : CharReader := fun b bs =>
  match form? b with
  | none => .error .invalidData
  | some f =>
    let more := bs.take f.further
    if more.all isFurther then
      if more.length < f.further then .error .unexpectedEof
      else
        match f.char? (f.code b more) with
        | some c => .ok (c, f.further)
        | none => .error .invalidData
    else .error .invalidData

/-- The text that bytes stand for. -/
def decode (bytes : ByteArray) : Except IoKind String := sequence.decode bytes

end Lox.Text.Utf8
