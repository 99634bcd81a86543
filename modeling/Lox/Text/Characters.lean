import Lox.Problem.InputOutput

/-!
# Text — Characters from bytes

Bytes are read one character after the other, and the first error ends it. How a single character is
read is left open: that is a parameter, and what is read in this way depends on it.
-/

namespace Lox.Text

/-- How a character is read: from the first of its bytes, and from all bytes behind that one. The
answer is the character and the number of bytes behind the first that belong to it. -/
def CharReader := UInt8 → List UInt8 → Except IoKind (Char × Nat)

namespace CharReader

/-- Reads characters behind the characters `done`, the last of which stands first, and behind so many
bytes that belong to that one. -/
def readFrom (next : CharReader) (done : List Char) : Nat → List UInt8 → Except IoKind (List Char)
  | _, [] => .ok done.reverse
  | further + 1, _ :: bs => readFrom next done further bs
  | 0, b :: bs =>
    match next b bs with
    | .ok (c, further) => readFrom next (c :: done) further bs
    | .error kind => .error kind

/-- The text that bytes stand for. -/
def decode (next : CharReader) (bytes : ByteArray) : Except IoKind String :=
  (next.readFrom [] 0 bytes.data.toList).map String.ofList

end CharReader

end Lox.Text
