import Lox.Text.Hidden

/-!
# Text — Quoted characters

A character between single quotes. The quote, the backslash and four controls have an escape of
their own; hidden characters are written by their number.
-/

namespace Lox.Text

/-- The escape of a character that has one of its own. -/
def escape? : Char → Option String
  | '\x00' => some "\\0"
  | '\t' => some "\\t"
  | '\r' => some "\\r"
  | '\n' => some "\\n"
  | '\\' => some "\\\\"
  | '\x27' => some "\\'"
  | _ => none

/-- The number of a character, in lower-case hexadecimal digits without leading zeros. -/
def hexNumber (c : Char) : String := String.ofList (Nat.toDigits 16 c.toNat)

/-- A character between single quotes. -/
def quotedChar (c : Char) : String :=
  let inner := match escape? c with
    | some e => e
    | none =>
      if isHidden c then "\\u\x7b" ++ hexNumber c ++ "\x7d" else String.singleton c
  "'" ++ inner ++ "'"

end Lox.Text
