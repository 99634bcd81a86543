/-!
# Numbers — Binary64

A finite double is a whole number of units of 2^-1074. `magnitude` is that number; `word` rounds a
quotient of two naturals to the nearest double, ties to the even significand, and gives the 63 bits
of the result below the sign.

The layout of the bits makes both short. A value with significand `m` (below 2^53) and shift `s` is
`m * 2 ^ s` units, and its word is `s * 2 ^ 52 + m`: for a subnormal `s` is zero and `m` is the
fraction, otherwise the leading bit of `m` is the one that raises the exponent field from `s` to
`s + 1`. A significand that rounds up to 2^53 carries into the field by the same addition.
-/

namespace Lox.Number

/-- Whether the sign bit is set, on a zero or a NaN too. -/
def negative (x : Float) : Bool := x.toBits.toNat / Nat.pow 2 63 % 2 == 1

/-- The bits of a double below the sign. -/
def unsignedWord (x : Float) : Nat := x.toBits.toNat % Nat.pow 2 63

/-- One in the exponent field, and the leading bit of a significand that is not subnormal. -/
def fieldUnit : Nat := Nat.pow 2 52

/-- The number of units of 2^-1074 in a word of 63 bits, read as a finite value. -/
def unitsOfWord (w : Nat) : Nat :=
  if w < fieldUnit then w
  else (fieldUnit + w % fieldUnit) * Nat.pow 2 (w / fieldUnit - 1)

/-- The absolute value of a finite double, in units of 2^-1074. -/
def magnitude (x : Float) : Nat := unitsOfWord (unsignedWord x)

/-- The nearest natural to a quotient; a half goes to the even neighbour. -/
def roundQuotient (num den : Nat) : Nat :=
  let quotient := num / den
  let twice := 2 * (num % den)
  if twice < den then quotient
  else if den < twice then quotient + 1
  else quotient + quotient % 2

/-- The word of positive infinity. -/
def infinityWord : Nat := 2047 * fieldUnit

/-- The word of the double nearest to `num / den`. Words above the greatest finite one stand for
infinity. -/
def word (num den : Nat) : Nat :=
  let units := num * Nat.pow 2 1074
  let shift := (units / den).log2 - 52
  min (shift * fieldUnit + roundQuotient units (den * Nat.pow 2 shift)) infinityWord

/-- The double nearest to `num / den`. -/
def nearest (num den : Nat) : Float := Float.ofBits (word num den).toUInt64

/-- The value of a list of decimal digits. -/
def ofDigits (ds : List Char) : Nat :=
  ds.foldl (fun n d => 10 * n + (d.toNat - '0'.toNat)) 0

/-- The double nearest to a numeral: digits, and perhaps a point and further digits. -/
def ofNumeral (text : List Char) : Float :=
  let whole := text.takeWhile (· ≠ '.')
  let fraction := (text.dropWhile (· ≠ '.')).drop 1
  nearest (ofDigits (whole ++ fraction)) (Nat.pow 10 fraction.length)

end Lox.Number
