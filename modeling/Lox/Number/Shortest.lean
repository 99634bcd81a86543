import Lox.Number.Binary64

/-!
# Numbers — Shortest decimals

The decimal that a finite double is written with: among the decimals that read back to the double,
those with the fewest digits, and of these the nearest to it; of two equally near, the upper one.

As 2^-1074 is 5^1074 times 10^-1074, every finite double is a whole number of 10^-1074, and so is
every decimal considered here. `shortest` therefore answers with a natural number, in those units.
-/

namespace Lox.Number

/-- One, in units of 10^-1074. -/
def decimalUnit : Nat := Nat.pow 10 1074

/-- The absolute value of a finite double, in units of 10^-1074. -/
def exactDecimal (x : Float) : Nat := magnitude x * Nat.pow 5 1074

/-- The decimal digits of a natural number, the leading one first. -/
def digits (n : Nat) : List Char := Nat.toDigits 10 n

/-- Whether a decimal, in units of 10^-1074, is read as the absolute value of `x`. -/
def readsBack (x : Float) (d : Nat) : Bool := word d decimalUnit == unsignedWord x

/-- The better of the two multiples of `grid` around `exact`, if one of them is accepted. -/
def nearest? (accepts : Nat → Bool) (exact grid : Nat) : Option Nat :=
  let below := exact / grid * grid
  let above := below + grid
  match accepts below, accepts above with
  | true, true => some (if exact - below < above - exact then below else above)
  | true, false => some below
  | false, true => some above
  | false, false => none

/-- The better of the two multiples of `grid` around `x`, if one of them reads back. -/
def onGrid? (x : Float) (grid : Nat) : Option Nat := nearest? (readsBack x) (exactDecimal x) grid

/-- The first decimal that is found on the grids 10^e, 10^(e-1) and so on down to ten, or else the
value itself, which lies on the grid one. -/
def shortestFrom (x : Float) (e : Nat) : Nat :=
  ((List.range e).reverse.findSome? fun i => onGrid? x (Nat.pow 10 (i + 1))).getD (exactDecimal x)

/-- The power of ten that the leading digit of a number counts. The fraction is a little above the
logarithm of two, and so the first guess is that power or the next one. -/
def leadingPower (n : Nat) : Nat :=
  let guess := (n.log2 + 1) * 30103 / 100000
  if Nat.pow 10 guess ≤ n then guess else guess - 1

/-- The shortest decimal that reads back to the absolute value of `x`, in units of 10^-1074. The
grids become finer by one digit at a time, the first one being that of the leading digit. -/
def shortest (x : Float) : Nat := shortestFrom x (leadingPower (exactDecimal x))

end Lox.Number
