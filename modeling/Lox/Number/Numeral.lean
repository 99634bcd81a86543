import Lox.Number.Shortest

/-!
# Numbers — Numerals

The text of a double. The digits are always those of `shortest`; a `Layout` decides where the point
stands, when an exponent is used, and how the values without digits are written.

Three layouts are in use: `listing` for the literals of a token list, `plain` for the literals of a
tree, and `display` for the values a program prints.
-/

namespace Lox.Number

/-- How a double is laid out. -/
structure Layout where
  nan : String
  infinity : String
  /-- Whether negative zero keeps its sign. -/
  signsZero : Bool
  /-- Whether a whole number written without an exponent ends in `.0`. -/
  pointZero : Bool
  /-- The magnitudes, from the first up to and not including the second, that are written without an
  exponent; all of them if absent. Zero never has an exponent. -/
  positional : Option (Float × Float)
  /-- Whether a positive exponent has a plus sign. -/
  plusSign : Bool

/-- The layout of number literals in a token list: `3.0`, `1e16`, `1.5e-5`. -/
def Layout.listing : Layout where
  nan := "NaN"
  infinity := "inf"
  signsZero := true
  pointZero := true
  positional := some (1e-4, 1e16)
  plusSign := false

/-- The layout of number literals in a tree: never an exponent. -/
def Layout.plain : Layout where
  nan := "NaN"
  infinity := "inf"
  signsZero := true
  pointZero := false
  positional := none
  plusSign := false

/-- The layout of printed values: `3`, `1e+21`, `1e-7`, and one text for both zeros. -/
def Layout.display : Layout where
  nan := "NaN"
  infinity := "Infinity"
  signsZero := false
  pointZero := false
  positional := some (1e-6, 1e21)
  plusSign := true

/-- A list of digits without the zeros at its end. -/
def trimZeros (ds : List Char) : List Char :=
  (ds.reverse.dropWhile (· = '0')).reverse

/-- A decimal, in units of 10^-1074, as digits with a point among them. -/
def positionalText (pointZero : Bool) (d : Nat) : String :=
  let whole := String.ofList (digits (d / decimalUnit))
  let fraction := d % decimalUnit
  if fraction = 0 then
    if pointZero then whole ++ ".0" else whole
  else
    let ds := digits fraction
    whole ++ "." ++ String.ofList (trimZeros (List.replicate (1074 - ds.length) '0' ++ ds))

/-- A positive decimal, in units of 10^-1074, as one digit, the others behind a point, and the
power of ten that goes with the first. -/
def exponentText (plusSign : Bool) (d : Nat) : String :=
  let ds := digits d
  let exponent : Int := (ds.length : Int) - 1075
  let mantissa := match trimZeros ds with
    | [] => ""
    | [lead] => String.singleton lead
    | lead :: others => String.singleton lead ++ "." ++ String.ofList others
  let sign := if exponent < 0 then "-" else if plusSign then "+" else ""
  mantissa ++ "e" ++ sign ++ String.ofList (digits exponent.natAbs)

/-- Whether a finite double is written without an exponent. -/
def Layout.isPositional (l : Layout) (x : Float) : Bool :=
  match l.positional with
  | none => true
  | some (low, high) => magnitude x == 0 || (low ≤ x.abs && x.abs < high)

/-- The text of a double in a layout. -/
def Layout.text (l : Layout) (x : Float) : String :=
  if x.isNaN then l.nan
  else
    let sign := if negative x && (l.signsZero || magnitude x != 0) then "-" else ""
    if x.isInf then sign ++ l.infinity
    else if l.isPositional x then sign ++ positionalText l.pointZero (shortest x)
    else sign ++ exponentText l.plusSign (shortest x)

end Lox.Number
