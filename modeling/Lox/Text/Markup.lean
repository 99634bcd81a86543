/-!
# Text — Markup

Text of which parts are to be shown in a style. Plain, the styles are left out. On a terminal, a
style begins with a control sequence that ends every other style, and ends with one, too; so styles
do not nest.
-/

namespace Lox.Text

/-- A colour of a terminal. -/
inductive Colour where
  | red
  | blue
  | brightRed
  | brightGreen
  | brightMagenta
  deriving DecidableEq, Repr

/-- The parameters that select a colour. -/
def Colour.parameters : Colour → String
  | red => "31"
  | blue => "34"
  | brightRed => "38;5;9"
  | brightGreen => "38;5;10"
  | brightMagenta => "38;5;13"

/-- How a part of a text is to look. -/
structure Style where
  bold : Bool
  colour? : Option Colour
  deriving DecidableEq, Repr

/-- A piece of a text with styles. -/
inductive Mark where
  | text (s : String)
  | start (style : Style)
  | stop
  deriving DecidableEq, Repr

/-- A text with styles. -/
abbrev Markup := List Mark

/-- A text in one style. -/
def styled (style : Style) (s : String) : Markup := [.start style, .text s, .stop]

/-- A control sequence with these parameters. -/
def control (parameters : String) : String := "\x1b[" ++ parameters ++ "m"

/-- The control sequences that begin a style. -/
def Style.controls (s : Style) : String :=
  control "0" ++ (if s.bold then control "1" else "") ++
    (match s.colour? with
    | some c => control c.parameters
    | none => "")

namespace Mark

/-- A piece without its style. -/
def plain : Mark → String
  | text s => s
  | _ => ""

/-- A piece for a terminal. -/
def coloured : Mark → String
  | text s => s
  | start style => style.controls
  | stop => control "0"

end Mark

/-- A text without its styles. -/
def plain (m : Markup) : String := String.join (m.map Mark.plain)

/-- A text for a terminal. -/
def coloured (m : Markup) : String := String.join (m.map Mark.coloured)

/-- A text, for a terminal or without its styles. -/
def shown (colour : Bool) (m : Markup) : String := if colour then coloured m else plain m

/-- A number of spaces. -/
def spaces (n : Nat) : String := String.ofList (List.replicate n ' ')

/-- A text with spaces in front, so that it takes at least so many columns. -/
def alignedRight (width : Nat) (s : String) : String := spaces (width - s.length) ++ s

end Lox.Text
