import Lox.Run.Event

/-!
# Console — Answers

What the program answers with: an exit code, what it prints, and what it tells about its own work.
Notes are told up to the level that was asked for.
-/

namespace Lox.Console

/-- How the program talks: how much it tells, and whether in colour. -/
structure Settings where
  verbosity : Nat
  colour : Bool

/-- Whether a note is told. Warnings and errors always are. -/
def Settings.tells (s : Settings) (n : Note) : Bool := n.level.rank ≤ s.verbosity + 2

/-- What the program answers with. -/
structure Answer where
  code : Nat
  output : ByteArray
  messages : String

/-- Lines, each with a line break behind it. -/
def unlines (lines : List String) : String := String.join (lines.map (· ++ "\n"))

/-- The notes that are told, as lines of a log. -/
def Settings.log (s : Settings) (notes : List Note) : String :=
  unlines ((notes.filter s.tells).map Note.line)

/-- Events as they are told when each is told at once. -/
def Settings.told (s : Settings) (events : List Event) : String :=
  unlines (events.filterMap fun
    | .problem p => some p.text
    | .fault f => some f.text
    | .note n => if s.tells n then some n.line else none)

end Lox.Console
