import Lox.Console.Answer
import Lox.Run.File
import Lox.Tree.Form

/-!
# Console — Scripts

The commands that work on a file. Failures are told behind all notes: one message per problem, or
with the source when that was asked for. Then there are also lines that tell when a run starts and
when it has finished.
-/

namespace Lox.Console

namespace Settings

/-- A failure, with the source if it is to be pretty. -/
def failure (s : Settings) (pretty : Bool) (f : Failure) : String :=
  if pretty then Text.shown s.colour f.markup else unlines f.messages

/-- A line on the state of a run: a word in colour, then a text. -/
def status (s : Settings) (colour : Text.Colour) (word text : String) : String :=
  Text.shown s.colour (Text.styled ⟨true, some colour⟩ (Text.alignedRight 11 word)) ++
    " " ++ text ++ "\n"

/-- Prints a list that a pass over a file comes to, an element per line. -/
def listed {α : Type} (s : Settings) (text : α → String) (p : Pass (List α)) : Answer :=
  match p.result with
  | .ok l => ⟨0, (unlines (l.map text)).toUTF8, s.log p.notes⟩
  | .error f => ⟨f.exitCode, .empty, s.log p.notes ++ s.failure false f⟩

/-- Prints the tokens of a file. -/
def tokenize (s : Settings) (file : File) : Answer := s.listed Token.listing file.tokens

/-- Prints the trees of a file. -/
def parse (s : Settings) (file : File) : Answer := s.listed Stmt.form file.statements

/-- What is told and printed when a file was run; `elapsed` is the time it took. -/
def ran (s : Settings) (path : String) (pretty : Bool) (elapsed : String)
    (run : Pass Unit × Machine) : Answer :=
  let (pass, machine) := run
  let start := s.log [.running path] ++
    (if pretty then s.status .brightMagenta "Running" path else "")
  let (code, finish) := match pass.result with
    | .ok _ =>
      (0, if pretty then s.status .brightGreen "Finished" ("in " ++ elapsed) else "")
    | .error f => (f.exitCode, s.failure pretty f)
  ⟨code, machine.sink.written, start ++ s.log pass.notes ++ finish⟩

/-- Runs a file. -/
def run (s : Settings) (file : File) (pretty : Bool) (elapsed : String) : Answer :=
  s.ran file.path pretty elapsed (file.run (.initial .unlimited))

end Settings

end Lox.Console
