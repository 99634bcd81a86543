import Lox.Console.Answer
import Lox.Run.Failure
import Lox.Run.Source
import Lox.Text.Utf8

/-!
# Console — Lines that are run as they are read

A session at a prompt: every line is run on the same machine. What goes wrong in a line is told at
once and ends that line only; the session ends with the input, with `.exit`, or with a line that is
no text.
-/

namespace Lox.Console.Repl

/-- What stands in front of every line. -/
def prompt : String := "> "

/-- Ends a session. -/
def exitWord : String := ".exit"

/-- The machine with the prompt printed. -/
def prompted (m : Machine) : Machine := { m with sink := m.sink.write prompt }

/-- The machine with what is printed when the input ends. -/
def ended (m : Machine) : Machine := { m with sink := m.sink.write "\n" }

/-- A line without its line break, which is a line feed with or without a carriage return in front,
or a carriage return. -/
def withoutBreak (cs : List Char) : List Char :=
  let strip (c : Char) : List Char → List Char
    | [] => []
    | d :: ds => if d = c then ds else d :: ds
  (strip '\r' (strip '\n' cs.reverse)).reverse

/-- What becomes of a session when a line was read. -/
inductive Reaction where
  /-- It goes on, after something was told. -/
  | goesOn (m : Machine) (told : String)
  /-- It ends with an exit code, after something was told. -/
  | ends (code : Nat) (told : String)

/-- What a session does about a line of text. -/
def reactToText (s : Settings) (m : Machine) (line : String) : Reaction :=
  if line = "" then .goesOn m ""
  else if line = exitWord then .ends 0 ""
  else
    let run := m.run line
    .goesOn run.machine (s.told (run.events ++ [.note (.lineFinished run.outcome)]))

/-- What a session does about a line. -/
def react (s : Settings) (m : Machine) (line : ByteArray) : Reaction :=
  match Text.Utf8.decode line with
  | .ok text => reactToText s m (String.ofList (withoutBreak text.toList))
  | .error _ =>
    .ends Failure.ioExitCode (s.log [.sessionStopped "stream did not contain valid UTF-8"])

/-- A session on lines of input, each with its line break. -/
def session (s : Settings) (m : Machine) (told : String) : List ByteArray → Answer
  | [] => ⟨0, (ended (prompted m)).sink.written, told⟩
  | line :: lines =>
    match react s (prompted m) line with
    | .goesOn m more => session s m (told ++ more) lines
    | .ends code more => ⟨code, (prompted m).sink.written, told ++ more⟩

/-- The lines of an input, each with its line break, behind the bytes `front` of the first one, the
last of which stands first. -/
def linesFrom (front : List UInt8) : List UInt8 → List ByteArray
  | [] => if front.isEmpty then [] else [⟨front.reverse.toArray⟩]
  | b :: bs =>
    if b = 10 then ⟨(b :: front).reverse.toArray⟩ :: linesFrom [] bs
    else linesFrom (b :: front) bs

/-- A session on an input. -/
def answer (s : Settings) (input : ByteArray) : Answer :=
  session s (.initial .unlimited) "" (linesFrom [] input.data.toList)

end Lox.Console.Repl
