import Lox.Console.Program

/-!
# Console — Main

The program on a terminal: arguments, files, input and output. A session at a prompt is answered
line by line; everything else is answered at once.
-/

namespace Lox.Console

/-- Why an operation of the system failed. Twenty, in some operations with a minus sign, is the code
of a path through a file, and thirty-six that of a name too long. -/
def ioKind : IO.Error → IoKind
  | .noFileOrDirectory .. => .notFound
  | .permissionDenied .. => .permissionDenied
  | .inappropriateType _ code _ =>
    if code = 20 || code = -20 then .notADirectory else .isADirectory
  | .invalidArgument _ code _ => if code = 36 then .invalidFilename else .invalidInput
  | _ => .other

/-- A file of the system. -/
def fileAt (path : String) : IO File := do
  try
    return ⟨path, .ok (← IO.FS.readBinFile path)⟩
  catch e =>
    return ⟨path, .error (ioKind e)⟩

/-- Prints an answer. -/
def tell (a : Answer) : IO UInt32 := do
  let output ← IO.getStdout
  output.write a.output
  output.flush
  (← IO.getStderr).putStr a.messages
  return a.code.toUInt32

/-- A time in seconds, with two places. -/
def secondsText (milliseconds : Nat) : String :=
  let hundredths := (milliseconds + 5) / 10
  let places := hundredths % 100
  toString (hundredths / 100) ++ "." ++ (if places < 10 then "0" else "") ++ toString places ++ "s"

/-- Reads up to the end of a line, behind the bytes `front` of that line. -/
partial def readLine (input : IO.FS.Stream) (front : ByteArray) : IO ByteArray := do
  let byte ← input.read 1
  let line := front ++ byte
  if byte.isEmpty || byte.data.contains 10 then return line
  readLine input line

/-- Prints what a machine has written, and goes on with an empty sink. -/
def flushed (m : Machine) : IO Machine := do
  let output ← IO.getStdout
  output.write m.sink.written
  output.flush
  return { m with sink := .unlimited }

/-- A session at a prompt. -/
partial def converse (s : Settings) (m : Machine) : IO UInt32 := do
  let m ← flushed (Repl.prompted m)
  let line ← readLine (← IO.getStdin) .empty
  if line.isEmpty then
    let _ ← flushed (Repl.ended m)
    return 0
  match Repl.react s m line with
  | .goesOn m told =>
    let m ← flushed m
    (← IO.getStderr).putStr told
    converse s m
  | .ends code told =>
    (← IO.getStderr).putStr told
    return code.toUInt32

/-- Does what a command asks for. -/
def perform (s : Settings) : Command → IO UInt32
  | .run path pretty => do
    let file ← fileAt path
    let start ← IO.monoMsNow
    let run ← IO.lazyPure fun _ => file.run (.initial .unlimited)
    let elapsed := (← IO.monoMsNow) - start
    tell (s.ran path pretty (secondsText elapsed) run)
  | .tokenize path => do tell (s.tokenize (← fileAt path))
  | .parse path => do tell (s.parse (← fileAt path))
  | .repl => converse s (.initial .unlimited)

/-- Whether to use colour: on a terminal, or if the environment asks for it. -/
def wantsColour : IO Bool := do
  match ← IO.getEnv "FORCE_COLOR" with
  | some s => if s.isEmpty then (← IO.getStderr).isTty else return true
  | none => (← IO.getStderr).isTty

end Lox.Console

open Lox.Console in
/-- Answers to the arguments. -/
def main (arguments : List String) : IO UInt32 := do
  let colour ← wantsColour
  match Request.ofArguments arguments with
  | .perform verbosity command => perform ⟨verbosity, colour⟩ command
  | request => tell (request.answer colour ⟨fun _ => .error .notFound, .empty, ""⟩)
