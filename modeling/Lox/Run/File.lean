import Lox.Run.Failure
import Lox.Run.Source
import Lox.Text.Utf8

/-!
# Runs — Files

What can be done with a file: to read it, to scan it, to parse it and to run it. Each step takes the
one before it, and the first to fail decides the failure. A file is rejected as a whole: one problem
with it, and there are no tokens, no statements and no run.
-/

namespace Lox

/-- A file: its path, and its bytes if they can be had. -/
structure File where
  path : String
  contents : Except IoKind ByteArray

/-- What a pass over a file comes to, and the notes taken on the way. -/
structure Pass (α : Type) where
  result : Except Failure α
  notes : List Note

namespace Pass

/-- Goes on with another pass if the first one did not fail. -/
def andThen {α β : Type} (p : Pass α) (f : α → Pass β) : Pass β :=
  match p.result with
  | .ok a =>
    let q := f a
    { q with notes := p.notes ++ q.notes }
  | .error e => ⟨.error e, p.notes⟩

end Pass

namespace File

/-- Reads a file as text, character by character. -/
def textBy (next : Text.CharReader) (file : File) : Pass String :=
  match file.contents >>= next.decode with
  | .ok source => ⟨.ok source, [.read source.utf8ByteSize file.path]⟩
  | .error kind => ⟨.error (.unreadable kind), []⟩

/-- Reads a file as text that is written in UTF-8. -/
def text (file : File) : Pass String := file.textBy Text.Utf8.sequence

/-- An answer about a source with these problems: the file is rejected if there are any. -/
def unlessRejected {α : Type} (file : File) (source : String) (problems : List Problem) (a : α) :
    Except Failure α :=
  if problems.isEmpty then .ok a else .error (.rejected file.path source problems)

/-- Scans a file. -/
def tokens (file : File) : Pass (List Token) :=
  file.text.andThen fun source =>
    let scan := Token.Scan.ofString source
    ⟨file.unlessRejected source (scan.errors.map .lexical) scan.tokens,
      [.scanned scan.tokens.length]⟩

/-- Parses a file. -/
def statements (file : File) : Pass (List Stmt) :=
  file.text.andThen fun source =>
    let reading := Reading.ofString source
    ⟨file.unlessRejected source reading.problems reading.statements,
      reading.events.filterMap Event.note?⟩

/-- Why a run is a failure, if it is one. -/
def failure? (file : File) (source : String) (run : Run) : Option Failure :=
  match run.outcome with
  | .ok => none
  | .syntaxError => some (.rejected file.path source (run.events.filterMap Event.problem?))
  | .runtimeError => (run.events.findSome? Event.fault?).map (.stopped file.path source)

/-- Runs a file, and answers with the machine behind the run. -/
def run (file : File) (m : Machine) : Pass Unit × Machine :=
  match file.text with
  | ⟨.error e, notes⟩ => (⟨.error e, notes⟩, m)
  | ⟨.ok source, notes⟩ =>
    let run := m.run source
    let result := match file.failure? source run with
      | some failure => .error failure
      | none => .ok ()
    (⟨result, notes ++ run.events.filterMap Event.note?⟩, run.machine)

end File

end Lox
