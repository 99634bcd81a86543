import Lox.Diagnostic.Snippet
import Lox.Problem.Basic
import Lox.Problem.Fault

/-!
# Runs — Failures

Why a file could not be processed to its end, and how that is told: in one sentence, in a line per
problem, as diagnostics, or as an exit code.
-/

namespace Lox

/-- Why a file could not be processed to its end. -/
inductive Failure where
  /-- There are problems with its text. -/
  | rejected (path source : String) (problems : List Problem)
  /-- A fault stopped the program. -/
  | stopped (path source : String) (fault : Fault)
  /-- It could not be read. -/
  | unreadable (kind : IoKind)

namespace Failure

/-- The exit code of a program that was called wrongly. -/
def usageExitCode : Nat := 64

/-- The exit code of a program whose input or output failed. -/
def ioExitCode : Nat := 74

/-- The exit code that tells of a failure. -/
def exitCode : Failure → Nat
  | rejected .. => 65
  | stopped .. => 70
  | unreadable _ => ioExitCode

/-- The failure in one sentence. -/
def message : Failure → String
  | rejected .. => "failed to parse source code"
  | stopped .. => "execution stopped by a runtime error"
  | unreadable kind => "IO operation failed: " ++ kind.text

/-- The failure in as many messages as there are problems. -/
def messages : Failure → List String
  | rejected _ _ problems => problems.map Problem.text
  | stopped _ _ fault => [fault.text]
  | unreadable kind => [(unreadable kind).message]

/-- A problem of a source text as a diagnostic. -/
def diagnosticOf (path source : String) : Problem → Diagnostic
  | .lexical e => ⟨"Lexical error", e.notes, some ⟨path, source, e.span, e.message⟩⟩
  | .grammar e =>
    ⟨"Syntax error", ["Found " ++ e.found], some ⟨path, source, e.token.span, e.message⟩⟩

/-- The failure as diagnostics. -/
def diagnostics : Failure → List Diagnostic
  | rejected path source problems => problems.map (diagnosticOf path source)
  | stopped path source fault =>
    [⟨"Runtime error", ["execution stopped at line " ++ toString fault.line],
      some ⟨path, source, fault.token.span, fault.message⟩⟩]
  | unreadable kind => [⟨"Standard IO error", [kind.text], none⟩]

/-- The diagnostics one below the other, with an empty line behind each. -/
def markup (f : Failure) : Text.Markup :=
  (f.diagnostics.map fun d => d.markup ++ [.text "\n"]).flatten

end Failure

end Lox
