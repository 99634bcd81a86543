import Lox.Console.Arguments
import Lox.Console.Repl
import Lox.Console.Script

/-!
# Console — The program

From a request to an answer.
-/

namespace Lox.Console

/-- The name and the version of the program. -/
def versionText : String := "loxi 0.1.0\n"

/-- What a request can make use of: files, what is typed, and how long a run takes. -/
structure Surroundings where
  contentsAt : String → Except IoKind ByteArray
  input : ByteArray
  elapsed : String

/-- The answer to a command. -/
def Settings.answer (s : Settings) (w : Surroundings) : Command → Answer
  | .run path pretty => s.run ⟨path, w.contentsAt path⟩ pretty w.elapsed
  | .tokenize path => s.tokenize ⟨path, w.contentsAt path⟩
  | .parse path => s.parse ⟨path, w.contentsAt path⟩
  | .repl => Repl.answer s w.input

/-- The answer to a request. -/
def Request.answer (colour : Bool) (w : Surroundings) : Request → Answer
  | .perform verbosity command => Settings.answer ⟨verbosity, colour⟩ w command
  | .help => ⟨0, .empty, ""⟩
  | .version => ⟨0, versionText.toUTF8, ""⟩
  | .misuse => ⟨Failure.usageExitCode, .empty, ""⟩

end Lox.Console
