/-!
# Problems — Input and output

The ways in which reading a file or writing output fails.
-/

namespace Lox

/-- Why a file cannot be read or output not be written. -/
inductive IoKind where
  | notFound
  | permissionDenied
  | isADirectory
  | notADirectory
  | invalidInput
  | invalidFilename
  | invalidData
  | unexpectedEof
  | brokenPipe
  | writeZero
  | timedOut
  | other
  deriving DecidableEq, Repr

/-- The kind in words. -/
def IoKind.text : IoKind → String
  | notFound => "entity not found"
  | permissionDenied => "permission denied"
  | isADirectory => "is a directory"
  | notADirectory => "not a directory"
  | invalidInput => "invalid input parameter"
  | invalidFilename => "invalid filename"
  | invalidData => "invalid data"
  | unexpectedEof => "unexpected end of file"
  | brokenPipe => "broken pipe"
  | writeZero => "write zero"
  | timedOut => "timed out"
  | other => "other error"

end Lox
