import Lox.Problem.InputOutput

/-!
# Runs — Directories

What a path leads to in a directory that holds files and empty folders. A path is read name by name,
from the directory on or, behind a slash in front, from the top. The directories around this one can
be reached, as the top or by two dots, but nothing that lies in them has a name.
-/

namespace Lox

/-- What a name in a directory stands for. -/
inductive Directory.Entry where
  | file (contents : ByteArray)
  | folder

/-- Names, each with what it stands for. -/
abbrev Directory := List (String × Directory.Entry)

namespace Directory

/-- Where the names of a path that were read so far lead to. -/
inductive Place where
  /-- The directory itself. -/
  | root
  | at (entry : Entry)
  /-- A directory around this one. -/
  | outside

/-- The most bytes that a name has. -/
def longestName : Nat := 255

/-- The most bytes that a path has. -/
def longestPath : Nat := 4095

/-- Where a name leads to that is neither empty nor dots. -/
def find (d : Directory) (place : Place) (name : String) : Except IoKind Place :=
  if name.utf8ByteSize > longestName then .error .invalidFilename
  else
    match place, d.lookup name with
    | .root, some entry => .ok (.at entry)
    | _, _ => .error .notFound

/-- Where one more name leads to: nowhere from a file; an empty name and one dot stay, and two dots
lead one directory up. -/
def enter (d : Directory) (place : Place) (name : String) : Except IoKind Place :=
  match place, name with
  | .at (.file _), _ => .error .notADirectory
  | _, "" | _, "." => .ok place
  | .at .folder, ".." => .ok .root
  | _, ".." => .ok .outside
  | _, _ => d.find place name

/-- Where a path leads to. The empty path leads nowhere. -/
def follow (d : Directory) (path : String) : Except IoKind Place :=
  if path.contains '\x00' then .error .invalidInput
  else if path.isEmpty then .error .notFound
  else if path.utf8ByteSize > longestPath then .error .invalidFilename
  else (path.splitOn "/").foldlM d.enter (if path.startsWith "/" then .outside else .root)

/-- The bytes that reading a path yields. -/
def contentsAt (d : Directory) (path : String) : Except IoKind ByteArray := do
  match ← d.follow path with
  | .at (.file contents) => return contents
  | _ => throw .isADirectory

end Directory

end Lox
