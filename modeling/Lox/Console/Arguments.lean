/-!
# Console — Arguments

What the arguments of the program ask for. Arguments are read from left to right, and the first one
that asks for help or for the version, or that cannot be used, decides. What is missing shows only
behind the last argument. Behind `--` an argument is a word, whatever it looks like.
-/

namespace Lox.Console

/-- What is to be done. -/
inductive Command where
  | run (path : String) (pretty : Bool)
  | tokenize (path : String)
  | parse (path : String)
  | repl
  deriving DecidableEq, Repr

/-- What the arguments ask for. -/
inductive Request where
  /-- To do something, telling so much about it. -/
  | perform (verbosity : Nat) (command : Command)
  | help
  | version
  /-- Nothing that makes sense. -/
  | misuse
  deriving DecidableEq, Repr

/-- The words that name a command. -/
inductive Verb where
  | run
  | tokenize
  | parse
  | repl
  deriving DecidableEq, Repr

namespace Verb

/-- The command that a word names. -/
def ofWord? : String → Option Verb
  | "run" => some .run
  | "tokenize" => some .tokenize
  | "parse" => some .parse
  | "repl" => some .repl
  | _ => none

/-- Whether a path goes with a command. -/
def takesPath : Verb → Bool
  | repl => false
  | _ => true

/-- Whether a command can be asked to be pretty. -/
def takesPretty : Verb → Bool
  | run => true
  | _ => false

/-- The command itself, if what goes with it is there. -/
def command? (verb : Verb) (path? : Option String) (pretty : Bool) : Option Command :=
  match verb, path? with
  | run, some path => some (.run path pretty)
  | tokenize, some path => some (.tokenize path)
  | parse, some path => some (.parse path)
  | repl, _ => some .repl
  | _, none => none

end Verb

/-- What a single argument is. -/
inductive Argument where
  | word
  /-- A request to tell more, made so many times. -/
  | verbose (times : Nat)
  | pretty
  /-- An argument that decides. -/
  | decisive (r : Request)

namespace Argument

/-- The letters behind a hyphen. Behind so many requests to tell more, each letter asks for
something; `verb?` is the command in front of them. -/
def ofLetters (verb? : Option Verb) (times : Nat) : List Char → Argument
  | [] => .verbose times
  | 'v' :: cs => ofLetters verb? (times + 1) cs
  | 'h' :: _ => .decisive .help
  | 'V' :: _ => .decisive (if verb?.isNone then .version else .misuse)
  | _ => .decisive .misuse

/-- The name behind two hyphens. -/
def ofName (verb? : Option Verb) (name : String) : Argument :=
  if name = "verbose" then .verbose 1
  else if name = "help" then .decisive .help
  else if name = "version" && verb?.isNone then .decisive .version
  else if name = "pretty" && verb?.any Verb.takesPretty then .pretty
  else .decisive .misuse

/-- An argument behind a command, if there is one. A hyphen on its own is a word. -/
def ofString (verb? : Option Verb) (s : String) : Argument :=
  match s.toList with
  | '-' :: '-' :: name => ofName verb? (String.ofList name)
  | '-' :: c :: cs => ofLetters verb? 0 (c :: cs)
  | _ => .word

end Argument

/-- What was read behind a command. -/
structure Given where
  verbosity : Nat
  path? : Option String
  pretty : Bool

namespace Given

/-- Nothing. -/
def nothing : Given := ⟨0, none, false⟩

/-- Takes a word. Only one path can be given, and it must not be empty. -/
def word? (g : Given) (verb : Verb) (s : String) : Option Given :=
  if verb.takesPath && g.path?.isNone && s ≠ "" then some { g with path? := some s } else none

/-- Reads what stands behind a command. From `--` on, arguments are `literal`. -/
def read (verb : Verb) (literal : Bool) (g : Given) : List String → Except Request Given
  | [] => .ok g
  | a :: as =>
    if !literal && a = "--" then read verb true g as
    else
      match if literal then .word else Argument.ofString (some verb) a with
      | .verbose times => read verb literal { g with verbosity := g.verbosity + times } as
      | .pretty =>
        if g.pretty then .error .misuse else read verb literal { g with pretty := true } as
      | .decisive r => .error r
      | .word =>
        match g.word? verb a with
        | some g => read verb literal g as
        | none => .error .misuse

end Given

namespace Request

/-- What stands behind a command. How much to tell is taken from there, unless nothing is said there
about it. -/
def behind (verb : Verb) (verbosity : Nat) (arguments : List String) : Request :=
  match Given.read verb false .nothing arguments with
  | .error r => r
  | .ok g =>
    match verb.command? g.path? g.pretty with
    | some command => .perform (if g.verbosity = 0 then verbosity else g.verbosity) command
    | none => .misuse

/-- What stands behind the word `help`: nothing, or the name of a command. -/
def behindHelp : List String → Request
  | [] => .help
  | [s] => if s = "help" || (Verb.ofWord? s).isSome then .help else .misuse
  | _ => .misuse

/-- Reads arguments behind those that say how much to tell. Without a command, lines are read and
run. -/
def read (verbosity : Nat) : List String → Request
  | [] => .perform verbosity .repl
  | a :: as =>
    match Verb.ofWord? a with
    | some verb => behind verb verbosity as
    | none =>
      if a = "help" then behindHelp as
      else if a = "--" then if as.isEmpty then .perform verbosity .repl else .misuse
      else
        match Argument.ofString none a with
        | .verbose times => read (verbosity + times) as
        | .decisive r => r
        | _ => .misuse

/-- What arguments ask for. -/
def ofArguments (arguments : List String) : Request := read 0 arguments

end Request

end Lox.Console
