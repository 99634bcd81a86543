import Lox.Problem.Grammar

/-!
# Grammar — Steps

How a token list is read. A `Reader` takes tokens from the front of what is left and answers with a
result or with the error that it stopped at, with the tokens it left, and with what it noticed on
the way. What is left never holds the token at the end of input; that one is kept apart, stands
behind every list, and is never consumed.
-/

namespace Lox.Grammar

/-- What is noticed while tokens are read, in order. -/
inductive Notice where
  /-- An error, be it one that reading went on after or one that was recovered from. -/
  | error (e : GrammarError)
  /-- After an error, reading resumes before this token. -/
  | resumed (before : Token)

/-- What reading a part of a token list comes to. -/
structure Step (α : Type) where
  result : Except GrammarError α
  rest : List Token
  notices : List Notice

/-- Reads a part of a token list: first the token at the end of input, then the tokens left. -/
def Reader (α : Type) := Token → List Token → Step α

namespace Reader

variable {α β : Type}

/-- Reads nothing. -/
def pure (a : α) : Reader α := fun _ ts => ⟨.ok a, ts, []⟩

/-- Reads one part, then another that may depend on it. The first error ends both. -/
def bind (r : Reader α) (f : α → Reader β) : Reader β := fun last ts =>
  match r last ts with
  | ⟨.ok a, rest, notices⟩ =>
    let step := f a last rest
    { step with notices := notices ++ step.notices }
  | ⟨.error e, rest, notices⟩ => ⟨.error e, rest, notices⟩

instance : Monad Reader where
  pure := Reader.pure
  bind := Reader.bind

/-- The token in front, which is not consumed. -/
def peek : Reader Token := fun last ts => ⟨.ok (ts.headD last), ts, []⟩

/-- Consumes the token in front and answers with it. At the end of input nothing is consumed. -/
def advance : Reader Token := fun last ts => ⟨.ok (ts.headD last), ts.tail, []⟩

/-- Stops at the token in front. -/
def fail (cause : GrammarError.Cause) : Reader α := fun last ts =>
  ⟨.error ⟨cause, ts.headD last⟩, ts, []⟩

/-- Consumes a token of this kind, or stops. -/
def expect (kind : Token.Kind) (cause : GrammarError.Cause) : Reader Token := do
  if (← peek).kind = kind then advance else fail cause

/-- Notes an error and reads on. -/
def report (e : GrammarError) : Reader Unit := fun _ ts => ⟨.ok (), ts, [.error e]⟩

/-- Reads with a budget that the number of tokens left determines. -/
def budgeted (budget : Nat → Nat) (r : Nat → Reader α) : Reader α := fun last ts =>
  r (budget ts.length) last ts

end Reader

end Lox.Grammar
