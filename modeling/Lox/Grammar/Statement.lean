import Lox.Grammar.Expression

/-!
# Grammar — Statements

Reading statements. Inside a list of declarations an error ends only the declaration it occurs in:
the error is noted, tokens are skipped up to a place where a statement is likely to start, and
reading resumes there.

`statement` and `declarations` recurse on a budget. Between two calls on the same tokens lies at
most one step from a list to its first member, so twice the number of tokens left is enough;
`program` supplies it.
-/

namespace Lox.Grammar

/-- Reads a declared variable. -/
def declaration : Reader Stmt := do
  let _ ← Reader.advance
  let name ← Reader.expect .identifier .expectVariableName
  let initializer? ←
    if (← Reader.peek).kind = .equal then
      let _ ← Reader.advance
      some <$> expression
    else
      pure none
  let _ ← Reader.expect .semicolon (.expectSemicolon "variable declaration")
  return .declare name initializer?

/-- Reads a `print` statement. -/
def printStatement : Reader Stmt := do
  let keyword ← Reader.advance
  let value ← expression
  let _ ← Reader.expect .semicolon (.expectSemicolon "value")
  return .print keyword value

/-- Reads an expression that stands as a statement. -/
def expressionStatement : Reader Stmt := do
  let value ← expression
  let _ ← Reader.expect .semicolon (.expectSemicolon "expression")
  return .expression value

/-- Reads the condition of an `if`, the word itself included. -/
def ifCondition : Reader Expr := do
  let _ ← Reader.advance
  let _ ← Reader.expect .leftParen (.expectLeftParen "'if'")
  let condition ← expression
  let _ ← Reader.expect .rightParen (.expectRightParen "if condition")
  return condition

/-- What is left after tokens have been skipped up to where a statement may start: behind a
semicolon, or before a word that starts a statement. `previous` is the token skipped last. -/
def skipFrom (previous : Token) : List Token → List Token
  | [] => []
  | t :: ts =>
    if previous.kind = .semicolon || t.kind.startsStatement then t :: ts
    else skipFrom t ts

/-- Skips the token in front, and then up to where a statement may start. -/
def skipToStatement : List Token → List Token
  | [] => []
  | t :: ts => skipFrom t ts

/-- Reads a declaration, or notes the error it stops at and skips to the next one. -/
def recovering (r : Reader Stmt) : Reader (Option Stmt) := fun last ts =>
  match r last ts with
  | ⟨.ok s, rest, notices⟩ => ⟨.ok (some s), rest, notices⟩
  | ⟨.error e, rest, notices⟩ =>
    let rest := skipToStatement rest
    ⟨.ok none, rest, notices ++ [.error e, .resumed (rest.headD last)]⟩

/-- Where a list of declarations stands, and so where it ends. -/
inductive Enclosure where
  /-- The list is the whole program and goes on to the end of input. -/
  | program
  /-- The list is the inside of a block and ends before a closing brace, too. -/
  | block
  deriving DecidableEq, Repr

/-- Whether a list of declarations ends before this token. -/
def Enclosure.endsBefore (e : Enclosure) (t : Token) : Bool :=
  t.isEof || (e = .block && t.kind = .rightBrace)

mutual

/-- Reads a statement other than a declaration of a variable. An `else` belongs to the innermost
`if` that is still open. -/
def statement : Nat → Reader Stmt
  | 0 => Reader.fail .expectExpression
  | budget + 1 => do
    match (← Reader.peek).kind with
    | .kwIf =>
      let condition ← ifCondition
      let consequent ← statement budget
      if (← Reader.peek).kind = .kwElse then
        let _ ← Reader.advance
        let alternative ← statement budget
        return .conditional condition consequent (some alternative)
      else
        return .conditional condition consequent none
    | .kwPrint => printStatement
    | .leftBrace =>
      let _ ← Reader.advance
      let body ← declarations budget .block
      let _ ← Reader.expect .rightBrace .expectRightBrace
      return .block body
    | _ => expressionStatement

/-- Reads declarations and statements up to the end of their enclosure. -/
def declarations : Nat → Enclosure → Reader (List Stmt)
  | 0, _ => pure []
  | budget + 1, enclosure => do
    let front ← Reader.peek
    if enclosure.endsBefore front then return []
    let first? ← recovering (if front.kind = .kwVar then declaration else statement budget)
    let others ← declarations budget enclosure
    return first?.toList ++ others

end

/-- Reads a whole program. -/
def program : Reader (List Stmt) :=
  Reader.budgeted (2 * ·) fun budget => declarations budget .program

end Lox.Grammar
