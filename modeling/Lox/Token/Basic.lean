import Lox.Span
import Lox.Value

/-!
# Tokens

A token is a kind, the text it was scanned from, the value it stands for if it is a literal, and its
place: the line it starts on and the bytes it covers.
-/

namespace Lox

/-- The kinds of token. Reserved words have a kind each. -/
inductive Token.Kind where
  | leftParen
  | rightParen
  | leftBrace
  | rightBrace
  | comma
  | dot
  | minus
  | plus
  | semicolon
  | slash
  | star
  | bang
  | bangEqual
  | equal
  | equalEqual
  | greater
  | greaterEqual
  | less
  | lessEqual
  | identifier
  | string
  | number
  | kwAnd
  | kwClass
  | kwElse
  | kwFalse
  | kwFun
  | kwFor
  | kwIf
  | kwNil
  | kwOr
  | kwPrint
  | kwReturn
  | kwSuper
  | kwThis
  | kwTrue
  | kwVar
  | kwWhile
  | eof
  deriving DecidableEq, Repr

namespace Token.Kind

/-- The name of a kind in a token list. -/
def text : Kind → String
  | leftParen => "LEFT_PAREN"
  | rightParen => "RIGHT_PAREN"
  | leftBrace => "LEFT_BRACE"
  | rightBrace => "RIGHT_BRACE"
  | comma => "COMMA"
  | dot => "DOT"
  | minus => "MINUS"
  | plus => "PLUS"
  | semicolon => "SEMICOLON"
  | slash => "SLASH"
  | star => "STAR"
  | bang => "BANG"
  | bangEqual => "BANG_EQUAL"
  | equal => "EQUAL"
  | equalEqual => "EQUAL_EQUAL"
  | greater => "GREATER"
  | greaterEqual => "GREATER_EQUAL"
  | less => "LESS"
  | lessEqual => "LESS_EQUAL"
  | identifier => "IDENTIFIER"
  | string => "STRING"
  | number => "NUMBER"
  | kwAnd => "AND"
  | kwClass => "CLASS"
  | kwElse => "ELSE"
  | kwFalse => "FALSE"
  | kwFun => "FUN"
  | kwFor => "FOR"
  | kwIf => "IF"
  | kwNil => "NIL"
  | kwOr => "OR"
  | kwPrint => "PRINT"
  | kwReturn => "RETURN"
  | kwSuper => "SUPER"
  | kwThis => "THIS"
  | kwTrue => "TRUE"
  | kwVar => "VAR"
  | kwWhile => "WHILE"
  | eof => "EOF"

/-- Every kind, in the order of their declaration. -/
def all : List Kind :=
  [leftParen, rightParen, leftBrace, rightBrace, comma, dot, minus, plus, semicolon, slash, star,
    bang, bangEqual, equal, equalEqual, greater, greaterEqual, less, lessEqual, identifier, string,
    number, kwAnd, kwClass, kwElse, kwFalse, kwFun, kwFor, kwIf, kwNil, kwOr, kwPrint, kwReturn,
    kwSuper, kwThis, kwTrue, kwVar, kwWhile, eof]

/-- The kind of a given name. -/
def ofText? (s : String) : Option Kind := all.find? (·.text == s)

/-- The reserved words, with their kinds. -/
def reservedWords : List (String × Kind) :=
  [("and", kwAnd), ("class", kwClass), ("else", kwElse), ("false", kwFalse), ("for", kwFor),
    ("fun", kwFun), ("if", kwIf), ("nil", kwNil), ("or", kwOr), ("print", kwPrint),
    ("return", kwReturn), ("super", kwSuper), ("this", kwThis), ("true", kwTrue), ("var", kwVar),
    ("while", kwWhile)]

/-- The kind of a reserved word. -/
def ofReserved? (word : String) : Option Kind := reservedWords.lookup word

/-- Whether tokens of this kind are reserved words. -/
def isReserved (k : Kind) : Bool := reservedWords.any (·.2 == k)

/-- Whether a token of this kind starts a statement of its own, so that reading can resume there
after an error. -/
def startsStatement : Kind → Bool
  | kwClass | kwFun | kwVar | kwFor | kwIf | kwWhile | kwPrint | kwReturn => true
  | _ => false

end Token.Kind

/-- A token. -/
structure Token where
  kind : Token.Kind
  lexeme : String
  literal? : Option Value
  line : Nat
  span : Span

namespace Token

/-- The token that stands for the end of input, at a given line and offset. -/
def eof (line : Nat) (offset : Offset) : Token :=
  ⟨.eof, "", none, line, .point offset⟩

/-- Whether the token stands for the end of input. -/
def isEof (t : Token) : Bool := t.kind == .eof

/-- A token in a token list: kind, lexeme, and literal or `null`. -/
def listing (t : Token) : String :=
  t.kind.text ++ " " ++ t.lexeme ++ " " ++ (t.literal?.map (·.listing)).getD "null"

end Token

end Lox
