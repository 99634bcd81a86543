import Mathlib.Data.List.Forall2
import Lox.Grammar.Expression

/-!
# Proofs — Grammar — Written programs

A tree is written out in source order: statements with their keywords and punctuation, expressions
infix.  What is written is a list of `Slot`s, for a tree keeps some tokens whole (names, operators,
the word `print`), of a literal only the value, and of all others nothing but the place.
`Writes slots ts` says that the tokens `ts` are what the slots ask for, one by one.

`Expr.Shaped` and `Stmt.Shaped` are the shape that the grammar gives to trees.  An expression has a
level (`Expr.level`): its operator's, or the tightest.  A left operand binds at least as tightly as
the operator behind it, a right operand more tightly than the operator before it, and the operand
of `!` or `-` most tightly.  An assignment has a level below every operator's, so it stands only
where a whole expression may.
-/

namespace Lox

namespace Token.Kind

/-- The operators that take one operand. -/
def isUnary : Kind → Bool
  | bang | minus => true
  | _ => false

/-- The operators of arithmetic, comparison and equality. -/
def isBinary : Kind → Bool
  | minus | plus | slash | star | bangEqual | equalEqual | greater | greaterEqual | less
  | lessEqual => true
  | _ => false

/-- The operators that may leave their right operand alone. -/
def isLogical : Kind → Bool
  | kwAnd | kwOr => true
  | _ => false

/-- The tokens that stand for a value. -/
def isLiteral : Kind → Bool
  | number | string | kwTrue | kwFalse | kwNil => true
  | _ => false

/-- The kind of the tokens that stand for a given value. -/
def ofValue : Value → Kind
  | .nil => kwNil
  | .bool true => kwTrue
  | .bool false => kwFalse
  | .number _ => number
  | .string _ => string

end Token.Kind

/-- A token that stands for a value has a value of its kind, as every scanned one has. -/
def Token.HasValueOfKind (t : Token) : Prop :=
  t.kind.isLiteral → t.kind = .ofValue (t.literal?.getD .nil)

/-! ### Slots -/

/-- What stands at one place of a written tree. -/
inductive Slot where
  /-- A keyword or a mark of which the tree keeps nothing. -/
  | fixed (kind : Token.Kind)
  /-- A token that the tree keeps. -/
  | stored (t : Token)
  /-- A literal, of which the tree keeps the value. -/
  | literal (v : Value)

namespace Slot

/-- The kind of token that a slot is written as. -/
def kind : Slot → Token.Kind
  | fixed k => k
  | stored t => t.kind
  | literal v => .ofValue v

/-- The token is what the slot asks for. A literal token without a value stands for nil. -/
def Fits : Slot → Token → Prop
  | fixed k, t => t.kind = k
  | stored s, t => t = s
  | literal v, t => t.kind.isLiteral ∧ t.literal?.getD .nil = v

/-- A token that a slot may be written as. -/
def token : Slot → Token
  | fixed k => ⟨k, "", none, 1, .point 0⟩
  | stored t => t
  | literal v => ⟨.ofValue v, "", some v, 1, .point 0⟩

theorem fits_token (x : Slot) : x.Fits x.token := by
  cases x with
  | fixed k => rfl
  | stored t => rfl
  | literal v => rcases v with _ | ⟨_ | _⟩ | _ | _ <;> exact ⟨rfl, rfl⟩

end Slot

/-- The tokens are what the slots ask for, in order, none missing and none left over. -/
def Writes (slots : List Slot) (ts : List Token) : Prop := List.Forall₂ Slot.Fits slots ts

namespace Writes

@[simp] theorem nil_iff {ts : List Token} : Writes [] ts ↔ ts = [] :=
  List.forall₂_nil_left_iff

@[simp] theorem cons_iff {x : Slot} {slots : List Slot} {ts : List Token} :
    Writes (x :: slots) ts ↔ ∃ t us, ts = t :: us ∧ x.Fits t ∧ Writes slots us := by
  rw [Writes, List.forall₂_cons_left_iff]
  constructor
  · rintro ⟨t, us, ht, hus, rfl⟩
    exact ⟨t, us, rfl, ht, hus⟩
  · rintro ⟨t, us, rfl, ht, hus⟩
    exact ⟨t, us, ht, hus, rfl⟩

theorem append {slots slots' : List Slot} {ts ts' : List Token} (h : Writes slots ts)
    (h' : Writes slots' ts') : Writes (slots ++ slots') (ts ++ ts') :=
  List.rel_append h h'

@[simp] theorem append_iff {slots slots' : List Slot} {ts : List Token} :
    Writes (slots ++ slots') ts ↔
      ∃ us vs, ts = us ++ vs ∧ Writes slots us ∧ Writes slots' vs := by
  constructor
  · intro h
    induction slots generalizing ts with
    | nil => exact ⟨[], ts, rfl, .nil, h⟩
    | cons x slots ih =>
        obtain ⟨t, us, rfl, ht, h⟩ := cons_iff.1 h
        obtain ⟨us, vs, rfl, hus, hvs⟩ := ih h
        exact ⟨t :: us, vs, rfl, .cons ht hus, hvs⟩
  · rintro ⟨us, vs, rfl, hus, hvs⟩
    exact hus.append hvs

/-- Tokens that are written by slots have the kinds of the slots, if literals have values of their
kinds. -/
theorem map_kind {slots : List Slot} {ts : List Token} (h : Writes slots ts)
    (hts : ∀ t ∈ ts, t.HasValueOfKind) : slots.map Slot.kind = ts.map Token.kind := by
  induction slots generalizing ts with
  | nil => rw [nil_iff.1 h]; rfl
  | cons x slots ih =>
      obtain ⟨t, us, rfl, hx, hw⟩ := cons_iff.1 h
      rw [List.map_cons, List.map_cons, ih hw fun u hu => hts u (List.mem_cons_of_mem _ hu)]
      have ht := hts t List.mem_cons_self
      cases x with
      | fixed k => rw [Slot.kind, hx]
      | stored s => rw [Slot.kind, hx]
      | literal v =>
          obtain ⟨hk, rfl⟩ := hx
          rw [Slot.kind, ht hk]

end Writes

/-- Everything can be written out. -/
theorem writes_map_token (slots : List Slot) : Writes slots (slots.map Slot.token) := by
  induction slots with
  | nil => exact .nil
  | cons x slots ih => exact .cons x.fits_token ih

/-! ### Expressions -/

namespace Expr

/-- An expression in source order. -/
def written : Expr → List Slot
  | .literal v => [.literal v]
  | .variable name => [.stored name]
  | .grouping e => .fixed .leftParen :: e.written ++ [.fixed .rightParen]
  | .unary operator e => .stored operator :: e.written
  | .binary l operator r | .logical l operator r => l.written ++ .stored operator :: r.written
  | .assign name e => .stored name :: .fixed .equal :: e.written

/-- How tightly an expression holds together: as its operator binds, or most tightly. -/
def level : Expr → Grammar.Level
  | .binary _ operator _ | .logical _ operator _ => .ofKind operator.kind
  | .assign .. => .assign
  | _ => .unary

/-- The level above which an operator behind an expression would have become part of it. -/
def reach : Expr → Grammar.Level
  | .assign .. => .lowest
  | e => e.level

/-- An operation has operands that hold together around its operator. -/
def Joins (l : Expr) (operator : Token) (r : Expr) : Prop :=
  ¬ l.level.below (.ofKind operator.kind) ∧ (Grammar.Level.ofKind operator.kind).below r.level

/-- The shape of the expressions of the grammar. -/
def Shaped : Expr → Prop
  | .literal _ => True
  | .variable name => name.kind = .identifier
  | .grouping e => e.Shaped
  | .unary operator e => operator.kind.isUnary ∧ e.level = .unary ∧ e.Shaped
  | .binary l operator r => operator.kind.isBinary ∧ Joins l operator r ∧ l.Shaped ∧ r.Shaped
  | .logical l operator r => operator.kind.isLogical ∧ Joins l operator r ∧ l.Shaped ∧ r.Shaped
  | .assign name e => name.kind = .identifier ∧ e.Shaped

end Expr

/-! ### Statements -/

namespace Stmt

mutual

/-- A statement in source order. -/
def written : Stmt → List Slot
  | .expression e => e.written ++ [.fixed .semicolon]
  | .print keyword e => .stored keyword :: e.written ++ [.fixed .semicolon]
  | .declare name none => [.fixed .kwVar, .stored name, .fixed .semicolon]
  | .declare name (some e) =>
    .fixed .kwVar :: .stored name :: .fixed .equal :: e.written ++ [.fixed .semicolon]
  | .block body => .fixed .leftBrace :: writtenAll body ++ [.fixed .rightBrace]
  | .conditional c s none =>
    .fixed .kwIf :: .fixed .leftParen :: c.written ++ .fixed .rightParen :: s.written
  | .conditional c s (some t) =>
    .fixed .kwIf :: .fixed .leftParen :: c.written ++
      .fixed .rightParen :: s.written ++ .fixed .kwElse :: t.written

/-- Statements in source order, one behind the other. -/
def writtenAll : List Stmt → List Slot
  | [] => []
  | s :: ss => s.written ++ writtenAll ss

end

/-- Whether a statement declares a variable, and so may not be a branch. -/
def isDeclaration : Stmt → Bool
  | .declare .. => true
  | _ => false

/-- Whether a statement ends in an `if` that has no `else` and would take one. -/
def endsOpen : Stmt → Bool
  | .conditional _ _ none => true
  | .conditional _ _ (some t) => t.endsOpen
  | _ => false

mutual

/-- The shape of the statements of the grammar. -/
def Shaped : Stmt → Prop
  | .expression e => e.Shaped
  | .print keyword e => keyword.kind = .kwPrint ∧ e.Shaped
  | .declare name none => name.kind = .identifier
  | .declare name (some e) => name.kind = .identifier ∧ e.Shaped
  | .block body => AllShaped body
  | .conditional c s none => c.Shaped ∧ s.Shaped ∧ s.isDeclaration = false
  | .conditional c s (some t) =>
    c.Shaped ∧ s.Shaped ∧ s.isDeclaration = false ∧ s.endsOpen = false ∧
      t.Shaped ∧ t.isDeclaration = false

/-- The shape of the statements of a list. -/
def AllShaped : List Stmt → Prop
  | [] => True
  | s :: ss => s.Shaped ∧ AllShaped ss

end

end Stmt

end Lox
