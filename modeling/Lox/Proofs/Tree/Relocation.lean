import Lox.Problem.Fault
import Lox.Problem.Grammar
import Lox.Tree.Form

/-!
# Proofs — Tree — Tokens that stand elsewhere

`Token.Relocation f`: the map `f` leaves kind, lexeme and literal of every token as they are, and so
changes at most where it stands.  `Expr.relocate f` and `Stmt.relocate f` are the trees in which
every token is replaced by its image, and errors and faults are relocated with the token that they
blame.  A tree is printed without the places of its tokens (`Stmt.form_relocate`).
-/

namespace Lox

/-- A map of tokens that changes at most where they stand. -/
structure Token.Relocation (f : Token → Token) : Prop where
  kind : ∀ t, (f t).kind = t.kind
  lexeme : ∀ t, (f t).lexeme = t.lexeme
  literal : ∀ t, (f t).literal? = t.literal?

variable (f : Token → Token)

/-- The expression in which every token is replaced by its image. -/
def Expr.relocate : Expr → Expr
  | .literal v => .literal v
  | .variable name => .variable (f name)
  | .grouping e => .grouping e.relocate
  | .unary operator e => .unary (f operator) e.relocate
  | .binary l operator r => .binary l.relocate (f operator) r.relocate
  | .logical l operator r => .logical l.relocate (f operator) r.relocate
  | .assign name e => .assign (f name) e.relocate

namespace Stmt

mutual

/-- The statement in which every token is replaced by its image. -/
def relocate : Stmt → Stmt
  | .expression e => .expression (e.relocate f)
  | .print keyword e => .print (f keyword) (e.relocate f)
  | .declare name initializer? => .declare (f name) (initializer?.map (·.relocate f))
  | .block body => .block (relocateAll body)
  | .conditional c s none => .conditional (c.relocate f) s.relocate none
  | .conditional c s (some t) => .conditional (c.relocate f) s.relocate (some t.relocate)

/-- The statements in which every token is replaced by its image. -/
def relocateAll : List Stmt → List Stmt
  | [] => []
  | s :: ss => s.relocate :: relocateAll ss

end

end Stmt

/-- The error, blamed on the image of its token. -/
def GrammarError.relocate (e : GrammarError) : GrammarError := { e with token := f e.token }

/-- The fault, blamed on the image of its token. -/
def Fault.relocate (e : Fault) : Fault := { e with token := f e.token }

/-! ### Texts -/

variable {f}

open Token (Relocation)

theorem Expr.form_relocate (hf : Relocation f) (e : Expr) : (e.relocate f).form = e.form := by
  induction e with
  | literal v => rfl
  | «variable» name => exact hf.lexeme name
  | grouping e ih => rw [relocate, form, ih, form]
  | unary operator e ih => rw [relocate, form, ih, hf.lexeme, form]
  | binary l operator r ihl ihr | logical l operator r ihl ihr =>
      rw [relocate, form, ihl, ihr, hf.lexeme, form]
  | assign name e ih => rw [relocate, form, ih, hf.lexeme, form]

mutual

theorem Stmt.form_relocate (hf : Relocation f) : ∀ s : Stmt, (s.relocate f).form = s.form
  | .expression e | .print _ e => by rw [relocate, form, Expr.form_relocate hf, form]
  | .declare name none => by rw [relocate, Option.map_none, form, hf.lexeme, form]
  | .declare name (some e) => by
      rw [relocate, Option.map_some, form, hf.lexeme, Expr.form_relocate hf, form]
  | .block body => by rw [relocate, form, Stmt.forms_relocate hf body, form]
  | .conditional c s none => by
      rw [relocate, form, Expr.form_relocate hf, Stmt.form_relocate hf s, form]
  | .conditional c s (some t) => by
      rw [relocate, form, Expr.form_relocate hf, Stmt.form_relocate hf s, Stmt.form_relocate hf t,
        form]

theorem Stmt.forms_relocate (hf : Relocation f) :
    ∀ ss : List Stmt, Stmt.forms (Stmt.relocateAll f ss) = Stmt.forms ss
  | [] => rfl
  | s :: ss => by
      rw [relocateAll, forms, Stmt.form_relocate hf s, Stmt.forms_relocate hf ss, forms]

end

end Lox
