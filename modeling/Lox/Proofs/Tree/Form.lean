import Lox.Proofs.Grammar.Soundness
import Lox.Proofs.Token.LongestMatch
import Lox.Proofs.Tree.Relocation
import Lox.Proofs.Tree.Term

/-!
# Proofs — Tree — Printed trees

**No ambiguity** (`forms_unambiguous`).  Two statements that were read without an error, from one
text or from two, are printed alike only if they are the same but for the places of their tokens.
Strings are printed as they are, whatever stands in them.  Numbers have to be finite, for the others
are printed as words.

A tree is printed as a `Term`, and a term is known from its text (`Term.text_inj`).  The tree is
known from the term in turn: `Stmt.ofTerm?` makes a statement of a term, and of the term of a
statement that statement, its tokens moved to the start of a text (`Stmt.ofTerm?_term`).  It needs
of the tree what a text and the grammar give to it (`Stmt.Legible`): a lexeme is known to be a name,
a reserved word or an operator, the name of an assignment is no operator of another node, and a
string has no quote in it.  The values of literals are of the kinds of their tokens, so a text and
what is read from it have the same kinds (`kinds_of_statements`).
-/

namespace Lox

open Token (Scan)

/-! ### Scanned tokens -/

namespace Token

variable {t : Token} {s : String}

/-- The token as if it stood at the start of a text. -/
def unplaced (t : Token) : Token := { t with line := 1, span := .point 0 }

theorem relocation_unplaced : Relocation unplaced := ⟨fun _ => rfl, fun _ => rfl, fun _ => rfl⟩

/-- A token as it is scanned: the lexeme is one of its kind, and the value is that of the lexeme. -/
structure Scanned (t : Token) : Prop where
  lexeme : t.kind.Lexeme t.lexeme.toList
  literal : t.literal? = Piece.literal? t.kind t.lexeme.toList

theorem scanned_of_mem_tokens (h : t ∈ (Scan.ofString s).tokens) (hend : t.isEof = false) :
    t.Scanned := by
  rcases finds_of_mem_tokens h with ⟨before, behind, hfinds⟩ | ⟨-, heof, -⟩
  · exact ⟨hfinds.token.2.1, hfinds.token.2.2.1⟩
  · rw [isEof, heof] at hend
    cases hend

/-- A scanned literal has a value of its kind. -/
theorem Scanned.hasValueOfKind (h : t.Scanned) : t.HasValueOfKind := by
  intro hkind
  rw [h.literal]
  cases hk : t.kind <;> rw [hk] at hkind <;> first | rfl | cases hkind

theorem hasValueOfKind_of_mem_tokens (h : t ∈ (Scan.ofString s).tokens) : t.HasValueOfKind := by
  cases hend : t.isEof with
  | false => exact (scanned_of_mem_tokens h hend).hasValueOfKind
  | true =>
      intro hkind
      rw [beq_iff_eq.1 hend] at hkind
      cases hkind

/-- The token of a lexeme. -/
def ofLexeme? (lexeme : String) : Option Token :=
  match lexeme.toList with
  | [] => none
  | c :: cs => ((Piece.cut c cs).item? 1 (.point 0)).bind Except.toOption

/-- A lexeme is cut off whole. -/
theorem cut_of_lexeme {k : Kind} {c : Char} {cs : List Char} (h : k.Lexeme (c :: cs)) :
    Piece.cut c cs = ⟨c :: cs, .token k⟩ := by
  have hmunches : Munches (c :: cs) ⟨c :: cs, .token k⟩ [] :=
    .longest (List.append_nil _).symm (.lexeme h) fun _ _ hprefix => hprefix.length_le
  exact (munches_iff.1 hmunches).1.symm

/-- But for its place, a token is known from its lexeme. -/
theorem Scanned.ofLexeme? (h : t.Scanned) : ofLexeme? t.lexeme = some t.unplaced := by
  have hlexeme := h.lexeme
  have hliteral := h.literal
  rw [Token.ofLexeme?]
  split <;> rename_i htext <;> rw [htext] at hlexeme hliteral
  · exact absurd rfl (Piece.Regular.lexeme hlexeme).text_ne_nil
  · rw [cut_of_lexeme hlexeme, unplaced, hliteral, ← String.ofList_toList (s := t.lexeme), htext]
    rfl

/-- Parentheses and strings aside, lexemes are plain. -/
theorem Kind.Lexeme.plain {k : Kind} {text : List Char} (h : k.Lexeme text)
    (hk : k ∉ [.leftParen, .rightParen, .string]) : Term.Plain text := by
  have hsymbols : ∀ p ∈ symbols, p.1 ∉ [leftParen, rightParen, Kind.string] → Term.Plain p.2 := by
    decide
  rcases h.inWord_or_symbol fun heq => hk (by simp [heq]) with hword | hsymbol
  · exact fun c hc => (hword c hc).elim Term.isPlain_of_inWord (· ▸ by decide)
  · exact hsymbols _ hsymbol hk

theorem Kind.Lexeme.isWord {text : List Char} (h : Kind.Lexeme .identifier text) :
    IsWord text := by
  cases h with
  | reserved h | identifier h => exact h
  | symbol h => exact absurd h (by simp [symbols])

end Token

/-! ### Trees as terms -/

/-- The term that a value is printed as. -/
def Value.term : Value → Term
  | .nil => .word "nil"
  | .bool true => .word "true"
  | .bool false => .word "false"
  | .number x => .number x
  | .string s => .string s

/-- The term that an expression is printed as. -/
def Expr.term : Expr → Term
  | .literal v => v.term
  | .variable name => .word name.lexeme
  | .grouping e => .node "group" [e.term]
  | .unary op e => .node op.lexeme [e.term]
  | .binary l op r | .logical l op r => .node op.lexeme [l.term, r.term]
  | .assign name e => .node "=" [.word name.lexeme, e.term]

mutual

/-- The term that a statement is printed as. -/
def Stmt.term : Stmt → Term
  | .expression e => .node "expr" [e.term]
  | .print _ e => .node "print" [e.term]
  | .declare name none => .node "var" [.word name.lexeme]
  | .declare name (some e) => .node "var" [.word name.lexeme, e.term]
  | .block body => .node "block" (Stmt.terms body)
  | .conditional c s none => .node "if" [c.term, s.term]
  | .conditional c s (some t) => .node "if" [c.term, s.term, t.term]

/-- The terms that the statements of a list are printed as. -/
def Stmt.terms : List Stmt → List Term
  | [] => []
  | s :: ss => s.term :: Stmt.terms ss

end

theorem toList_parenthesised (name : String) {operands : List String} {xs : List Term}
    (h : operands.map String.toList = xs.map Term.text) :
    (parenthesised name operands).toList = (Term.node name xs).text := by
  have htexts : ((operands.map (" " ++ ·)).flatMap String.toList) = Term.texts xs := by
    induction operands generalizing xs with
    | nil =>
        obtain rfl := List.map_eq_nil_iff.1 h.symm
        rfl
    | cons operand operands ih =>
        obtain ⟨x, xs, rfl, hx, hxs⟩ := List.map_eq_cons_iff.1 h.symm
        rw [Term.texts, ← ih hxs.symm, hx]
        simp
  simp [parenthesised, htexts, Term.text]

theorem Value.toList_form (v : Value) : v.form.toList = v.term.text := by
  rcases v with _ | ⟨_ | _⟩ | x | s
  · rfl
  · rfl
  · rfl
  · rfl
  · simp [form, term, Term.text]

theorem Expr.toList_form (e : Expr) : e.form.toList = e.term.text := by
  induction e with
  | literal v => exact v.toList_form
  | «variable» name => rfl
  | grouping e ih | unary operator e ih => exact toList_parenthesised _ (by simp [ih])
  | binary l operator r ihl ihr | logical l operator r ihl ihr =>
      exact toList_parenthesised _ (by simp [ihl, ihr])
  | assign name e ih => exact toList_parenthesised _ (by simp [ih, Term.text])

mutual

theorem Stmt.toList_form : ∀ s : Stmt, s.form.toList = s.term.text
  | .expression e | .print _ e => toList_parenthesised _ (by simp [e.toList_form])
  | .declare name none => toList_parenthesised _ (by simp [Term.text])
  | .declare name (some e) => toList_parenthesised _ (by simp [Term.text, e.toList_form])
  | .block body => toList_parenthesised _ (Stmt.toList_forms body)
  | .conditional c s none => toList_parenthesised _ (by simp [c.toList_form, Stmt.toList_form s])
  | .conditional c s (some t) =>
      toList_parenthesised _ (by simp [c.toList_form, Stmt.toList_form s, Stmt.toList_form t])

theorem Stmt.toList_forms :
    ∀ ss : List Stmt, (Stmt.forms ss).map String.toList = (Stmt.terms ss).map Term.text
  | [] => rfl
  | s :: ss => by
      rw [Stmt.forms, Stmt.terms, List.map_cons, List.map_cons, Stmt.toList_form s,
        Stmt.toList_forms ss]

end

/-! ### Legible trees -/

/-- A value that is told from its text. -/
def Value.Legible : Value → Prop
  | .number x => x.isFinite
  | .string s => '"' ∉ s.toList
  | _ => True

/-- A scanned name. -/
def Token.IsName (t : Token) : Prop := t.Scanned ∧ t.kind = .identifier

/-- An expression that is told from its text. -/
def Expr.Legible : Expr → Prop
  | .literal v => v.Legible
  | .variable name => name.IsName
  | .grouping e => e.Legible
  | .unary operator e => (operator.Scanned ∧ operator.kind.isUnary) ∧ e.Legible
  | .binary l operator r =>
    (operator.Scanned ∧ operator.kind.isBinary) ∧ l.Legible ∧ r.Legible
  | .logical l operator r =>
    (operator.Scanned ∧ operator.kind.isLogical) ∧ l.Legible ∧ r.Legible
  | .assign name e => name.IsName ∧ e.Legible

mutual

/-- A statement that is told from its text. -/
def Stmt.Legible : Stmt → Prop
  | .expression e => e.Legible
  | .print keyword e => (keyword.Scanned ∧ keyword.kind = .kwPrint) ∧ e.Legible
  | .declare name none => name.IsName
  | .declare name (some e) => name.IsName ∧ e.Legible
  | .block body => Stmt.AllLegible body
  | .conditional c s none => c.Legible ∧ s.Legible
  | .conditional c s (some t) => c.Legible ∧ s.Legible ∧ t.Legible

/-- Statements that are told from their texts. -/
def Stmt.AllLegible : List Stmt → Prop
  | [] => True
  | s :: ss => s.Legible ∧ Stmt.AllLegible ss

end

/-- What stands in a tree that is read from a text with finite numbers. -/
def Slot.Legible : Slot → Prop
  | .fixed _ => True
  | .stored t => t.Scanned
  | .literal v => v.Legible

theorem Expr.legible_of_written {e : Expr} (h : e.Shaped) (hw : ∀ x ∈ e.written, x.Legible) :
    e.Legible := by
  induction e with
  | literal v => exact hw _ List.mem_cons_self
  | «variable» name => exact ⟨hw _ List.mem_cons_self, h⟩
  | grouping e ih =>
      simp only [written, List.forall_mem_append, List.forall_mem_cons] at hw
      exact ih h hw.1.2
  | unary operator e ih =>
      simp only [written, List.forall_mem_cons] at hw
      exact ⟨⟨hw.1, h.1⟩, ih h.2.2 hw.2⟩
  | binary l operator r ihl ihr | logical l operator r ihl ihr =>
      simp only [written, List.forall_mem_append, List.forall_mem_cons] at hw
      exact ⟨⟨hw.2.1, h.1⟩, ihl h.2.2.1 hw.1, ihr h.2.2.2 hw.2.2⟩
  | assign name e ih =>
      simp only [written, List.forall_mem_cons] at hw
      exact ⟨⟨hw.1, h.1⟩, ih h.2 hw.2.2⟩

mutual

theorem Stmt.legible_of_written : ∀ s : Stmt, s.Shaped → (∀ x ∈ s.written, x.Legible) → s.Legible
  | .expression e, h, hw => by
      simp only [written, List.forall_mem_append] at hw
      exact Expr.legible_of_written h hw.1
  | .print keyword e, h, hw => by
      simp only [written, List.forall_mem_append, List.forall_mem_cons] at hw
      exact ⟨⟨hw.1.1, h.1⟩, Expr.legible_of_written h.2 hw.1.2⟩
  | .declare name none, h, hw => by
      simp only [written, List.forall_mem_cons] at hw
      exact ⟨hw.2.1, h⟩
  | .declare name (some e), h, hw => by
      simp only [written, List.forall_mem_append, List.forall_mem_cons] at hw
      exact ⟨⟨hw.1.2.1, h.1⟩, Expr.legible_of_written h.2 hw.1.2.2.2⟩
  | .block body, h, hw => by
      simp only [written, List.forall_mem_append, List.forall_mem_cons] at hw
      exact Stmt.legible_of_writtenAll body h hw.1.2
  | .conditional c s none, h, hw => by
      simp only [written, List.forall_mem_append, List.forall_mem_cons] at hw
      exact ⟨Expr.legible_of_written h.1 hw.1.2.2, Stmt.legible_of_written s h.2.1 hw.2.2⟩
  | .conditional c s (some t), h, hw => by
      simp only [written, List.forall_mem_append, List.forall_mem_cons] at hw
      exact ⟨Expr.legible_of_written h.1 hw.1.1.2.2, Stmt.legible_of_written s h.2.1 hw.1.2.2,
        Stmt.legible_of_written t h.2.2.2.2.1 hw.2.2⟩

theorem Stmt.legible_of_writtenAll : ∀ ss : List Stmt, Stmt.AllShaped ss →
    (∀ x ∈ Stmt.writtenAll ss, x.Legible) → Stmt.AllLegible ss
  | [], _, _ => trivial
  | s :: ss, h, hw => by
      rw [writtenAll, List.forall_mem_append] at hw
      exact ⟨Stmt.legible_of_written s h.1 hw.1, Stmt.legible_of_writtenAll ss h.2 hw.2⟩

end

/-! ### Well-formed terms -/

namespace Token

variable {t : Token}

/-- The word `print` is written in one way only. -/
theorem Scanned.lexeme_print (ht : t.Scanned) (h : t.kind = .kwPrint) : t.lexeme = "print" := by
  have hlexeme := ht.lexeme
  rw [h] at hlexeme
  cases hlexeme with
  | reserved _ hw => simpa [Kind.reservedWords] using hw
  | symbol hsymbol => exact absurd hsymbol (by simp [Kind.symbols])

theorem IsName.isWord (h : t.IsName) : IsWord t.lexeme.toList := (h.2 ▸ h.1.lexeme).isWord

/-- An operator has a plain text, for it is no parenthesis and no string. -/
theorem Scanned.plain_operator (ht : t.Scanned)
    (h : t.kind.isUnary ∨ t.kind.isBinary ∨ t.kind.isLogical) : Term.Plain t.lexeme.toList := by
  refine ht.lexeme.plain fun hmem => ?_
  have hno : ∀ k ∈ [Kind.leftParen, .rightParen, .string],
      ¬ (k.isUnary ∨ k.isBinary ∨ k.isLogical) := by decide
  exact hno _ hmem h

end Token

theorem Value.wellFormed_term {v : Value} (h : v.Legible) : v.term.WellFormed := by
  rcases v with _ | ⟨_ | _⟩ | x | s
  case number | string => exact h
  all_goals simp [term, Term.WellFormed, Token.IsWord, Token.InWord]

theorem Expr.wellFormed_term {e : Expr} (h : e.Legible) : e.term.WellFormed := by
  induction e with
  | literal v => exact Value.wellFormed_term h
  | «variable» name => exact h.isWord
  | grouping e ih => exact ⟨by decide, ih h, trivial⟩
  | unary operator e ih => exact ⟨h.1.1.plain_operator (.inl h.1.2), ih h.2, trivial⟩
  | binary l operator r ihl ihr =>
      exact ⟨h.1.1.plain_operator (.inr (.inl h.1.2)), ihl h.2.1, ihr h.2.2, trivial⟩
  | logical l operator r ihl ihr =>
      exact ⟨h.1.1.plain_operator (.inr (.inr h.1.2)), ihl h.2.1, ihr h.2.2, trivial⟩
  | assign name e ih => exact ⟨by decide, h.1.isWord, ih h.2, trivial⟩

mutual

theorem Stmt.wellFormed_term : ∀ s : Stmt, s.Legible → s.term.WellFormed
  | .expression _, h => ⟨by decide, Expr.wellFormed_term h, trivial⟩
  | .print _ _, h => ⟨by decide, Expr.wellFormed_term h.2, trivial⟩
  | .declare _ none, h => ⟨by decide, Token.IsName.isWord h, trivial⟩
  | .declare _ (some _), h => ⟨by decide, h.1.isWord, Expr.wellFormed_term h.2, trivial⟩
  | .block body, h => ⟨by decide, Stmt.wellFormed_terms body h⟩
  | .conditional _ s none, h =>
      ⟨by decide, Expr.wellFormed_term h.1, Stmt.wellFormed_term s h.2, trivial⟩
  | .conditional _ s (some t), h =>
      ⟨by decide, Expr.wellFormed_term h.1, Stmt.wellFormed_term s h.2.1,
        Stmt.wellFormed_term t h.2.2, trivial⟩

theorem Stmt.wellFormed_terms : ∀ ss : List Stmt, Stmt.AllLegible ss →
    Term.AllWellFormed (Stmt.terms ss)
  | [], _ => trivial
  | s :: ss, h => ⟨Stmt.wellFormed_term s h.1, Stmt.wellFormed_terms ss h.2⟩

end

/-! ### Trees of terms -/

/-- What an operator makes of its operands: an assignment if it is `=` behind a variable. -/
def Expr.ofOperator (left : Expr) (operator : Token) (right : Expr) : Expr :=
  match operator.kind, left with
  | .equal, .variable target => .assign target right
  | _, _ => Grammar.operation left operator right

theorem Expr.ofOperator_of_ne {left right : Expr} {operator : Token}
    (h : operator.kind ≠ .equal) :
    ofOperator left operator right = Grammar.operation left operator right := by
  unfold ofOperator
  split
  · contradiction
  · rfl

/-- The expression that a term is the print of. -/
def Expr.ofTerm? : Term → Option Expr
  | .word w => do
    let t ← Token.ofLexeme? w
    return if t.kind = .identifier then .variable t else .literal (t.literal?.getD .nil)
  | .number x => return .literal (.number x)
  | .string s => return .literal (.string s)
  | .node name [x] => do
    -- The word of a grouping is no operator.
    let operator ← Token.ofLexeme? name
    let e ← ofTerm? x
    return if operator.kind = .identifier then .grouping e else .unary operator e
  | .node name [x, y] => do
    let operator ← Token.ofLexeme? name
    return .ofOperator (← ofTerm? x) operator (← ofTerm? y)
  | _ => none

mutual

/-- The statement that a term is the print of. -/
def Stmt.ofTerm? : Term → Option Stmt
  | .node "expr" [x] => return .expression (← Expr.ofTerm? x)
  | .node "print" [x] => return .print (← Token.ofLexeme? "print") (← Expr.ofTerm? x)
  | .node "var" [.word w] => return .declare (← Token.ofLexeme? w) none
  | .node "var" [.word w, x] => return .declare (← Token.ofLexeme? w) (some (← Expr.ofTerm? x))
  | .node "block" xs => return .block (← Stmt.ofTerms? xs)
  | .node "if" [x, y] => return .conditional (← Expr.ofTerm? x) (← Stmt.ofTerm? y) none
  | .node "if" [x, y, z] =>
    return .conditional (← Expr.ofTerm? x) (← Stmt.ofTerm? y) (some (← Stmt.ofTerm? z))
  | _ => none

/-- The statements that terms are the prints of. -/
def Stmt.ofTerms? : List Term → Option (List Stmt)
  | [] => some []
  | x :: xs => return (← Stmt.ofTerm? x) :: (← Stmt.ofTerms? xs)

end

/-- The word of a value is a reserved one. -/
theorem Expr.ofTerm?_value (v : Value) : ofTerm? v.term = some (.literal v) := by
  rcases v with _ | ⟨_ | _⟩ | x | s <;> rfl

theorem Expr.ofTerm?_word {name : Token} (h : name.IsName) :
    ofTerm? (.word name.lexeme) = some (.variable name.unplaced) := by
  rw [ofTerm?, h.1.ofLexeme?]
  exact congrArg some (if_pos h.2)

/-- **Read back.**  But for the places of its tokens, an expression is known from its term. -/
theorem Expr.ofTerm?_term {e : Expr} (h : e.Legible) :
    ofTerm? e.term = some (e.relocate Token.unplaced) := by
  induction e with
  | literal v => exact ofTerm?_value v
  | «variable» name => exact ofTerm?_word h
  | grouping e ih =>
      rw [term, ofTerm?, ih h]
      rfl
  | unary operator e ih =>
      obtain ⟨⟨hoperator, hkind⟩, he⟩ := h
      have hne : operator.kind ≠ .identifier := fun heq => absurd (heq ▸ hkind) (by decide)
      rw [term, ofTerm?, hoperator.ofLexeme?, ih he]
      exact congrArg some (if_neg hne)
  | binary l operator r ihl ihr =>
      obtain ⟨⟨hoperator, hkind⟩, hl, hr⟩ := h
      have hne : operator.unplaced.kind ≠ .equal := fun heq => absurd (heq ▸ hkind) (by decide)
      rw [term, ofTerm?, hoperator.ofLexeme?, ihl hl, ihr hr]
      exact congrArg some ((ofOperator_of_ne hne).trans (Grammar.operation_of_isBinary hkind))
  | logical l operator r ihl ihr =>
      obtain ⟨⟨hoperator, hkind⟩, hl, hr⟩ := h
      have hne : operator.unplaced.kind ≠ .equal := fun heq => absurd (heq ▸ hkind) (by decide)
      rw [term, ofTerm?, hoperator.ofLexeme?, ihl hl, ihr hr]
      exact congrArg some ((ofOperator_of_ne hne).trans (Grammar.operation_of_isLogical hkind))
  | assign name e ih =>
      rw [term, ofTerm?, ofTerm?_word h.1, ih h.2]
      rfl

mutual

theorem Stmt.ofTerm?_term : ∀ s : Stmt, s.Legible →
    Stmt.ofTerm? s.term = some (s.relocate Token.unplaced)
  | .expression e, h => by 
      rw [term, ofTerm?, Expr.ofTerm?_term h]
      rfl
  | .print keyword e, h => by
      rw [term, ofTerm?, Expr.ofTerm?_term h.2, ← h.1.1.lexeme_print h.1.2, h.1.1.ofLexeme?]
      rfl
  | .declare name none, h => by
      rw [term, ofTerm?, h.1.ofLexeme?]
      rfl
  | .declare name (some e), h => by
      rw [term, ofTerm?, h.1.1.ofLexeme?, Expr.ofTerm?_term h.2]
      rfl
  | .block body, h => by
      rw [term, ofTerm?, Stmt.ofTerms?_terms body h]
      rfl
  | .conditional c s none, h => by
      rw [term, ofTerm?, Expr.ofTerm?_term h.1, Stmt.ofTerm?_term s h.2]
      rfl
  | .conditional c s (some t), h => by
      rw [term, ofTerm?, Expr.ofTerm?_term h.1, Stmt.ofTerm?_term s h.2.1,
        Stmt.ofTerm?_term t h.2.2]
      rfl

theorem Stmt.ofTerms?_terms : ∀ ss : List Stmt, Stmt.AllLegible ss →
    Stmt.ofTerms? (Stmt.terms ss) = some (Stmt.relocateAll Token.unplaced ss)
  | [], _ => rfl
  | s :: ss, h => by
      rw [terms, ofTerms?, Stmt.ofTerm?_term s h.1, Stmt.ofTerms?_terms ss h.2]
      rfl

end

/-! ### Texts -/

/-- Whether a token is a finite number, or none at all. -/
def Token.isFinite (t : Token) : Bool :=
  match t.literal? with
  | some (.number x) => x.isFinite
  | _ => true

/-- The value of a scanned token, or nil, as a literal has it. -/
theorem Token.Scanned.legible {t : Token} (h : t.Scanned) (hfinite : t.isFinite) :
    (t.literal?.getD .nil).Legible := by
  obtain ⟨kind, lexeme, literal?, line, span⟩ := t
  obtain ⟨hlexeme, hliteral⟩ := h
  dsimp only at hlexeme hliteral
  subst hliteral
  cases kind with
  | string =>
      obtain ⟨body, hbody, -, hvalue⟩ := hlexeme.exists_body
      rw [hvalue]
      simpa [Value.Legible] using hbody
  | number => exact hfinite
  | _ => trivial

theorem Writes.legible {slots : List Slot} {ts : List Token} (h : Writes slots ts)
    (hscanned : ∀ t ∈ ts, t.Scanned) (hfinite : ∀ t ∈ ts, t.isFinite) :
    ∀ x ∈ slots, x.Legible := by
  induction h with
  | nil => exact fun _ hx => absurd hx List.not_mem_nil
  | @cons x t _ _ hfits _ ih =>
      rw [List.forall_mem_cons] at hscanned hfinite
      refine List.forall_mem_cons.2 ⟨?_, ih hscanned.2 hfinite.2⟩
      cases x with
      | fixed k => trivial
      | stored s => exact hfits ▸ hscanned.1
      | literal v => exact hfits.2 ▸ hscanned.1.legible hfinite.1

/-- What is read from a text without an error is written with the kinds of its tokens. -/
theorem kinds_of_statements {s : String}
    (h : (Parse.ofTokens (Scan.ofString s).tokens).errors = []) :
    (Stmt.writtenAll (Parse.ofTokens (Scan.ofString s).tokens).statements).map Slot.kind =
      ((Scan.ofString s).tokens.takeWhile (!·.isEof)).map Token.kind :=
  (Grammar.writes_statements h).1.map_kind fun _ ht =>
    Token.hasValueOfKind_of_mem_tokens (List.takeWhile_subset _ ht)

theorem Stmt.legible_of_mem {a : Stmt} {ss : List Stmt} (h : Stmt.AllLegible ss) (ha : a ∈ ss) :
    a.Legible := by
  induction ss with
  | nil => cases ha
  | cons s ss ih =>
      rcases List.mem_cons.1 ha with rfl | ha
      · exact h.1
      · exact ih h.2 ha

/-- A statement that scanned tokens write is legible. -/
theorem Stmt.legible_of_writes {a : Stmt} {ss : List Stmt} {ts : List Token}
    (h : Writes (Stmt.writtenAll ss) ts ∧ Stmt.AllShaped ss) (hscanned : ∀ t ∈ ts, t.Scanned)
    (hfinite : ∀ t ∈ ts, t.isFinite) (ha : a ∈ ss) : a.Legible :=
  Stmt.legible_of_mem (Stmt.legible_of_writtenAll ss h.2 (h.1.legible hscanned hfinite)) ha

/-- What is read from a text without an error is legible. -/
theorem legible_of_mem_statements {s : String} {a : Stmt}
    (h : (Parse.ofTokens (Scan.ofString s).tokens).errors = [])
    (hfinite : ∀ t ∈ (Scan.ofString s).tokens, t.isFinite)
    (ha : a ∈ (Parse.ofTokens (Scan.ofString s).tokens).statements) : a.Legible := by
  have hmem : ∀ t ∈ (Grammar.Input.ofTokens (Scan.ofString s).tokens).body,
      t ∈ (Scan.ofString s).tokens := fun _ ht => List.takeWhile_subset _ ht
  refine Stmt.legible_of_writes (Grammar.writes_statements h) (fun t ht => ?_) (fun t ht => ?_) ha
  · exact Token.scanned_of_mem_tokens (hmem t ht) (Grammar.Input.isEof_of_mem_body ht)
  · exact hfinite t (hmem t ht)

/-- Legible statements with the same text are the same but for the places of their tokens. -/
theorem Stmt.relocate_eq_of_form {a b : Stmt} (ha : a.Legible) (hb : b.Legible)
    (h : a.form = b.form) : a.relocate Token.unplaced = b.relocate Token.unplaced := by
  have hterm : a.term = b.term :=
    Term.text_inj (wellFormed_term a ha) (wellFormed_term b hb)
      (by rw [← toList_form, ← toList_form, h])
  have hread := (ofTerm?_term a ha).symm
  rw [hterm, ofTerm?_term b hb] at hread
  exact Option.some.inj hread

/-- **No ambiguity.**  Two statements, each from a text that is read without an error and has only
finite numbers, have the same text if and only if they have the same nodes, operators, names and
values, wherever these stand. -/
theorem forms_unambiguous (s s' : String)
    (h : (Parse.ofTokens (Scan.ofString s).tokens).errors = [])
    (h' : (Parse.ofTokens (Scan.ofString s').tokens).errors = [])
    (hfinite : ∀ t ∈ (Scan.ofString s).tokens, t.isFinite)
    (hfinite' : ∀ t ∈ (Scan.ofString s').tokens, t.isFinite) (a b : Stmt)
    (ha : a ∈ (Parse.ofTokens (Scan.ofString s).tokens).statements)
    (hb : b ∈ (Parse.ofTokens (Scan.ofString s').tokens).statements) :
    a.form = b.form ↔ a.relocate Token.unplaced = b.relocate Token.unplaced := by
  constructor
  · exact Stmt.relocate_eq_of_form (legible_of_mem_statements h hfinite ha)
      (legible_of_mem_statements h' hfinite' hb)
  · intro heq
    rw [← Stmt.form_relocate Token.relocation_unplaced a, heq,
      Stmt.form_relocate Token.relocation_unplaced b]

/-- A text on one line, with a string that looks like a tree. -/
def oneLine : String := "if (ok) print \") (nil\"; else ok = 1.5;"

/-- The same statement on several lines. -/
def manyLines : String := "// ok\nif (ok)\n  print \") (nil\";\nelse\n  ok = 1.50;\n"

/-- Both are printed alike, and both are the same tree. -/
theorem forms_unambiguous_layout :
    (Parse.ofTokens (Scan.ofString oneLine).tokens).errors = [] ∧
      (Parse.ofTokens (Scan.ofString manyLines).tokens).errors = [] ∧
      (∀ t ∈ (Scan.ofString oneLine).tokens, t.isFinite) ∧
      (∀ t ∈ (Scan.ofString manyLines).tokens, t.isFinite) ∧
      ∃ a b, (Parse.ofTokens (Scan.ofString oneLine).tokens).statements = [a] ∧
        (Parse.ofTokens (Scan.ofString manyLines).tokens).statements = [b] ∧
        a.form = "(if ok (print \") (nil\") (expr (= ok 1.5)))" ∧
        a.form = b.form ∧ a.relocate Token.unplaced = b.relocate Token.unplaced := by
  have herrors : (Parse.ofTokens (Scan.ofString oneLine).tokens).errors = [] :=
    List.isEmpty_iff.1 (by decide +kernel)
  have herrors' : (Parse.ofTokens (Scan.ofString manyLines).tokens).errors = [] :=
    List.isEmpty_iff.1 (by decide +kernel)
  have hfinite : ∀ t ∈ (Scan.ofString oneLine).tokens, t.isFinite := by decide +kernel
  have hfinite' : ∀ t ∈ (Scan.ofString manyLines).tokens, t.isFinite := by decide +kernel
  have hforms : (Parse.ofTokens (Scan.ofString oneLine).tokens).statements.map Stmt.form =
      ["(if ok (print \") (nil\") (expr (= ok 1.5)))"] := by decide +kernel
  have hforms' : (Parse.ofTokens (Scan.ofString manyLines).tokens).statements.map Stmt.form =
      ["(if ok (print \") (nil\") (expr (= ok 1.5)))"] := by decide +kernel
  obtain ⟨a, ha, hform⟩ := List.map_eq_singleton_iff.1 hforms
  obtain ⟨b, hb, hform'⟩ := List.map_eq_singleton_iff.1 hforms'
  have hsame : a.form = b.form := hform.trans hform'.symm
  refine ⟨herrors, herrors', hfinite, hfinite', a, b, ha, hb, hform, hsame, ?_⟩
  exact (forms_unambiguous oneLine manyLines herrors herrors' hfinite hfinite' a b
    (by rw [ha]; exact List.mem_singleton_self a)
    (by rw [hb]; exact List.mem_singleton_self b)).1 hsame

end Lox
