import Lox.Grammar.Program
import Lox.Proofs.Grammar.Reader
import Lox.Proofs.Grammar.Writing

/-!
# Proofs — Grammar — The rules, read without an error

What one step of each rule of the grammar can be if no error is reported.  Every statement here is
an equivalence: to read a rule is to find its first tokens in front and to read its parts behind
them.  The token at the end of input is no part of any rule, which is what `last.kind = .eof`
stands for below.
-/

namespace Lox.Grammar
open Reader

variable {last : Token} {ts rest : List Token} {budget : Nat}

/-! ### Levels -/

/-- Only operators bind the operand in front of them. -/
theorem Level.lowest_below_ofKind {k : Token.Kind} :
    Level.lowest.below (.ofKind k) ↔ k = .equal ∨ k.isLogical ∨ k.isBinary := by
  cases k <;> decide

theorem Level.below_trans {a b c : Level} (h : a.below b) (h' : b.below c) : a.below c := by
  simp only [Level.below, decide_eq_true_eq] at h h' ⊢
  omega

theorem Level.lowest_below {a b : Level} (h : a.below b) : Level.lowest.below b := by
  have hz : Level.lowest.rank = 0 := rfl
  simp only [Level.below, decide_eq_true_eq] at h ⊢
  omega

/-- No operator binds as tightly as an operand holds together. -/
theorem Level.not_unary_below (k : Token.Kind) : ¬ Level.unary.below (.ofKind k) := by
  cases k <;> decide

theorem operation_of_isLogical {left right : Expr} {operator : Token}
    (h : operator.kind.isLogical) :
    operation left operator right = .logical left operator right := by
  rw [operation]
  split <;> simp_all [Token.Kind.isLogical]

theorem operation_of_isBinary {left right : Expr} {operator : Token}
    (h : operator.kind.isBinary) : operation left operator right = .binary left operator right := by
  rw [operation]
  split <;> simp_all [Token.Kind.isBinary]

/-- An operation is written as its operands around its operator. -/
theorem written_operation (left : Expr) (operator : Token) (right : Expr) :
    (operation left operator right).written = left.written ++ .stored operator :: right.written := by
  rw [operation]
  split <;> rfl

/-- A token in front that is no end of input is a token of the list. -/
theorem exists_cons_of_headD (hl : last.kind = .eof) {kind : Token.Kind}
    (h : (ts.headD last).kind = kind) (hk : kind ≠ .eof) : ∃ t us, ts = t :: us := by
  cases ts with
  | nil => exact absurd (h.symm.trans hl) hk
  | cons t us => exact ⟨t, us, rfl⟩

/-! ### Expressions -/

/-- Only a plain variable can be assigned to. -/
theorem yields_assignTo {target value e : Expr} {equals : Token} :
    (assignTo target equals value).Yields last ts e rest ↔
      ∃ name, target = .variable name ∧ e = .assign name value ∧ rest = ts := by
  cases target <;> simp [assignTo, yields_bind]

/-- What an operand is: an operator and an operand, a literal, a name, or an expression between
parentheses. -/
theorem operand_yields (hl : last.kind = .eof) {e : Expr} :
    (operand (budget + 1)).Yields last ts e rest ↔
      ∃ t us, ts = t :: us ∧
        ((t.kind.isUnary ∧ ∃ a, (operand budget).Yields last us a rest ∧ e = .unary t a) ∨
        (t.kind.isLiteral ∧ e = .literal (t.literal?.getD .nil) ∧ rest = us) ∨
        (t.kind = .identifier ∧ e = .variable t ∧ rest = us) ∨
        (t.kind = .leftParen ∧ ∃ first mid inner close,
          (operand budget).Yields last us first mid ∧
          (climb budget .lowest first).Yields last mid inner (close :: rest) ∧
          close.kind = .rightParen ∧ e = .grouping inner)) := by
  have hp : ∀ {us : List Token}, (do
        let first ← operand budget
        let inner ← climb budget .lowest first
        let _ ← expect .rightParen (.expectRightParen "expression")
        return .grouping inner : Reader Expr).Yields last us e rest ↔
      ∃ first mid inner close, (operand budget).Yields last us first mid ∧
        (climb budget .lowest first).Yields last mid inner (close :: rest) ∧
        close.kind = .rightParen ∧ e = .grouping inner := by
    intro us
    simp only [yields_bind, yields_pure, yields_expect hl, ne_eq, reduceCtorEq, not_false_eq_true]
    constructor
    · rintro ⟨first, mid, hf, inner, mid', hi, close, mid'', ⟨hk, rfl⟩, rfl, rfl⟩
      exact ⟨first, mid, inner, close, hf, hi, hk, rfl⟩
    · rintro ⟨first, mid, inner, close, hf, hi, hk, rfl⟩
      exact ⟨first, mid, hf, inner, _, hi, close, _, ⟨hk, rfl⟩, rfl, rfl⟩
  rw [operand, yields_peek_bind]
  cases ts with
  | nil => simp [hl]
  | cons t us =>
      simp only [List.headD_cons, List.cons.injEq]
      split <;> rename_i hk
      case h_1 | h_2 =>
        simp [hk, Token.Kind.isUnary, Token.Kind.isLiteral, yields_bind]
      case h_3 | h_4 | h_5 | h_6 | h_7 =>
        simp [hk, Token.Kind.isUnary, Token.Kind.isLiteral]
      case h_8 => simp [hk, Token.Kind.isUnary, Token.Kind.isLiteral]
      case h_9 =>
        simp [hk, Token.Kind.isUnary, Token.Kind.isLiteral, hp]
      case h_10 =>
        have hu : t.kind.isUnary = false := by
          cases hkind : t.kind <;> first | rfl | contradiction
        have hlit : t.kind.isLiteral = false := by
          cases hkind : t.kind <;> first | rfl | contradiction
        simp_all

/-- What stands behind an operand: nothing that binds tightly enough, or an operator with a right
operand, behind which the same is asked again. -/
theorem climb_yields (hl : last.kind = .eof) {level : Level} {left e : Expr} :
    (climb (budget + 1) level left).Yields last ts e rest ↔
      (¬ level.below (.ofKind (ts.headD last).kind) ∧ e = left ∧ rest = ts) ∨
      ∃ operator us first mid right mid', ts = operator :: us ∧
        level.below (.ofKind operator.kind) ∧ (operand budget).Yields last us first mid ∧
        ((operator.kind = .equal ∧ (climb budget .lowest first).Yields last mid right mid' ∧
          ∃ name, left = .variable name ∧
            (climb budget level (.assign name right)).Yields last mid' e rest) ∨
        (operator.kind ≠ .equal ∧
          (climb budget (.ofKind operator.kind) first).Yields last mid right mid' ∧
          (climb budget level (operation left operator right)).Yields last mid' e rest)) := by
  rw [climb, yields_peek_bind, yields_ite, or_comm]
  refine or_congr (by simp) ?_
  cases ts with
  | nil => simp [hl, Level.ofKind, Level.below, Level.rank]
  | cons operator us =>
      simp only [yields_advance_bind]
      simp only [yields_bind, yields_ite, yields_assignTo]
      simp only [List.headD_cons, List.tail_cons, List.cons.injEq]
      constructor
      · rintro ⟨hb, first, mid, hf, h | h⟩
        · obtain ⟨heq, right, mid', hr, e', mid'', ⟨name, rfl, rfl, rfl⟩, he⟩ := h
          exact ⟨operator, us, first, mid, right, _, ⟨rfl, rfl⟩, hb, hf,
            .inl ⟨heq, hr, name, rfl, he⟩⟩
        · obtain ⟨hne, right, mid', hr, he⟩ := h
          exact ⟨operator, us, first, mid, right, mid', ⟨rfl, rfl⟩, hb, hf, .inr ⟨hne, hr, he⟩⟩
      · rintro ⟨_, _, first, mid, right, mid', ⟨rfl, rfl⟩, hb, hf, h | h⟩
        · obtain ⟨heq, hr, name, rfl, he⟩ := h
          exact ⟨hb, first, mid, hf, .inl ⟨heq, right, mid', hr, _, _, ⟨name, rfl, rfl, rfl⟩, he⟩⟩
        · obtain ⟨hne, hr, he⟩ := h
          exact ⟨hb, first, mid, hf, .inr ⟨hne, right, mid', hr, he⟩⟩

/-- An expression is an operand and what stands behind it. -/
theorem expression_yields {e : Expr} :
    expression.Yields last ts e rest ↔ ∃ first mid, (operand ts.length).Yields last ts first mid ∧
      (climb ts.length .lowest first).Yields last mid e rest :=
  yields_bind

/-! ### Statements -/

/-- The word `var`, a name, perhaps `=` and an expression, and a semicolon. -/
theorem declaration_yields (hl : last.kind = .eof) {s : Stmt} :
    declaration.Yields last ts s rest ↔
      ∃ name us close, name.kind = .identifier ∧ close.kind = .semicolon ∧ ts.tail = name :: us ∧
        ((us = close :: rest ∧ s = .declare name none) ∨
        ∃ equals vs e, us = equals :: vs ∧ equals.kind = .equal ∧
          expression.Yields last vs e (close :: rest) ∧ s = .declare name (some e)) := by
  simp only [declaration, yields_advance_bind]
  simp only [yields_bind, yields_expect hl, ne_eq, reduceCtorEq, not_false_eq_true, yields_peek,
    yields_advance, yields_ite, yields_map, yields_pure]
  constructor
  · rintro ⟨name, us, ⟨hn, ht⟩, _, _, ⟨rfl, rfl⟩, h | h⟩
    · obtain ⟨heq, _, vs, ⟨-, rfl⟩, _, mid, ⟨e, he, rfl⟩, close, _, ⟨hk, rfl⟩, rfl, rfl⟩ := h
      obtain ⟨equals, vs, rfl⟩ := exists_cons_of_headD hl heq (by decide)
      exact ⟨name, _, close, hn, hk, ht, .inr ⟨equals, vs, e, rfl, heq, he, rfl⟩⟩
    · obtain ⟨-, _, _, ⟨rfl, rfl⟩, close, _, ⟨hk, rfl⟩, rfl, rfl⟩ := h
      exact ⟨name, _, close, hn, hk, ht, .inl ⟨rfl, rfl⟩⟩
  · rintro ⟨name, us, close, hn, hk, ht, ⟨rfl, rfl⟩ | ⟨equals, vs, e, rfl, heq, he, rfl⟩⟩
    · refine ⟨name, _, ⟨hn, ht⟩, _, _, ⟨rfl, rfl⟩, .inr ⟨?_, none, _, ⟨rfl, rfl⟩, ?_⟩⟩
      · simp [hk]
      · exact ⟨close, _, ⟨hk, rfl⟩, rfl, rfl⟩
    · exact ⟨name, _, ⟨hn, ht⟩, _, _, ⟨rfl, rfl⟩,
        .inl ⟨heq, _, _, ⟨rfl, rfl⟩, _, _, ⟨e, he, rfl⟩, close, _, ⟨hk, rfl⟩, rfl, rfl⟩⟩

/-- The word `print`, an expression and a semicolon. -/
theorem printStatement_yields (hl : last.kind = .eof) {s : Stmt} :
    printStatement.Yields last ts s rest ↔
      ∃ e close, expression.Yields last ts.tail e (close :: rest) ∧ close.kind = .semicolon ∧
        s = .print (ts.headD last) e := by
  simp only [printStatement, yields_advance_bind]
  simp only [yields_bind, yields_expect hl, ne_eq, reduceCtorEq, not_false_eq_true, yields_pure]
  constructor
  · rintro ⟨e, mid, he, close, mid', ⟨hk, rfl⟩, rfl, rfl⟩
    exact ⟨e, close, he, hk, rfl⟩
  · rintro ⟨e, close, he, hk, rfl⟩
    exact ⟨e, _, he, close, _, ⟨hk, rfl⟩, rfl, rfl⟩

/-- An expression and a semicolon. -/
theorem expressionStatement_yields (hl : last.kind = .eof) {s : Stmt} :
    expressionStatement.Yields last ts s rest ↔
      ∃ e close, expression.Yields last ts e (close :: rest) ∧ close.kind = .semicolon ∧
        s = .expression e := by
  simp only [expressionStatement, yields_bind, yields_expect hl, ne_eq, reduceCtorEq,
    not_false_eq_true, yields_pure]
  constructor
  · rintro ⟨e, mid, he, close, mid', ⟨hk, rfl⟩, rfl, rfl⟩
    exact ⟨e, close, he, hk, rfl⟩
  · rintro ⟨e, close, he, hk, rfl⟩
    exact ⟨e, _, he, close, _, ⟨hk, rfl⟩, rfl, rfl⟩

/-- The word `if` and an expression between parentheses. -/
theorem ifCondition_yields (hl : last.kind = .eof) {e : Expr} :
    ifCondition.Yields last ts e rest ↔
      ∃ opening us close, ts.tail = opening :: us ∧ opening.kind = .leftParen ∧
        expression.Yields last us e (close :: rest) ∧ close.kind = .rightParen := by
  simp only [ifCondition, yields_advance_bind]
  simp only [yields_bind, yields_expect hl, ne_eq, reduceCtorEq, not_false_eq_true, yields_pure]
  constructor
  · rintro ⟨opening, us, ⟨hk, ht⟩, e, mid, he, close, mid', ⟨hk', rfl⟩, rfl, rfl⟩
    exact ⟨opening, us, close, ht, hk, he, hk'⟩
  · rintro ⟨opening, us, close, ht, hk, he, hk'⟩
    exact ⟨opening, us, ⟨hk, ht⟩, e, _, he, close, _, ⟨hk', rfl⟩, rfl, rfl⟩

/-- A condition with a branch, and another branch if and only if the word `else` follows. -/
theorem conditional_yields (hl : last.kind = .eof) (hk : (ts.headD last).kind = .kwIf) {s : Stmt} :
    (statement (budget + 1)).Yields last ts s rest ↔
      ∃ c mid s₁ mid₁, ifCondition.Yields last ts c mid ∧
        (statement budget).Yields last mid s₁ mid₁ ∧
        (((mid₁.headD last).kind ≠ .kwElse ∧ s = .conditional c s₁ none ∧ rest = mid₁) ∨
        ∃ word us s₂, mid₁ = word :: us ∧ word.kind = .kwElse ∧
          (statement budget).Yields last us s₂ rest ∧ s = .conditional c s₁ (some s₂)) := by
  rw [statement, yields_peek_bind, hk]
  simp only [yields_bind, yields_peek, yields_advance, yields_ite, yields_pure]
  constructor
  · rintro ⟨c, mid, hc, s₁, mid₁, hs₁, _, _, ⟨rfl, rfl⟩, h | ⟨hne, rfl, rfl⟩⟩
    · obtain ⟨he, _, _, ⟨rfl, rfl⟩, s₂, mid₂, hs₂, rfl, rfl⟩ := h
      obtain ⟨word, us, rfl⟩ := exists_cons_of_headD hl he (by decide)
      exact ⟨c, mid, s₁, _, hc, hs₁, .inr ⟨word, us, s₂, rfl, he, hs₂, rfl⟩⟩
    · exact ⟨c, mid, s₁, _, hc, hs₁, .inl ⟨hne, rfl, rfl⟩⟩
  · rintro ⟨c, mid, s₁, mid₁, hc, hs₁, ⟨hne, rfl, rfl⟩ | ⟨word, us, s₂, rfl, he, hs₂, rfl⟩⟩
    · exact ⟨c, mid, hc, s₁, _, hs₁, _, _, ⟨rfl, rfl⟩, .inr ⟨hne, rfl, rfl⟩⟩
    · exact ⟨c, mid, hc, s₁, _, hs₁, _, _, ⟨rfl, rfl⟩,
        .inl ⟨he, _, _, ⟨rfl, rfl⟩, s₂, _, hs₂, rfl, rfl⟩⟩

/-- Declarations between braces. -/
theorem block_yields (hl : last.kind = .eof) (hk : (ts.headD last).kind = .leftBrace) {s : Stmt} :
    (statement (budget + 1)).Yields last ts s rest ↔
      ∃ body close, (declarations budget .block).Yields last ts.tail body (close :: rest) ∧
        close.kind = .rightBrace ∧ s = .block body := by
  rw [statement, yields_peek_bind, hk]
  simp only [yields_advance_bind]
  simp only [yields_bind, yields_expect hl, ne_eq, reduceCtorEq, not_false_eq_true, yields_pure]
  constructor
  · rintro ⟨body, mid, hb, close, _, ⟨hk, rfl⟩, rfl, rfl⟩
    exact ⟨body, close, hb, hk, rfl⟩
  · rintro ⟨body, close, hb, hk, rfl⟩
    exact ⟨body, _, hb, close, _, ⟨hk, rfl⟩, rfl, rfl⟩

theorem print_yields (hk : (ts.headD last).kind = .kwPrint) {s : Stmt} :
    (statement (budget + 1)).Yields last ts s rest ↔ printStatement.Yields last ts s rest := by
  rw [statement, yields_peek_bind, hk]

/-- Every other statement is an expression. -/
theorem other_yields (hi : (ts.headD last).kind ≠ .kwIf) (hp : (ts.headD last).kind ≠ .kwPrint)
    (hb : (ts.headD last).kind ≠ .leftBrace) {s : Stmt} :
    (statement (budget + 1)).Yields last ts s rest ↔ expressionStatement.Yields last ts s rest := by
  rw [statement, yields_peek_bind]
  split
  · exact absurd ‹_› hi
  · exact absurd ‹_› hp
  · exact absurd ‹_› hb
  · rfl

/-- Declarations: none at the end of their enclosure, otherwise one and those behind it. -/
theorem declarations_yields {enclosure : Enclosure} {ss : List Stmt} :
    (declarations (budget + 1) enclosure).Yields last ts ss rest ↔
      (enclosure.endsBefore (ts.headD last) ∧ ss = [] ∧ rest = ts) ∨
      (¬ enclosure.endsBefore (ts.headD last) ∧ ∃ s mid others,
        (((ts.headD last).kind = .kwVar ∧ declaration.Yields last ts s mid) ∨
          ((ts.headD last).kind ≠ .kwVar ∧ (statement budget).Yields last ts s mid)) ∧
        (declarations budget enclosure).Yields last mid others rest ∧ ss = s :: others) := by
  rw [declarations, yields_peek_bind, yields_ite]
  refine or_congr (by simp) (and_congr_right fun _ => ?_)
  simp only [yields_bind, yields_recovering, yields_ite, yields_pure]
  constructor
  · rintro ⟨_, mid, ⟨s, rfl, hs⟩, others, _, ho, rfl, rfl⟩
    exact ⟨s, mid, others, hs, ho, rfl⟩
  · rintro ⟨s, mid, others, hs, ho, rfl⟩
    exact ⟨_, mid, ⟨s, rfl, hs⟩, others, _, ho, rfl, rfl⟩

/-! ### Programs -/

/-- A list of declarations is read to its end, whatever is wrong with it. -/
theorem declarations_total (enclosure : Enclosure) : (declarations budget enclosure).Total := by
  induction budget with
  | zero => exact .pure []
  | succ budget ih =>
      rw [declarations]
      refine .bind .peek fun front => ?_
      split
      · exact .pure []
      · exact .bind (.recovering _) fun first? => .bind ih fun others => .pure _

/-- A token list without an error is one whose program is read without an error. -/
theorem errors_eq_nil_iff {ts : List Token} {ss : List Stmt} :
    (Parse.ofTokens ts).errors = [] ∧ (Parse.ofTokens ts).statements = ss ↔
      ∃ rest, program.Yields (Input.ofTokens ts).last (Input.ofTokens ts).body ss rest := by
  obtain ⟨ss', hss'⟩ : ∃ ss', (program (Input.ofTokens ts).last (Input.ofTokens ts).body).result
      = .ok ss' := declarations_total .program _ _
  have herr : (Parse.ofTokens ts).errors = [] ↔
      ∀ e, Notice.error e ∉ (program (Input.ofTokens ts).last (Input.ofTokens ts).body).notices := by
    rw [Parse.errors, List.filterMap_eq_nil_iff]
    constructor
    · intro h e he
      cases h _ he
    · intro h n hn
      cases n with
      | error e => exact absurd hn (h e)
      | resumed => rfl
  rw [herr]
  have hst : (Parse.ofTokens ts).statements = ss' := by
    rw [Parse.ofTokens]
    simp only [hss', Except.toOption, Option.getD_some]
  rw [hst]
  constructor
  · rintro ⟨h, rfl⟩
    exact ⟨_, _, by rw [← hss'], h⟩
  · rintro ⟨rest, n, hr, hn⟩
    rw [hr] at hss' ⊢
    cases hss'
    exact ⟨hn, rfl⟩

end Lox.Grammar
