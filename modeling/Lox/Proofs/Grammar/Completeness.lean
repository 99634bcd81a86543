import Lox.Proofs.Grammar.Soundness

/-!
# Proofs — Grammar — What is written is read

**Completeness** (`parse_written`).  Statements of the grammar's shape, written out and followed by
an end of input, are read back without an error, and nothing else is read.

The proof follows the trees.  What stands behind an expression decides where it ends, so every
statement below leaves the tokens behind it open.  For an operation, the left operand is read by the
same call that goes on with the operator; so the statement about an expression is not that it is
read, but that reading it comes to reading what is behind it with the expression on the left
(`Reaches`).
-/

namespace Lox.Grammar
open Reader

variable {last : Token} {ts rest : List Token} {budget : Nat}

/-- A budget for a token and those behind it. -/
theorem exists_succ_of_length_le {t : Token} {n : Nat} (h : (t :: ts ++ rest).length ≤ n) :
    ∃ m, n = m + 1 ∧ (ts ++ rest).length ≤ m := by
  rw [List.cons_append, List.length_cons] at h
  exact ⟨n - 1, by omega, by omega⟩

/-! ### Expressions -/

/-- An operand and the loop behind it, in front of `ts`, come to the loop behind `e`, in front of
`rest`. -/
def Reaches (last : Token) (budget : Nat) (level : Level) (e : Expr) (ts rest : List Token) :
    Prop :=
  ∃ first mid budget', (operand budget).Yields last ts first mid ∧ rest.length ≤ budget' ∧
    ∀ x behind, (climb budget' level e).Yields last rest x behind →
      (climb budget level first).Yields last mid x behind

/-- The written expression is read where an operand is. -/
def OperandComplete (last : Token) (e : Expr) : Prop :=
  ∀ us rest budget, Writes e.written us → (us ++ rest).length ≤ budget →
    (operand budget).Yields last (us ++ rest) e rest

/-- The written expression is read at every level below its own, if the token behind it is not one
that it would take. -/
def ClimbComplete (last : Token) (e : Expr) : Prop :=
  ∀ level us rest budget, Writes e.written us → level.below e.level →
    ¬ e.reach.below (.ofKind (rest.headD last).kind) → (us ++ rest).length ≤ budget →
    Reaches last budget level e (us ++ rest) rest

/-- The loop stops where no operator binds tightly enough. -/
theorem climb_stops (hl : last.kind = .eof) {level : Level} (e : Expr)
    (h : ¬ level.below (.ofKind (rest.headD last).kind)) (budget : Nat) :
    (climb budget level e).Yields last rest e rest := by
  cases budget with
  | zero => exact yields_pure.2 ⟨rfl, rfl⟩
  | succ budget => exact (climb_yields hl).2 (.inl ⟨h, rfl, rfl⟩)

theorem Reaches.yields (hl : last.kind = .eof) {level : Level} {e : Expr}
    (h : Reaches last budget level e ts rest)
    (hend : ¬ level.below (.ofKind (rest.headD last).kind)) :
    ∃ first mid, (operand budget).Yields last ts first mid ∧
      (climb budget level first).Yields last mid e rest := by
  obtain ⟨first, mid, budget', hf, -, h⟩ := h
  exact ⟨first, mid, hf, h _ _ (climb_stops hl e hend budget')⟩

theorem OperandComplete.climbComplete {e : Expr} (h : OperandComplete last e) :
    ClimbComplete last e := by
  intro level us rest budget hw _ _ hb
  refine ⟨e, rest, budget, h us rest budget hw hb, ?_, fun x behind hx => hx⟩
  rw [List.length_append] at hb
  omega

/-- Expressions hold together more tightly than nothing. -/
theorem lowest_below_level {e : Expr} (h : e.Shaped) : Level.lowest.below e.level := by
  cases e with
  | binary l operator r => exact Level.lowest_below_ofKind.2 (.inr (.inr h.1))
  | logical l operator r => exact Level.lowest_below_ofKind.2 (.inr (.inl h.1))
  | _ => rfl

/-- Where no operator follows, an expression reaches no further. -/
theorem not_reach_below (e : Expr) {l : Level} (h : ¬ Level.lowest.below l) :
    ¬ e.reach.below l := by
  intro h'
  exact h (Level.lowest_below h')

/-- An expression that holds together as tightly as an operator of two operands binds is no
assignment, and so reaches as far as its level. -/
theorem reach_eq_level {e : Expr} {l : Level} (h : Level.assign.below l) (he : ¬ e.level.below l) :
    e.reach = e.level := by
  cases e with
  | assign name value => exact absurd h he
  | _ => rfl

theorem assign_below_ofKind {k : Token.Kind} (h : k.isLogical ∨ k.isBinary) :
    Level.assign.below (.ofKind k) := by
  cases k <;> revert h <;> decide

/-- A literal token is an operand. -/
theorem operandComplete_literal (hl : last.kind = .eof) (v : Value) :
    OperandComplete last (.literal v) := by
  intro us rest budget hw hb
  obtain ⟨t, vs, rfl, ⟨hk, rfl⟩, hvs⟩ := Writes.cons_iff.1 hw
  obtain rfl := Writes.nil_iff.1 hvs
  obtain ⟨budget, rfl, hlen⟩ := exists_succ_of_length_le hb
  exact (operand_yields hl).2 ⟨t, rest, rfl, .inr (.inl ⟨hk, rfl, rfl⟩)⟩

/-- A name is an operand. -/
theorem operandComplete_variable (hl : last.kind = .eof) {name : Token}
    (hn : name.kind = .identifier) : OperandComplete last (.variable name) := by
  intro us rest budget hw hb
  obtain ⟨t, vs, rfl, rfl, hvs⟩ := Writes.cons_iff.1 hw
  obtain rfl := Writes.nil_iff.1 hvs
  obtain ⟨budget, rfl, hlen⟩ := exists_succ_of_length_le hb
  exact (operand_yields hl).2 ⟨_, rest, rfl, .inr (.inr (.inl ⟨hn, rfl, rfl⟩))⟩

/-- An operand stays one behind `!` and `-`. -/
theorem operandComplete_unary (hl : last.kind = .eof) {operator : Token} {e : Expr}
    (hk : operator.kind.isUnary) (he : OperandComplete last e) :
    OperandComplete last (.unary operator e) := by
  intro us rest budget hw hb
  obtain ⟨t, vs, rfl, rfl, hvs⟩ := Writes.cons_iff.1 hw
  obtain ⟨budget, rfl, hlen⟩ := exists_succ_of_length_le hb
  refine (operand_yields hl).2 ⟨_, vs ++ rest, rfl, .inl ⟨hk, e, ?_, rfl⟩⟩
  exact he vs rest budget hvs hlen

/-- Between parentheses every expression is an operand. -/
theorem operandComplete_grouping (hl : last.kind = .eof) {e : Expr} (hs : e.Shaped)
    (he : ClimbComplete last e) : OperandComplete last (.grouping e) := by
  intro us rest budget hw hb
  obtain ⟨t, vs, rfl, ht, hvs⟩ := Writes.cons_iff.1 hw
  obtain ⟨vs, ws, rfl, he', hws⟩ := Writes.append_iff.1 hvs
  obtain ⟨close, ws, rfl, hclose, hws⟩ := Writes.cons_iff.1 hws
  obtain rfl := Writes.nil_iff.1 hws
  obtain ⟨budget, rfl, hlen⟩ := exists_succ_of_length_le hb
  have hstop : ¬ Level.lowest.below (.ofKind ((close :: rest).headD last).kind) := by
    rw [List.headD_cons, show close.kind = .rightParen from hclose]
    decide
  have happ : vs ++ [close] ++ rest = vs ++ close :: rest := by simp
  rw [happ] at hlen
  obtain ⟨first, mid, hf, hi⟩ := (he .lowest vs (close :: rest) budget he'
    (lowest_below_level hs) (not_reach_below e hstop) hlen).yields hl hstop
  refine (operand_yields hl).2 ⟨t, vs ++ close :: rest, by simp, .inr (.inr (.inr ⟨ht, ?_⟩))⟩
  exact ⟨first, mid, e, close, hf, hi, hclose, rfl⟩

/-- An operation is reached through its left operand, behind which the loop takes the operator and
the right operand. -/
theorem climbComplete_operation (hl : last.kind = .eof) {l r : Expr} {operator : Token}
    (hk : operator.kind.isLogical ∨ operator.kind.isBinary) (hj : Expr.Joins l operator r)
    (hlc : ClimbComplete last l) (hrc : ClimbComplete last r) :
    ClimbComplete last (operation l operator r) := by
  have hassign := assign_below_ofKind hk
  have hne : operator.kind ≠ .equal := by
    intro h
    rw [h] at hassign
    exact absurd hassign (by decide)
  have hlevel : (operation l operator r).level = .ofKind operator.kind ∧
      (operation l operator r).reach = .ofKind operator.kind := by
    rw [operation]
    split <;> exact ⟨rfl, rfl⟩
  intro level us rest budget hw hbelow hend hb
  rw [written_operation] at hw
  rw [hlevel.1] at hbelow
  rw [hlevel.2] at hend
  obtain ⟨ls, vs, rfl, hls, hvs⟩ := Writes.append_iff.1 hw
  obtain ⟨t, rs, rfl, ht, hrs⟩ := Writes.cons_iff.1 hvs
  obtain rfl : operator = t := ht.symm
  simp only [List.append_assoc, List.cons_append] at hb ⊢
  -- the left operand, behind which the operator follows
  have hlb : level.below l.level := by
    have := hj.1
    simp only [Level.below, decide_eq_true_eq] at this hbelow ⊢
    omega
  have hlr : ¬ l.reach.below (.ofKind operator.kind) := by
    rw [reach_eq_level hassign hj.1]
    exact hj.1
  obtain ⟨first, mid, b, hf, hlen, hloop⟩ := hlc level ls (operator :: rs ++ rest) budget hls hlb
    hlr hb
  obtain ⟨b, rfl, hlen'⟩ := exists_succ_of_length_le hlen
  -- the right operand, behind which nothing follows that binds more tightly than the operator
  have hrr : ¬ r.reach.below (.ofKind (rest.headD last).kind) := by
    have hr : ¬ r.level.below (.ofKind operator.kind) := by
      have := hj.2
      simp only [Level.below, decide_eq_true_eq] at this ⊢
      omega
    rw [reach_eq_level hassign hr]
    have := hj.2
    simp only [Level.below, decide_eq_true_eq] at this hend ⊢
    omega
  obtain ⟨first', mid', hf', hr'⟩ := (hrc _ rs rest b hrs hj.2 hrr hlen').yields hl hend
  refine ⟨first, mid, b, hf, ?_, fun x behind hx => hloop x behind ?_⟩
  · rw [List.length_append] at hlen'
    omega
  · exact (climb_yields hl).2 (.inr ⟨operator, rs ++ rest, first', mid', r, rest, rfl, hbelow, hf',
      .inr ⟨hne, hr', hx⟩⟩)

/-- An assignment is reached through its name, behind which the loop takes `=` and the value. -/
theorem climbComplete_assign (hl : last.kind = .eof) {name : Token} {e : Expr}
    (hn : name.kind = .identifier) (hs : e.Shaped) (he : ClimbComplete last e) :
    ClimbComplete last (.assign name e) := by
  intro level us rest budget hw hbelow hend hb
  obtain ⟨t, vs, rfl, ht, hvs⟩ := Writes.cons_iff.1 hw
  obtain rfl : name = t := ht.symm
  obtain ⟨equals, vs, rfl, heq, hvs⟩ := Writes.cons_iff.1 hvs
  have hname : (operand budget).Yields last (name :: equals :: vs ++ rest) (.variable name)
      (equals :: vs ++ rest) :=
    operandComplete_variable hl hn [name] (equals :: vs ++ rest) budget (.cons rfl .nil) hb
  obtain ⟨budget, rfl, hlen⟩ := exists_succ_of_length_le hb
  have hlen' : (vs ++ rest).length ≤ budget := Nat.le_of_succ_le hlen
  obtain ⟨first, mid, hf, hi⟩ := (he .lowest vs rest budget hvs (lowest_below_level hs)
    (not_reach_below e hend) hlen').yields hl hend
  refine ⟨.variable name, equals :: vs ++ rest, budget, hname, ?_, fun x behind hx => ?_⟩
  · rw [List.length_append] at hlen'
    omega
  · refine (climb_yields hl).2 (.inr ⟨equals, vs ++ rest, first, mid, e, rest, rfl, ?_, hf,
      .inl ⟨heq, hi, name, rfl, hx⟩⟩)
    rw [show equals.kind = .equal from heq]
    exact hbelow

theorem climbComplete_operandComplete (hl : last.kind = .eof) (e : Expr) (hs : e.Shaped) :
    ClimbComplete last e ∧ (e.level = .unary → OperandComplete last e) := by
  have operation_level : ∀ k : Token.Kind, Level.ofKind k ≠ .unary := by
    intro k
    cases k <;> decide
  induction e with
  | literal v =>
      have h := operandComplete_literal hl v
      exact ⟨h.climbComplete, fun _ => h⟩
  | «variable» name =>
      have h := operandComplete_variable hl hs
      exact ⟨h.climbComplete, fun _ => h⟩
  | grouping e ih =>
      have hs : e.Shaped := hs
      have h := operandComplete_grouping hl hs (ih hs).1
      exact ⟨h.climbComplete, fun _ => h⟩
  | unary operator e ih =>
      obtain ⟨hk, hu, hs⟩ := hs
      have h := operandComplete_unary hl hk ((ih hs).2 hu)
      exact ⟨h.climbComplete, fun _ => h⟩
  | binary l operator r ihl ihr =>
      obtain ⟨hk, hj, hls, hrs⟩ := hs
      refine ⟨?_, fun hu => absurd hu (operation_level _)⟩
      have h := climbComplete_operation hl (.inr hk) hj (ihl hls).1 (ihr hrs).1
      rwa [operation_of_isBinary hk] at h
  | logical l operator r ihl ihr =>
      obtain ⟨hk, hj, hls, hrs⟩ := hs
      refine ⟨?_, fun hu => absurd hu (operation_level _)⟩
      have h := climbComplete_operation hl (.inl hk) hj (ihl hls).1 (ihr hrs).1
      rwa [operation_of_isLogical hk] at h
  | assign name e ih =>
      exact ⟨climbComplete_assign hl hs.1 hs.2 (ih hs.2).1, fun hu => by cases hu⟩

/-- A written expression is read back in front of a token that is no operator. -/
theorem expression_complete (hl : last.kind = .eof) {e : Expr} {us : List Token} {close : Token}
    (hs : e.Shaped) (hw : Writes e.written us) (hclose : Level.ofKind close.kind = .lowest) :
    expression.Yields last (us ++ close :: rest) e (close :: rest) := by
  have hend : ¬ Level.lowest.below (.ofKind ((close :: rest).headD last).kind) := by
    rw [List.headD_cons, hclose]
    decide
  exact expression_yields.2 (((climbComplete_operandComplete hl e hs).1 .lowest us (close :: rest) _
    hw (lowest_below_level hs) (not_reach_below e hend) (Nat.le_refl _)).yields hl hend)

/-! ### First tokens -/

/-- The kinds of token that an expression may start with. -/
def startsExpression (k : Token.Kind) : Bool :=
  k.isUnary || k.isLiteral || k = .identifier || k = .leftParen

theorem first_of_expression : ∀ {e : Expr} {us : List Token}, e.Shaped → Writes e.written us →
    ∃ t vs, us = t :: vs ∧ startsExpression t.kind
  | .literal _, _, _, hw => by
      obtain ⟨t, vs, rfl, ⟨hk, -⟩, -⟩ := Writes.cons_iff.1 hw
      exact ⟨t, vs, rfl, by simp [startsExpression, hk]⟩
  | .variable _, _, hs, hw | .assign _ _, _, ⟨hs, _⟩, hw => by
      obtain ⟨t, vs, rfl, rfl, -⟩ := Writes.cons_iff.1 hw
      exact ⟨_, vs, rfl, by simp [startsExpression, show t.kind = .identifier from hs]⟩
  | .grouping _, _, _, hw => by
      obtain ⟨t, vs, rfl, hk, -⟩ := Writes.cons_iff.1 hw
      exact ⟨t, vs, rfl, by simp [startsExpression, show t.kind = .leftParen from hk]⟩
  | .unary _ _, _, ⟨hk, _⟩, hw => by
      obtain ⟨t, vs, rfl, rfl, -⟩ := Writes.cons_iff.1 hw
      exact ⟨_, vs, rfl, by simp [startsExpression, hk]⟩
  | .binary _ _ _, _, ⟨_, _, hs, _⟩, hw | .logical _ _ _, _, ⟨_, _, hs, _⟩, hw => by
      obtain ⟨ls, rs, rfl, hls, -⟩ := Writes.append_iff.1 hw
      obtain ⟨t, vs, rfl, hk⟩ := first_of_expression hs hls
      exact ⟨t, vs ++ rs, rfl, hk⟩

/-- The kinds of token that a statement may start with. -/
def Starts : Stmt → Token.Kind → Prop
  | .expression _, k => startsExpression k
  | .print _ _, k => k = .kwPrint
  | .declare _ _, k => k = .kwVar
  | .block _, k => k = .leftBrace
  | .conditional _ _ _, k => k = .kwIf

theorem first_of_statement {s : Stmt} {us : List Token} (hs : s.Shaped)
    (hw : Writes s.written us) : ∃ t vs, us = t :: vs ∧ Starts s t.kind := by
  match s with
  | .expression e =>
      obtain ⟨es, vs, rfl, hes, -⟩ := Writes.append_iff.1 hw
      obtain ⟨t, es, rfl, hk⟩ := first_of_expression hs hes
      exact ⟨t, es ++ vs, rfl, hk⟩
  | .print keyword e =>
      obtain ⟨t, vs, rfl, rfl, -⟩ := Writes.cons_iff.1 hw
      exact ⟨_, vs, rfl, hs.1⟩
  | .declare name none | .declare name (some e) | .block body | .conditional c s none
  | .conditional c s (some t) =>
      obtain ⟨t, vs, rfl, hk, -⟩ := Writes.cons_iff.1 hw
      exact ⟨t, vs, rfl, hk⟩

/-- No statement starts with `else`, with a closing brace or with the end of input, and only
declarations start with `var`. -/
theorem Starts.kind_ne {s : Stmt} {k : Token.Kind} (h : Starts s k) :
    k ≠ .kwElse ∧ k ≠ .rightBrace ∧ k ≠ .eof ∧ (k = .kwVar ↔ s.isDeclaration) := by
  cases s with
  | expression e =>
      have h : startsExpression k := h
      cases k <;> first | exact absurd h (by decide) | simp [Stmt.isDeclaration]
  | _ => rw [show k = _ from h]; simp [Stmt.isDeclaration]

/-! ### Statements -/

/-- The written statement is read, if no `else` follows that it would take. -/
def StatementComplete (last : Token) (s : Stmt) : Prop :=
  ∀ us rest budget, Writes s.written us → 2 * (us ++ rest).length ≤ budget + 1 →
    (s.endsOpen → (rest.headD last).kind ≠ .kwElse) →
      (statement budget).Yields last (us ++ rest) s rest

/-- The written statements are read, if their enclosure ends behind them. -/
def DeclarationsComplete (last : Token) (ss : List Stmt) : Prop :=
  ∀ enclosure us rest budget, Writes (Stmt.writtenAll ss) us → 2 * (us ++ rest).length ≤ budget →
    enclosure.endsBefore (rest.headD last) →
      (declarations budget enclosure).Yields last (us ++ rest) ss rest

/-- What is written and closed by a mark is an expression in front of that mark. -/
theorem closed_expression (hl : last.kind = .eof) (rest : List Token) {e : Expr} {us : List Token}
    {k : Token.Kind} (hk : Level.ofKind k = .lowest) (hs : e.Shaped)
    (hw : Writes (e.written ++ [.fixed k]) us) :
    ∃ close, close.kind = k ∧ expression.Yields last (us ++ rest) e (close :: rest) := by
  obtain ⟨es, vs, rfl, hes, hvs⟩ := Writes.append_iff.1 hw
  obtain ⟨close, vs, rfl, hclose, hvs⟩ := Writes.cons_iff.1 hvs
  obtain rfl := Writes.nil_iff.1 hvs
  have hclose : close.kind = k := hclose
  refine ⟨close, hclose, ?_⟩
  rw [List.append_assoc]
  exact expression_complete hl hs hes (hclose ▸ hk)

theorem declaration_complete (hl : last.kind = .eof) {name : Token} {initializer? : Option Expr}
    {us : List Token} (hs : (Stmt.declare name initializer?).Shaped)
    (hw : Writes (Stmt.declare name initializer?).written us) :
    declaration.Yields last (us ++ rest) (.declare name initializer?) rest := by
  cases initializer? with
  | none =>
      obtain ⟨t, us, rfl, -, hw₁⟩ := Writes.cons_iff.1 hw
      obtain ⟨u, us, rfl, rfl, hw₂⟩ := Writes.cons_iff.1 hw₁
      obtain ⟨close, us, rfl, hclose, hw₃⟩ := Writes.cons_iff.1 hw₂
      obtain rfl := Writes.nil_iff.1 hw₃
      exact (declaration_yields hl).2 ⟨_, close :: rest, close, hs, hclose, rfl, .inl ⟨rfl, rfl⟩⟩
  | some e =>
      obtain ⟨t, us, rfl, -, hw₁⟩ := Writes.cons_iff.1 hw
      obtain ⟨u, us, rfl, rfl, hw₂⟩ := Writes.cons_iff.1 hw₁
      obtain ⟨equals, us, rfl, heq, hw₃⟩ := Writes.cons_iff.1 hw₂
      obtain ⟨close, hclose, he⟩ := closed_expression hl rest (by decide) hs.2 hw₃
      exact (declaration_yields hl).2 ⟨_, equals :: (us ++ rest), close, hs.1, hclose, rfl,
        .inr ⟨equals, us ++ rest, e, rfl, heq, he, rfl⟩⟩

theorem ifCondition_complete (hl : last.kind = .eof) {c : Expr} {us : List Token} (hs : c.Shaped)
    (hw : Writes (.fixed .kwIf :: .fixed .leftParen :: (c.written ++ [.fixed .rightParen])) us) :
    ifCondition.Yields last (us ++ rest) c rest := by
  obtain ⟨t, us, rfl, -, hw⟩ := Writes.cons_iff.1 hw
  obtain ⟨opening, us, rfl, hopening, hw⟩ := Writes.cons_iff.1 hw
  obtain ⟨close, hclose, hc⟩ := closed_expression hl rest (by decide) hs hw
  exact (ifCondition_yields hl).2 ⟨opening, us ++ rest, close, rfl, hopening, hc, hclose⟩

/-- A statement has a budget of its own. -/
theorem exists_succ_of_statement {us : List Token} {s : Stmt} (hs : s.Shaped)
    (hw : Writes s.written us) (hb : 2 * (us ++ rest).length ≤ budget + 1) :
    ∃ b, budget = b + 1 := by
  obtain ⟨t, vs, rfl, -⟩ := first_of_statement hs hw
  simp only [List.cons_append, List.length_cons] at hb
  exact ⟨budget - 1, by omega⟩

theorem statementComplete_expression (hl : last.kind = .eof) {e : Expr} (hs : e.Shaped) :
    StatementComplete last (.expression e) := by
  intro us rest budget hw hb _
  obtain ⟨budget, rfl⟩ := exists_succ_of_statement (s := .expression e) hs hw hb
  obtain ⟨close, hclose, he⟩ := closed_expression hl rest (by decide) hs hw
  obtain ⟨t, vs, rfl, hk⟩ := first_of_statement (s := .expression e) hs hw
  have hne : ∀ k, startsExpression k = false → ((t :: vs ++ rest).headD last).kind ≠ k := by
    rintro k hk' rfl
    exact absurd (hk'.symm.trans hk) (by decide)
  refine (other_yields (hne _ (by decide)) (hne _ (by decide)) (hne _ (by decide))).2 ?_
  exact (expressionStatement_yields hl).2 ⟨e, close, he, hclose, rfl⟩

theorem statementComplete_print (hl : last.kind = .eof) {keyword : Token} {e : Expr}
    (hk : keyword.kind = .kwPrint) (hs : e.Shaped) : StatementComplete last (.print keyword e) := by
  intro us rest budget hw hb _
  obtain ⟨budget, rfl⟩ := exists_succ_of_statement (s := .print keyword e) ⟨hk, hs⟩ hw hb
  obtain ⟨t, us, rfl, rfl, hw'⟩ := Writes.cons_iff.1 hw
  obtain ⟨close, hclose, he⟩ := closed_expression hl rest (by decide) hs hw'
  refine (print_yields ?_).2 ((printStatement_yields hl).2 ⟨e, close, he, hclose, rfl⟩)
  exact hk

theorem statementComplete_block (hl : last.kind = .eof) {body : List Stmt}
    (hs : (Stmt.block body).Shaped) (hbody : DeclarationsComplete last body) :
    StatementComplete last (.block body) := by
  intro us rest budget hw hb _
  obtain ⟨budget, rfl⟩ := exists_succ_of_statement hs hw hb
  obtain ⟨t, us, rfl, ht, hw₁⟩ := Writes.cons_iff.1 hw
  obtain ⟨us, vs, rfl, hus, hvs⟩ := Writes.append_iff.1 hw₁
  obtain ⟨close, vs, rfl, hclose, hvs'⟩ := Writes.cons_iff.1 hvs
  obtain rfl := Writes.nil_iff.1 hvs'
  have hend : Enclosure.block.endsBefore ((close :: rest).headD last) := by
    simp [Enclosure.endsBefore, show close.kind = .rightBrace from hclose]
  have hlen : 2 * (us ++ close :: rest).length ≤ budget := by
    simp only [List.cons_append, List.length_cons, List.length_append, List.length_nil] at hb ⊢
    omega
  refine (block_yields hl ?_).2 ⟨body, close, ?_, hclose, rfl⟩
  · exact ht
  · rw [List.cons_append, List.tail_cons, List.append_assoc]
    exact hbody .block us (close :: rest) budget hus hlen hend

/-- The condition and the first branch of an `if`, in front of what follows. -/
theorem conditional_front (hl : last.kind = .eof) {c : Expr} {s : Stmt} {us : List Token}
    (hc : c.Shaped) (hs : StatementComplete last s) (hshape : s.Shaped)
    (hw : Writes (.fixed .kwIf :: .fixed .leftParen :: (c.written ++ [.fixed .rightParen]) ++
      s.written) us) (hb : 2 * (us ++ rest).length ≤ budget + 1 + 1)
    (hopen : s.endsOpen → (rest.headD last).kind ≠ .kwElse) :
    ((us ++ rest).headD last).kind = .kwIf ∧ rest.length + 2 ≤ (us ++ rest).length ∧ ∃ mid,
      ifCondition.Yields last (us ++ rest) c mid ∧ (statement budget).Yields last mid s rest := by
  obtain ⟨cs, vs, rfl, hcs, hvs⟩ := Writes.append_iff.1 hw
  have hcond : ifCondition.Yields last (cs ++ (vs ++ rest)) c (vs ++ rest) :=
    ifCondition_complete hl hc hcs
  obtain ⟨t, cs, rfl, ht, -⟩ := Writes.cons_iff.1 hcs
  obtain ⟨v, vs, rfl, -⟩ := first_of_statement hshape hvs
  simp only [List.append_assoc, List.cons_append, List.length_cons, List.length_append] at hb ⊢
  refine ⟨ht, by omega, v :: vs ++ rest, hcond, hs _ rest budget hvs ?_ hopen⟩
  simp only [List.cons_append, List.length_cons, List.length_append]
  omega

/-- An `if` without an `else` is read if no `else` follows. -/
theorem statementComplete_if (hl : last.kind = .eof) {c : Expr} {s : Stmt}
    (hshape : (Stmt.conditional c s none).Shaped) (hs : StatementComplete last s) :
    StatementComplete last (.conditional c s none) := by
  intro us rest budget hw hb hopen
  obtain ⟨budget, rfl⟩ := exists_succ_of_statement hshape hw hb
  have hne : (rest.headD last).kind ≠ .kwElse := hopen rfl
  obtain ⟨hif, -, mid, hc, hs'⟩ := conditional_front hl hshape.1 hs hshape.2.1
    (by simpa [Stmt.written] using hw) hb fun _ => hne
  exact (conditional_yields hl hif).2 ⟨c, mid, s, rest, hc, hs', .inl ⟨hne, rfl, rfl⟩⟩

/-- An `if` with an `else` is read: the first branch does not end in an `if` that would take it. -/
theorem statementComplete_ifElse (hl : last.kind = .eof) {c : Expr} {s t : Stmt}
    (hshape : (Stmt.conditional c s (some t)).Shaped) (hs : StatementComplete last s)
    (ht : StatementComplete last t) : StatementComplete last (.conditional c s (some t)) := by
  intro us rest budget hw hb hopen
  obtain ⟨budget, rfl⟩ := exists_succ_of_statement hshape hw hb
  obtain ⟨hc, hsh, -, hclosed, -⟩ := hshape
  have hw' : Writes ((.fixed .kwIf :: .fixed .leftParen :: (c.written ++ [.fixed .rightParen]) ++
      s.written) ++ .fixed .kwElse :: t.written) us := by
    simpa [Stmt.written] using hw
  obtain ⟨us, vs, rfl, hus, hvs⟩ := Writes.append_iff.1 hw'
  obtain ⟨word, vs, rfl, hword, hvs'⟩ := Writes.cons_iff.1 hvs
  rw [List.append_assoc, List.cons_append] at hb ⊢
  obtain ⟨hif, hlen, mid, hc', hs'⟩ := conditional_front hl hc hs hsh hus hb fun ho => by
    rw [hclosed] at ho
    cases ho
  have ht' : (statement budget).Yields last (vs ++ rest) t rest := by
    refine ht vs rest budget hvs' ?_ hopen
    rw [List.length_cons] at hlen
    omega
  exact (conditional_yields hl hif).2 ⟨c, mid, s, word :: (vs ++ rest), hc', hs',
    .inr ⟨word, vs ++ rest, t, rfl, hword, ht', rfl⟩⟩

/-- Declarations are read one after the other. -/
theorem declarationsComplete_cons (hl : last.kind = .eof) {s : Stmt} {ss : List Stmt}
    (hsh : s.Shaped) (hs : s.isDeclaration = false → StatementComplete last s)
    (hshs : Stmt.AllShaped ss) (hss : DeclarationsComplete last ss) :
    DeclarationsComplete last (s :: ss) := by
  intro enclosure us rest budget hw hb hend
  obtain ⟨vs, ws, rfl, hvs, hws⟩ := Writes.append_iff.1 hw
  obtain ⟨t, vs', hvs', hstart⟩ := first_of_statement hsh hvs
  have hfront : (vs ++ ws ++ rest).headD last = t := by rw [hvs']; rfl
  have hlen : (ws ++ rest).length + 1 ≤ (vs ++ ws ++ rest).length := by
    rw [hvs']
    simp only [List.append_assoc, List.cons_append, List.length_cons, List.length_append]
    omega
  obtain ⟨budget, rfl⟩ : ∃ b, budget = b + 1 := ⟨budget - 1, by omega⟩
  obtain ⟨-, hbrace, heof, hvar⟩ := hstart.kind_ne
  have hgo : ¬ enclosure.endsBefore t := by simp [Enclosure.endsBefore, Token.isEof, heof, hbrace]
  -- What follows is another statement or the end of the enclosure, and no `else` in either case.
  have hnext : ((ws ++ rest).headD last).kind ≠ .kwElse := by
    cases ss with
    | nil =>
        obtain rfl := Writes.nil_iff.1 hws
        intro h
        rw [List.nil_append] at h
        rw [Enclosure.endsBefore, Token.isEof, h] at hend
        simp at hend
    | cons s' ss =>
        obtain ⟨ws, xs, rfl, hws', -⟩ := Writes.append_iff.1 hws
        obtain ⟨u, ws, rfl, hu⟩ := first_of_statement hshs.1 hws'
        exact hu.kind_ne.1
  refine declarations_yields.2 (.inr ⟨by rwa [hfront], s, ws ++ rest, ss, ?_,
    hss enclosure ws rest budget hws (by omega) hend, rfl⟩)
  rw [hfront, List.append_assoc]
  cases hd : s.isDeclaration with
  | false =>
      refine .inr ⟨fun h => by simp [hvar.1 h] at hd, ?_⟩
      rw [List.append_assoc] at hb
      exact hs hd vs (ws ++ rest) budget hvs (by omega) fun _ => hnext
  | true =>
      refine .inl ⟨hvar.2 hd, ?_⟩
      cases s with
      | declare name initializer? => exact declaration_complete hl hsh hvs
      | _ => cases hd

mutual

theorem statementComplete (hl : last.kind = .eof) :
    ∀ s : Stmt, s.Shaped → s.isDeclaration = false → StatementComplete last s
  | .expression _, hs, _ => statementComplete_expression hl hs
  | .print _ _, hs, _ => statementComplete_print hl hs.1 hs.2
  | .declare _ _, _, hd => by cases hd
  | .block body, hs, _ => statementComplete_block hl hs (declarationsComplete hl body hs)
  | .conditional _ s none, hs, _ =>
      statementComplete_if hl hs (statementComplete hl s hs.2.1 hs.2.2)
  | .conditional _ s (some t), hs, _ =>
      statementComplete_ifElse hl hs (statementComplete hl s hs.2.1 hs.2.2.1)
        (statementComplete hl t hs.2.2.2.2.1 hs.2.2.2.2.2)

theorem declarationsComplete (hl : last.kind = .eof) :
    ∀ ss : List Stmt, Stmt.AllShaped ss → DeclarationsComplete last ss
  | [], _ => by
      intro enclosure us rest budget hw hb hend
      obtain rfl := Writes.nil_iff.1 hw
      cases budget with
      | zero => exact yields_pure.2 ⟨rfl, rfl⟩
      | succ budget => exact declarations_yields.2 (.inl ⟨hend, rfl, rfl⟩)
  | s :: ss, hs =>
      declarationsComplete_cons hl hs.1 (statementComplete hl s hs.1) hs.2
        (declarationsComplete hl ss hs.2)

end

/-! ### Programs -/

/-- A slot that no end of input fits. -/
def isInner : Slot → Bool
  | .fixed k => k ≠ .eof
  | .stored t => !t.isEof
  | .literal _ => true

theorem isEof_of_isInner {x : Slot} {t : Token} (hx : isInner x) (ht : x.Fits t) :
    t.isEof = false := by
  cases x with
  | fixed k => simpa [Token.isEof, isInner, show t.kind = k from ht] using hx
  | stored s => simpa [isInner, show t = s from ht] using hx
  | literal v =>
      have hk : t.kind.isLiteral := ht.1
      cases h : t.kind <;> simp_all [Token.Kind.isLiteral, Token.isEof]

theorem not_isEof {t : Token} {p : Token.Kind → Bool} (h : p t.kind) (hp : p .eof = false) :
    t.isEof = false := by
  cases hk : t.kind <;> simp_all [Token.isEof]

theorem all_isInner_expression {e : Expr} (hs : e.Shaped) : e.written.all isInner := by
  induction e with
  | literal v => rfl
  | «variable» name => simp [Expr.written, isInner, Token.isEof, show name.kind = _ from hs]
  | grouping e ih => simp [Expr.written, isInner, List.all_append, ih hs]
  | unary operator e ih =>
      have hop := not_isEof hs.1 rfl
      simp only [Expr.written, List.all_cons, isInner, hop, ih hs.2.2, Bool.not_false, Bool.true_and]
  | binary l operator r ihl ihr | logical l operator r ihl ihr =>
      have hop := not_isEof hs.1 rfl
      simp only [Expr.written, List.all_append, List.all_cons, isInner, hop, ihl hs.2.2.1,
        ihr hs.2.2.2, Bool.not_false, Bool.true_and]
  | assign name e ih =>
      simp [Expr.written, isInner, Token.isEof, hs.1, ih hs.2]

mutual

theorem all_isInner_statement : ∀ s : Stmt, s.Shaped → s.written.all isInner
  | .expression _, hs => by
      simp only [Stmt.written, List.all_append, all_isInner_expression hs]
      rfl
  | .print _ _, hs => by
      simp [Stmt.written, isInner, Token.isEof, hs.1, all_isInner_expression hs.2]
  | .declare name none, hs => by
      simp [Stmt.written, isInner, Token.isEof, show name.kind = _ from hs]
  | .declare _ (some _), hs => by
      simp [Stmt.written, isInner, Token.isEof, hs.1, all_isInner_expression hs.2]
  | .block body, hs => by
      simp [Stmt.written, isInner, all_isInner_statements body hs]
  | .conditional _ s none, hs => by
      simp [Stmt.written, isInner, all_isInner_expression hs.1, all_isInner_statement s hs.2.1]
  | .conditional _ s (some t), hs => by
      simp [Stmt.written, isInner, all_isInner_expression hs.1, all_isInner_statement s hs.2.1,
        all_isInner_statement t hs.2.2.2.2.1]

theorem all_isInner_statements : ∀ ss : List Stmt, Stmt.AllShaped ss →
    (Stmt.writtenAll ss).all isInner
  | [], _ => rfl
  | s :: ss, hs => by
      simp only [Stmt.writtenAll, List.all_append, all_isInner_statement s hs.1,
        all_isInner_statements ss hs.2, Bool.and_self]

end

/-- Written statements hold no end of input. -/
theorem isEof_of_writes {slots : List Slot} (hw : Writes slots ts) (hs : slots.all isInner) :
    ∀ t ∈ ts, t.isEof = false := by
  induction slots generalizing ts with
  | nil => simp [Writes.nil_iff.1 hw]
  | cons x slots ih =>
      obtain ⟨t, us, rfl, ht, hus⟩ := Writes.cons_iff.1 hw
      rw [List.all_cons, Bool.and_eq_true] at hs
      exact List.forall_mem_cons.2 ⟨isEof_of_isInner hs.1 ht, ih hus hs.2⟩

/-- **Completeness.**  Statements of the grammar's shape can be written out; and whatever tokens they
are written as, in front of an end of input these are read without an error, as exactly the given
statements. -/
theorem parse_written (ss : List Stmt) (hs : Stmt.AllShaped ss) (e : Token) (he : e.kind = .eof) :
    (∃ ts, Writes (Stmt.writtenAll ss) ts) ∧ ∀ ts, Writes (Stmt.writtenAll ss) ts →
      (Parse.ofTokens (ts ++ [e])).errors = [] ∧ (Parse.ofTokens (ts ++ [e])).statements = ss := by
  refine ⟨⟨_, writes_map_token _⟩, fun ts hw => errors_eq_nil_iff.2 ⟨[], ?_⟩⟩
  have heof : e.isEof = true := by rw [Token.isEof, he]; rfl
  have hts := isEof_of_writes hw (all_isInner_statements ss hs)
  have hbody : (Input.ofTokens (ts ++ [e])).body = ts := by
    rw [Input.ofTokens, List.takeWhile_append_of_pos fun t ht => by rw [hts t ht]; rfl]
    simp [heof]
  have hlast : (Input.ofTokens (ts ++ [e])).last = e := by
    have : ts.find? (·.isEof) = none := by simpa using hts
    rw [Input.ofTokens, List.find?_append, this]
    simp [heof]
  rw [hbody, hlast]
  have h := declarationsComplete he ss hs .program ts [] (2 * ts.length) hw (by simp)
    (by simp [Enclosure.endsBefore, heof])
  rw [List.append_nil] at h
  exact h

theorem parse_written_innerElse :
    Stmt.AllShaped [innerElse] ∧ Writes (Stmt.writtenAll [innerElse]) innerElseTokens ∧
      (Token.eof 1 0).kind = .eof ∧
      (Parse.ofTokens (innerElseTokens ++ [.eof 1 0])).errors = [] ∧
      (Parse.ofTokens (innerElseTokens ++ [.eof 1 0])).statements = [innerElse] := by
  have hs : Stmt.AllShaped [innerElse] := by
    simp [innerElse, Stmt.AllShaped, Stmt.Shaped, Expr.Shaped, Expr.Joins]
    decide
  have hw : Writes (Stmt.writtenAll [innerElse]) innerElseTokens := by
    repeat refine .cons rfl ?_
    exact .nil
  exact ⟨hs, hw, rfl, (parse_written [innerElse] hs (.eof 1 0) rfl).2 innerElseTokens hw⟩

end Lox.Grammar
