import Lox.Proofs.Grammar.Prompt

/-!
# Proofs — Grammar — The earliest possible error

**Earliest error** (`stops_earliest`).  The first error that reading stops at blames the first token
that no program could have there.

All readers of the grammar are prompt, each by the readers that it is put together from.  Behind an
expression, any token that is no operator may follow (`EndsExpression`), behind a statement any but
`else`, which an `if` would take (`EndsStatement`), and behind declarations what ends their
enclosure.  What a continuation supplies is always the same: an expression is completed by a
variable, a statement by a variable and a semicolon, and declarations need nothing.
-/

namespace Lox.Grammar

open Reader

variable {last t : Token} {ts us : List Token} {cost : Nat → Nat} {lead follow : Token → Prop}

/-! ### Expressions -/

/-- A token that is no operator, so that an expression in front of it is at its end. -/
def EndsExpression (t : Token) : Prop := Level.ofKind t.kind = .lowest

/-- A variable that may be put in for what is missing. -/
def filler : Token := bare .identifier "x"

theorem endsExpression_of_kind {kind : Token.Kind} (h : Level.ofKind kind = .lowest)
    (ht : t.kind = kind) : EndsExpression t := by
  rwa [EndsExpression, ht]

theorem EndsExpression.not_below (h : EndsExpression t) (level : Level) :
    level.below (.ofKind t.kind) = false := by
  rw [show Level.ofKind t.kind = .lowest from h]
  cases level <;> rfl

/-- What is missing where there is no operand is a variable. -/
theorem operand_completes : Completes id (·.kind = .identifier) follow operand := by
  refine ⟨[filler], .variable filler, by decide, fun _ _ => rfl, fun budget last rest _ _ hlen => ?_⟩
  obtain ⟨budget, rfl⟩ : ∃ b, budget = b + 1 := ⟨budget - 1, by simp at hlen; omega⟩
  exact ⟨[], rfl, by simp [errorsIn]⟩

theorem climb_passes {budget : Nat} {level : Level} {left : Expr}
    (h : level.below (.ofKind (ts.headD last).kind) = false) :
    (climb budget level left).Passes last ts left ts :=
  ⟨[], climb_of_not_below h, by simp [errorsIn]⟩

/-- Behind an operand, nothing is missing. -/
theorem climb_completes (level : Level) (left : Expr) :
    Completes id EndsExpression EndsExpression fun budget => climb budget level left :=
  ⟨[], left, by simp, fun _ ht => ht, fun _ _ _ _ hend _ => climb_passes (hend.not_below level)⟩

/-- An assignment is built; or else its target stays, and an error is noted that reading does not
stop at. -/
theorem exists_assignTo (target : Expr) (equals : Token) (value : Expr) :
    ∃ e, ∀ last ts, (assignTo target equals value).Passes last ts e ts := by
  cases target with
  | «variable» name => exact ⟨_, fun _ _ => passes_pure _⟩
  | literal | grouping | unary | binary | logical | assign =>
      exact ⟨_, fun _ _ => ⟨[.error ⟨.invalidAssignmentTarget, equals⟩], rfl, by
        simp [errorsIn, GrammarError.stops]⟩⟩

/-- What is asked of operands and of what stands behind them, in front of `ts`. -/
def ExpressionPrompt (last : Token) (ts : List Token) : Prop :=
  Prompt id (·.kind = .identifier) Anything operand last ts ∧
    ∀ level left, Prompt id EndsExpression EndsExpression (fun budget => climb budget level left)
      last ts

/-- What stands behind the operand in a pair of parentheses. -/
theorem closing_completes (first : Expr) :
    Completes id Anything Anything fun budget => (do
      let inner ← climb budget .lowest first
      let _ ← expect .rightParen (.expectRightParen "expression")
      return .grouping inner : Reader Expr) :=
  .anyLead <| .bind monotone_id (climb_completes .lowest first) fun _ =>
    .map _ (.expect _ (by decide) fun _ => endsExpression_of_kind rfl)

theorem operand_prompt (hl : last.kind = .eof)
    (ih : ∀ t us, ts = t :: us → ∀ vs, vs <:+ us → ExpressionPrompt last vs) :
    Prompt id (·.kind = .identifier) Anything operand last ts := by
  cases hstart : startsExpression (ts.headD last).kind with
  | false =>
      refine .of_fail .expectExpression (by decide) (fun budget last' ts' _ hhead => ?_)
        operand_completes
      exact operand_of_not_startsExpression (by rwa [hhead])
  | true =>
      have hne : (ts.headD last).kind ≠ .eof := fun h => by rw [h] at hstart; cases hstart
      cases ts with
      | nil => exact absurd hl hne
      | cons t us =>
          rw [List.headD_cons] at hstart hne
          have hus := ih t us rfl
          have hcost : ∀ n, id n + 1 ≤ id (n + 1) := fun n => Nat.le_refl _
          have hfirst := (hus us (List.suffix_refl us)).1.anyLead
          simp only [startsExpression, Bool.or_eq_true, decide_eq_true_eq] at hstart
          -- A unary operator, a literal, a variable or a grouping.
          rcases hstart with ((hk | hk) | hk) | hk
          · exact .of_advance hne hcost (fun _ _ _ h => operand_of_isUnary (by rwa [h])) (.map _ hfirst)
          · refine .of_advance hne hcost (fun _ _ _ h => operand_of_isLiteral (by rwa [h])) ?_
            exact .pure _ fun _ h => h
          · refine .of_advance hne hcost (fun _ _ _ h => operand_of_identifier (by rwa [h])) ?_
            exact .pure _ fun _ h => h
          · refine .of_advance hne hcost (fun _ _ _ h => operand_of_leftParen (by rwa [h])) ?_
            refine .bind monotone_id hfirst (fun first vs hvs => ?_) closing_completes
            refine .anyLead (.bind monotone_id ((hus vs hvs).2 .lowest first)
              (fun _ _ _ => .map _ ?_) fun _ => .map _ ?_)
            · exact .expect hl (by decide) (by decide) fun _ => endsExpression_of_kind rfl
            · exact .expect _ (by decide) fun _ => endsExpression_of_kind rfl

/-- What stands behind the first operand on the right of an operator. -/
theorem operation_completes (level : Level) (left : Expr) (operator : Token) (first : Expr) :
    Completes id Anything EndsExpression fun budget => (do
      if operator.kind = .equal then
        let value ← climb budget .lowest first
        climb budget level (← assignTo left operator value)
      else
        let right ← climb budget (.ofKind operator.kind) first
        climb budget level (operation left operator right) : Reader Expr) := by
  split
  · refine (Completes.bind monotone_id (climb_completes .lowest first) fun value => ?_).anyLead
    obtain ⟨e, he⟩ := exists_assignTo left operator value
    exact .bind monotone_id (.idle he fun _ h => h) (climb_completes level)
  · exact (Completes.bind monotone_id (climb_completes _ first) fun _ => climb_completes level _).anyLead

/-- Behind an operand, an operator is taken before anything else. -/
theorem climb_prompt (hl : last.kind = .eof)
    (ih : ∀ t us, ts = t :: us → ∀ vs, vs <:+ us → ExpressionPrompt last vs)
    (level : Level) (left : Expr) :
    Prompt id EndsExpression EndsExpression (fun budget => climb budget level left) last ts := by
  cases hbelow : level.below (.ofKind (ts.headD last).kind) with
  | false =>
      refine .accepts [] ts left rfl (fun _ _ h => h) fun _ last' rest _ hend _ => climb_passes ?_
      rcases hend with hfront | hend
      · rwa [List.nil_append, hfront]
      · exact hend.not_below level
  | true =>
      have hin := inExpression_of_below hbelow
      have hne : (ts.headD last).kind ≠ .eof := fun h => by rw [h] at hin; cases hin
      cases ts with
      | nil => exact absurd hl hne
      | cons t us =>
          rw [List.headD_cons] at hbelow hne
          have hus := ih t us rfl
          refine .of_advance hne (fun n => Nat.le_refl _) (fun _ _ _ h => climb_of_below (by rwa [h]))
            (.bind monotone_id (hus us (List.suffix_refl us)).1.anyLead (fun first vs hvs => ?_)
              (operation_completes level left t))
          split
          · -- An assignment may be refused, which leaves its target as the operand.
            refine (Prompt.bind monotone_id ((hus vs hvs).2 .lowest first) (fun value ws hws => ?_)
              fun value => ?_).anyLead
            · obtain ⟨e, he⟩ := exists_assignTo left t value
              refine .bind monotone_id (.idle he fun _ h => h) (fun e xs hxs => ?_)
                (climb_completes level)
              exact (hus xs (hxs.trans (hws.trans hvs))).2 level e
            · obtain ⟨e, he⟩ := exists_assignTo left t value
              exact .bind monotone_id (.idle he fun _ h => h) (climb_completes level)
          · refine (Prompt.bind monotone_id ((hus vs hvs).2 _ first) (fun right ws hws => ?_)
              fun right => climb_completes level _).anyLead
            exact (hus ws (hws.trans hvs)).2 level _

theorem expressionPrompt (hl : last.kind = .eof) (ts : List Token) : ExpressionPrompt last ts := by
  have ih : ∀ t us, ts = t :: us → ∀ vs, vs <:+ us → ExpressionPrompt last vs :=
    fun t us h vs hvs => expressionPrompt hl vs
  exact ⟨operand_prompt hl ih, climb_prompt hl ih⟩
termination_by ts.length
decreasing_by
  have := hvs.length_le
  rw [h, List.length_cons]
  omega

/-- Expressions are read promptly. -/
theorem expression_prompt (hl : last.kind = .eof) :
    Prompt cost (·.kind = .identifier) EndsExpression (fun _ => expression) last ts :=
  .budgeted <| .bind monotone_id ((expressionPrompt hl ts).1)
    (fun first rest _ => ((expressionPrompt hl rest).2 .lowest first).anyLead)
    fun first => (climb_completes .lowest first).anyLead

theorem expression_completes :
    Completes cost (·.kind = .identifier) EndsExpression fun _ => expression :=
  .budgeted <| .bind monotone_id operand_completes
    fun first => (climb_completes .lowest first).anyLead

/-- An expression, and a token that it cannot take behind it. -/
theorem expression_expect_prompt {α : Type} {kind : Token.Kind} {cause : GrammarError.Cause}
    (hl : last.kind = .eof) (hlow : Level.ofKind kind = .lowest) (hk : kind ≠ .eof)
    (hcause : cause ≠ .invalidAssignmentTarget) (f : Expr → α) :
    Prompt cost (·.kind = .identifier) Anything (fun _ => (do
      let e ← expression
      let _ ← expect kind cause
      return f e : Reader α)) last ts :=
  .unbudgeted <| .bind monotone_id (expression_prompt hl)
    (fun e _ _ => .map (fun _ => f e) (.expect hl hk hcause fun _ => endsExpression_of_kind hlow))
    fun e => .map (fun _ => f e) (.expect cause hk fun _ => endsExpression_of_kind hlow)

theorem expression_expect_completes {α : Type} {kind : Token.Kind} (cause : GrammarError.Cause)
    (hlow : Level.ofKind kind = .lowest) (hk : kind ≠ .eof) (f : Expr → α) :
    Completes id (·.kind = .identifier) Anything fun _ => (do
      let e ← expression
      let _ ← expect kind cause
      return f e : Reader α) :=
  .bind monotone_id expression_completes fun e =>
    .map (fun _ => f e) (.expect cause hk fun _ => endsExpression_of_kind hlow)

/-! ### Statements -/

/-- A token that no statement in front of it takes. -/
def EndsStatement (t : Token) : Prop := t.kind ≠ .kwElse

theorem printStatement_prompt (hl : last.kind = .eof) :
    Prompt cost lead Anything (fun _ => printStatement) last (t :: us) :=
  .advance <| .anyLead <| expression_expect_prompt hl rfl (by decide) (by decide) (Stmt.print t)

/-- What follows the name of a declared variable. -/
theorem declaration_end_completes (name : Token) :
    Completes id Anything Anything fun _ => (do
      let initializer? ←
        if (← peek).kind = .equal then
          let _ ← advance
          some <$> expression
        else
          Pure.pure none
      let _ ← expect .semicolon (.expectSemicolon "variable declaration")
      return .declare name initializer? : Reader Stmt) := by
  refine ⟨[bare .semicolon ";"], .declare name none, by decide, fun _ _ => trivial, ?_⟩
  intro budget last rest _ _ _
  exact ⟨[], rfl, by simp [errorsIn]⟩

theorem declaration_prompt (hl : last.kind = .eof) :
    Prompt cost lead Anything (fun _ => declaration) last (t :: us) := by
  refine .advance <| .bind monotone_id (.expect hl (by decide) (by decide) fun _ _ => trivial) ?_
    declaration_end_completes
  intro name rest _
  have hend (initializer? : Option Expr) (ts : List Token) :
      Prompt id (·.kind = .semicolon) Anything (fun _ => (do
        let _ ← expect .semicolon (.expectSemicolon "variable declaration")
        return .declare name initializer? : Reader Stmt)) last ts :=
    .map (fun _ => Stmt.declare name initializer?) (.expect hl (by decide) (by decide) fun _ ht => ht)
  -- A missing semicolon is put in front, so that there is no `=` instead of it.
  by_cases heq : (rest.headD last).kind = .equal
  · obtain ⟨equals, vs, rfl⟩ := exists_cons_of_headD hl heq (by decide)
    refine (Prompt.peek_bind nofun ?_ : Prompt id (fun _ => False) Anything _ last _).anyLead
    simp only [heq, if_true]
    refine .advance (.bind monotone_id (.map some (expression_prompt hl).anyLead)
      (fun e ws _ => (hend e ws).mono (fun _ => endsExpression_of_kind rfl) fun _ h => h) fun e => ?_)
    exact .map (fun _ => Stmt.declare name e)
      (.expect _ (by decide) fun _ => endsExpression_of_kind rfl)
  · refine (Prompt.peek_bind (fun t ht => ?_) ?_ : Prompt id (·.kind = .semicolon) Anything _ last
      rest).anyLead
    · rw [if_neg heq, if_neg (by rw [ht]; decide)]
    · simp only [heq, if_false]
      exact hend none rest

/-- What stands behind the word `if`, up to its branches. -/
theorem condition_prompt (hl : last.kind = .eof) :
    Prompt cost Anything Anything (fun _ => (do
      let _ ← expect .leftParen (.expectLeftParen "'if'")
      let condition ← expression
      let _ ← expect .rightParen (.expectRightParen "if condition")
      return condition : Reader Expr)) last ts :=
  .unbudgeted <| .bind monotone_id (.expect hl (by decide) (by decide) fun _ _ => trivial)
    (fun _ _ _ => .anyLead (expression_expect_prompt hl rfl (by decide) (by decide) id))
    fun _ => .anyLead (expression_expect_completes _ rfl (by decide) id)

/-- What is missing where there is no statement is a variable and a semicolon. -/
theorem statement_completes :
    Completes (2 * · - 1) (·.kind = .identifier) follow statement := by
  refine ⟨[filler, bare .semicolon ";"], .expression (.variable filler), by decide, fun _ _ => rfl,
    fun budget last rest _ _ hlen => ?_⟩
  obtain ⟨budget, rfl⟩ : ∃ b, budget = b + 1 := ⟨budget - 1, by simp at hlen; omega⟩
  exact ⟨[], rfl, by simp [errorsIn]⟩

/-- Declarations need not be there at all. -/
theorem declarations_passes {enclosure : Enclosure} (h : enclosure.endsBefore (ts.headD last))
    (budget : Nat) : (declarations budget enclosure).Passes last ts [] ts := by
  refine ⟨[], ?_, by simp [errorsIn]⟩
  cases budget with
  | zero => rfl
  | succ budget =>
      rw [declarations, peek_bind_apply, if_pos h]
      rfl

theorem endsBefore_of_eof {enclosure : Enclosure} (h : t.kind = .eof) : enclosure.endsBefore t := by
  simp [Enclosure.endsBefore, Token.isEof, h]

theorem endsStatement_of_endsBefore {enclosure : Enclosure} (h : enclosure.endsBefore t) :
    EndsStatement t := by
  intro ht
  cases enclosure <;> simp [Enclosure.endsBefore, Token.isEof, ht] at h

theorem declarations_completes (enclosure : Enclosure) :
    Completes (2 * ·) EndsStatement (enclosure.endsBefore ·) fun budget =>
      declarations budget enclosure :=
  ⟨[], [], by simp, fun _ h => endsStatement_of_endsBefore h,
    fun budget _ _ _ hends _ => declarations_passes hends budget⟩

/-- What starts no statement is no statement, whatever the budget. -/
theorem statement_of_not_starts (hi : (ts.headD last).kind ≠ .kwIf)
    (hp : (ts.headD last).kind ≠ .kwPrint) (hb : (ts.headD last).kind ≠ .leftBrace)
    (h : startsExpression (ts.headD last).kind = false) (budget : Nat) :
    statement budget last ts = fail .expectExpression last ts := by
  cases budget with
  | zero => rfl
  | succ budget =>
      rw [statement_of_other hi hp hb]
      have hexpression : expression last ts = fail .expectExpression last ts :=
        bind_error (operand_of_not_startsExpression h)
      exact bind_error hexpression

/-- What is asked of statements and of lists of them, in front of `ts`. -/
def StatementPrompt (last : Token) (ts : List Token) : Prop :=
  Prompt (2 * · - 1) (·.kind = .identifier) EndsStatement statement last ts ∧
    ∀ enclosure : Enclosure, Prompt (2 * ·) EndsStatement (enclosure.endsBefore ·)
      (fun budget => declarations budget enclosure) last ts

theorem monotone_statement : Monotone fun n : Nat => 2 * n - 1 := by
  intro m n h
  simp only
  omega

theorem monotone_declarations : Monotone fun n : Nat => 2 * n := by
  intro m n h
  simp only
  omega

/-- Behind a branch, there may be another one. -/
theorem alternative_prompt (hl : last.kind = .eof)
    (ih : ∀ vs, vs <:+ ts → Prompt (2 * · - 1) (·.kind = .identifier) EndsStatement statement last vs)
    (condition : Expr) (consequent : Stmt) :
    Prompt (2 * · - 1) EndsStatement EndsStatement (fun budget => (do
      if (← peek).kind = .kwElse then
        let _ ← advance
        let alternative ← statement budget
        return .conditional condition consequent (some alternative)
      else
        return .conditional condition consequent none : Reader Stmt)) last ts := by
  -- What ends a statement is no `else`, so it is not taken for the other branch.
  by_cases helse : (ts.headD last).kind = .kwElse
  · obtain ⟨word, us, rfl⟩ := exists_cons_of_headD hl helse (by decide)
    refine (Prompt.peek_bind nofun ?_ :
      Prompt _ (fun _ => False) EndsStatement _ last _).mono nofun fun _ h => h
    simp only [helse, if_true]
    have halternative := (ih us (List.suffix_cons word us)).anyLead.map fun alternative =>
      Stmt.conditional condition consequent (some alternative)
    exact .enough (.advance_bind halternative) fun n => by omega
  · refine .peek_bind (fun t ht => ?_) ?_
    · simp only [helse, show t.kind ≠ .kwElse from ht, if_false]
    · simp only [helse, if_false]
      exact .pure _ fun _ h => h

theorem alternative_completes (condition : Expr) (consequent : Stmt) :
    Completes cost EndsStatement EndsStatement (fun budget => (do
      if (← peek).kind = .kwElse then
        let _ ← advance
        let alternative ← statement budget
        return .conditional condition consequent (some alternative)
      else
        return .conditional condition consequent none : Reader Stmt)) := by
  refine ⟨[], .conditional condition consequent none, by simp, fun _ h => h,
    fun budget last rest _ hend _ => ?_⟩
  change (ite ((rest.headD last).kind = .kwElse) _ _ : Reader Stmt).Passes last rest _ rest
  rw [if_neg hend]
  exact passes_pure _

theorem statement_of_leftBrace {budget : Nat} (h : (ts.headD last).kind = .leftBrace) :
    statement (budget + 1) last ts = (do
      let _ ← advance
      let body ← declarations budget .block
      let _ ← expect .rightBrace .expectRightBrace
      return .block body : Reader Stmt) last ts := by
  rw [statement, peek_bind_apply, h]

theorem conditional_prompt (hl : last.kind = .eof) (hi : t.kind = .kwIf)
    (ih : ∀ vs, vs <:+ us → StatementPrompt last vs) :
    Prompt (2 * · - 1) (·.kind = .identifier) EndsStatement statement last (t :: us) := by
  refine .of_advance (by rw [hi]; decide) (fun n => ?_) (fun _ _ _ h => statement_of_if (by rw [h, hi]))
    (.bind monotone_statement (condition_prompt hl) (fun condition vs hvs => ?_)
      fun condition => ?_)
  · omega
  · refine .anyLead (.bind monotone_statement (ih vs hvs).1 (fun consequent ws hws => ?_)
      (alternative_completes condition))
    exact alternative_prompt hl (fun xs hxs => (ih xs (hxs.trans (hws.trans hvs))).1) condition
      consequent
  · exact .anyLead (.bind monotone_statement statement_completes (alternative_completes condition))

theorem block_prompt (hl : last.kind = .eof) (hb : t.kind = .leftBrace)
    (ih : StatementPrompt last us) :
    Prompt (2 * · - 1) (·.kind = .identifier) EndsStatement statement last (t :: us) := by
  have hbrace {t : Token} (ht : t.kind = .rightBrace) : Enclosure.block.endsBefore t := by
    simp [Enclosure.endsBefore, ht]
  refine .of_advance (by rw [hb]; decide) (fun n => ?_)
    (fun _ _ _ h => statement_of_leftBrace (by rw [h, hb]))
    (.bind monotone_declarations (ih.2 .block).anyLead
      (fun body vs _ => .map (fun _ => Stmt.block body) ?_) fun body => .map _ ?_)
  · omega
  · exact .expect hl (by decide) (by decide) fun _ => hbrace
  · exact .expect _ (by decide) fun _ => hbrace

/-- A statement is promptly read, each kind by the readers of its parts. -/
theorem statement_prompt (hl : last.kind = .eof)
    (ih : ∀ t us, ts = t :: us → ∀ vs, vs <:+ us → StatementPrompt last vs) :
    Prompt (2 * · - 1) (·.kind = .identifier) EndsStatement statement last ts := by
  have hcost : ∀ n : Nat, 0 + 1 ≤ 2 * (n + 1) - 1 := fun n => by omega
  by_cases hi : (ts.headD last).kind = .kwIf
  · obtain ⟨t, us, rfl⟩ := exists_cons_of_headD hl hi (by decide)
    exact conditional_prompt hl hi (ih t us rfl)
  by_cases hp : (ts.headD last).kind = .kwPrint
  · obtain ⟨t, us, rfl⟩ := exists_cons_of_headD hl hp (by decide)
    rw [List.headD_cons] at hp
    have hprint : Prompt (fun _ => 0) (fun _ => False) Anything _ last (t :: us) :=
      printStatement_prompt hl
    refine (hprint.congr_succ (by rw [List.headD_cons, hp]; decide) nofun hcost
      fun _ _ _ h => statement_of_print ?_).mono nofun fun _ _ => trivial
    rw [h.resolve_right id, List.headD_cons, hp]
  by_cases hb : (ts.headD last).kind = .leftBrace
  · obtain ⟨t, us, rfl⟩ := exists_cons_of_headD hl hb (by decide)
    exact block_prompt hl hb (ih t us rfl us (List.suffix_refl us))
  -- What is left is an expression, or nothing that starts a statement.
  cases hstart : startsExpression (ts.headD last).kind with
  | false =>
      refine .of_fail .expectExpression (by decide) (fun budget last' ts' _ hhead => ?_)
        statement_completes
      rw [← hhead] at hi hp hb hstart
      exact statement_of_not_starts hi hp hb hstart budget
  | true =>
      have hne : (ts.headD last).kind ≠ .eof := fun h => by rw [h] at hstart; cases hstart
      have hexpression : Prompt (fun _ => 0) (·.kind = .identifier) Anything
          (fun _ => expressionStatement) last ts :=
        expression_expect_prompt hl rfl (by decide) (by decide) Stmt.expression
      refine (hexpression.congr_succ hne (fun t ht => by rw [ht]; decide) hcost
        fun _ _ _ h => ?_).mono (fun _ h => h) fun _ _ => trivial
      rcases h with h | h
      · exact statement_of_other (by rwa [h]) (by rwa [h]) (by rwa [h])
      · exact statement_of_other (by rw [h]; decide) (by rw [h]; decide) (by rw [h]; decide)

/-- At the end of input there is no declaration. -/
theorem exists_stops_nil (hl : last.kind = .eof) (ts : List Token) (budget : Nat) :
    ∃ e, (declarationOf ts budget).Stops last [] e := by
  rw [declarationOf]
  split
  · refine ⟨⟨.expectVariableName, last⟩, ?_⟩
    have hadvance : advance.Passes last [] last [] := ⟨[], rfl, by simp [errorsIn]⟩
    refine hadvance.stops_bind (Stops.bind ?_)
    rw [Stops, expect, peek_bind_apply, List.headD_nil, if_neg (by rw [hl]; decide)]
    exact stops_fail (by decide) last []
  · refine ⟨⟨.expectExpression, last⟩, ?_⟩
    have hnone : statement budget last [] = fail .expectExpression last [] := by
      refine statement_of_not_starts ?_ ?_ ?_ ?_ budget <;> rw [List.headD_nil, hl] <;> decide
    rw [Stops, hnone]
    exact stops_fail (by decide) last []

/-- A declaration takes a token, also when it is recovered from. -/
theorem ne_nil_of_accepts {s? : Option Stmt}
    (h : Accepts cost EndsStatement (fun budget => recovering (declarationOf ts budget)) us s?) :
    us ≠ [] := by
  rintro rfl
  have heof : (Token.eof 1 0).kind = .eof := rfl
  obtain ⟨e, he⟩ := exists_stops_nil heof ts (cost 0)
  exact he.recovering.not_passes (h _ (.eof 1 0) [] rfl (by simp [EndsStatement, Token.eof])
    (Nat.le_refl _))

/-- What may stand in front of a statement is what a statement starts with. -/
theorem declarationOf_prompt (hl : last.kind = .eof)
    (hstatement : Prompt (2 * · - 1) (·.kind = .identifier) EndsStatement statement last (t :: us)) :
    Prompt (2 * · - 1) (fun t' => t'.kind = .identifier ∧ t.kind ≠ .kwVar) EndsStatement
      (declarationOf (t :: us)) last (t :: us) := by
  by_cases hv : t.kind = .kwVar
  · rw [show declarationOf (t :: us) = fun _ => declaration from funext fun _ => if_pos hv]
    exact (declaration_prompt hl).mono (fun _ h => h) fun _ _ => trivial
  · rw [show declarationOf (t :: us) = statement from funext fun _ => if_neg hv]
    exact hstatement.mono (fun _ h => ⟨h, hv⟩) fun _ h => h

theorem declarations_of_not_endsBefore {enclosure : Enclosure} {budget : Nat}
    (h : enclosure.endsBefore (ts.headD last) = false)
    (hk : (ts.headD last).kind = .kwVar ↔ t.kind = .kwVar) :
    declarations (budget + 1) enclosure last ts = (do
      let s? ← recovering (declarationOf (t :: us) budget)
      return s?.toList ++ (← declarations budget enclosure) : Reader (List Stmt)) last ts := by
  rw [declarations, peek_bind_apply, if_neg (by rw [h]; decide), if_congr hk rfl rfl]
  rfl

theorem declarations_prompt (hl : last.kind = .eof) (enclosure : Enclosure)
    (hstatement : Prompt (2 * · - 1) (·.kind = .identifier) EndsStatement statement last ts)
    (ih : ∀ t us, ts = t :: us → ∀ vs, vs <:+ us → StatementPrompt last vs) :
    Prompt (2 * ·) EndsStatement (enclosure.endsBefore ·)
      (fun budget => declarations budget enclosure) last ts := by
  cases hends : enclosure.endsBefore (ts.headD last) with
  | true =>
      -- Nothing is taken, neither here nor in front of anything else that ends the enclosure.
      refine .accepts [] ts [] rfl (fun _ _ h => endsStatement_of_endsBefore h)
        fun budget last' rest _ h _ => declarations_passes ?_ budget
      rcases h with h | h
      · rwa [List.nil_append, h]
      · exact h
  | false =>
      have hne : (ts.headD last).kind ≠ .eof := by
        intro h
        rw [endsBefore_of_eof h] at hends
        cases hends
      cases ts with
      | nil => exact absurd hl hne
      | cons t us =>
          -- The budget is enough for what is left, as the declaration in front takes a token.
          have hlist := (declarationOf_prompt hl hstatement).recovering.bind_of_cost
            (fun vs s? h n => ?_) (fun vs rest s? hts h => ?_)
            fun s? => (declarations_completes enclosure).map (s?.toList ++ ·)
          · refine (hlist.congr_succ hne (fun t' h => by rw [h.1]; decide) (fun n => by omega)
              fun budget last' ts' hfront => ?_).mono (fun t' h => ?_) fun _ h => h
            · rcases hfront with hfront | ⟨hk, hv⟩
              · exact declarations_of_not_endsBefore (by rwa [hfront]) (by rw [hfront]; rfl)
              · refine declarations_of_not_endsBefore ?_ (by rw [hk]; simp [hv])
                simp only [Enclosure.endsBefore, Token.isEof, hk]
                simp
            · rw [EndsStatement, h.1]
              decide
          · have := List.length_pos_iff.2 (ne_nil_of_accepts h)
            omega
          · obtain ⟨v, vs, rfl⟩ := List.exists_cons_of_ne_nil (ne_nil_of_accepts h)
            rw [List.cons_append, List.cons.injEq] at hts
            exact ((ih t us rfl rest ⟨vs, hts.2.symm⟩).2 enclosure).map (s?.toList ++ ·)

theorem statementPrompt (hl : last.kind = .eof) (ts : List Token) : StatementPrompt last ts := by
  have ih : ∀ t us, ts = t :: us → ∀ vs, vs <:+ us → StatementPrompt last vs :=
    fun t us h vs hvs => statementPrompt hl vs
  have hstatement := statement_prompt hl ih
  exact ⟨hstatement, fun enclosure => declarations_prompt hl enclosure hstatement ih⟩
termination_by ts.length
decreasing_by
  have := hvs.length_le
  rw [h, List.length_cons]
  omega

/-! ### Programs -/

/-- The tokens that are read, the end of input included. -/
def Input.tokens (input : Input) : List Token := input.body ++ [input.last]

/-- Reading a program stops nowhere without a report. -/
theorem firstStop?_ofTokens (ts : List Token) :
    (Parse.ofTokens ts).firstStop? =
      (program (Input.ofTokens ts).last (Input.ofTokens ts).body).firstStop? := by
  rw [Parse.firstStop?, Step.firstStop?, errors_ofTokens]

/-- Tokens in front of the end of input are read. -/
theorem Input.body_append (hus : ∀ t ∈ us, t.isEof = false) (ts : List Token) :
    (Input.ofTokens (us ++ ts)).body = us ++ (Input.ofTokens ts).body :=
  List.takeWhile_append_of_pos fun t ht => by rw [hus t ht]; rfl

theorem Input.body_eq_self (hus : ∀ t ∈ us, t.isEof = false) : (Input.ofTokens us).body = us := by
  have happend := Input.body_append hus []
  rwa [List.append_nil, show (Input.ofTokens []).body = [] from rfl, List.append_nil] at happend

/-- Nothing is read behind the end of input. -/
theorem Input.ofTokens_append_eof (hus : ∀ t ∈ us, t.isEof = false) (ht : t.isEof = true)
    (ts : List Token) : Input.ofTokens (us ++ t :: ts) = ⟨us, t⟩ := by
  have hnone : us.find? (·.isEof) = none := by
    rw [List.find?_eq_none]
    intro t ht
    rw [hus t ht]
    decide
  rw [Input.ofTokens, List.find?_append, hnone, Option.none_or, List.find?_cons_of_pos ht,
    List.takeWhile_append_of_pos fun t ht => by rw [hus t ht]; rfl,
    List.takeWhile_cons_of_neg (by rw [ht]; decide), List.append_nil]
  rfl

/-- What programs accept is read without an error that reading stops at. -/
theorem firstStop?_of_accepts {ss : List Stmt} (hus : ∀ t ∈ us, t.isEof = false)
    (h : Accepts (2 * ·) (Enclosure.program.endsBefore ·)
      (fun budget => declarations budget .program) us ss) :
    (Parse.ofTokens us).firstStop? = none := by
  have hl := Input.ofTokens_last us
  have hpasses := h _ _ [] hl (endsBefore_of_eof hl) (Nat.le_refl _)
  rw [List.append_nil] at hpasses
  rw [firstStop?_ofTokens, Input.body_eq_self hus]
  exact hpasses.firstStop?

/-- What no program accepts is an error, be it a token or the end of input, whatever stands behind
it. -/
theorem firstStop?_of_rejects {e : GrammarError} (hus : ∀ t ∈ us, t.isEof = false)
    (h : Rejects (2 * ·) (fun budget => declarations budget .program) us e) (ws : List Token) :
    (Parse.ofTokens (us ++ e.token :: ws)).firstStop? = some e := by
  rw [firstStop?_ofTokens]
  cases hend : e.token.isEof with
  | true =>
      rw [Input.ofTokens_append_eof hus hend]
      have hstops := h _ e.token [] (by simpa [Token.isEof] using hend) rfl (Nat.le_refl _)
      rwa [List.append_nil] at hstops
  | false =>
      have hbody : (Input.ofTokens (us ++ e.token :: ws)).body =
          us ++ e.token :: ws.takeWhile (!·.isEof) := by
        rw [Input.body_append hus, Input.ofTokens, List.takeWhile_cons_of_pos (by rw [hend]; rfl)]
      rw [hbody]
      exact h _ _ _ (Input.ofTokens_last _) rfl (Nat.le_refl _)

/-- The tokens up to the first error could be continued, but not with the token that it blames. -/
theorem exists_stop {ts : List Token} {e : GrammarError}
    (h : (Parse.ofTokens ts).firstStop? = some e) :
    ∃ us behind, (Input.ofTokens ts).tokens = us ++ e.token :: behind ∧
      (∃ ws, (Parse.ofTokens (us ++ ws)).firstStop? = none) ∧
      ∀ ws, (Parse.ofTokens (us ++ e.token :: ws)).firstStop? = some e := by
  have hl := Input.ofTokens_last ts
  rw [firstStop?_ofTokens] at h
  cases (statementPrompt hl (Input.ofTokens ts).body).2 .program with
  | accepts us rest ss hts _ haccepts =>
      have hpasses := haccepts _ _ rest hl (.inl rfl) (Nat.le_refl _)
      rw [← hts] at hpasses
      cases hpasses.firstStop?.symm.trans h
  | rejects us rest ws e' ss hts htoken heof _ hrejects hcontinued =>
      -- The error at which the tokens themselves stop is the one of all their continuations.
      have hstops := hrejects _ _ rest hl htoken (Nat.le_refl _)
      rw [← hts] at hstops
      obtain rfl : e' = e := Option.some.inj (hstops.symm.trans h)
      have hus : ∀ t ∈ us, t.isEof = false := fun t ht =>
        Input.isEof_of_mem_body (hts ▸ List.mem_append_left rest ht)
      have hbehind : ∃ behind, (Input.ofTokens ts).tokens = us ++ e'.token :: behind := by
        rw [Input.tokens, hts, ← htoken]
        cases rest with
        | nil => exact ⟨[], by simp⟩
        | cons t rest => exact ⟨rest ++ [(Input.ofTokens ts).last], by simp⟩
      obtain ⟨behind, hbehind⟩ := hbehind
      refine ⟨us, behind, hbehind, ⟨ws, firstStop?_of_accepts (fun t ht => ?_) hcontinued⟩,
        firstStop?_of_rejects hus hrejects⟩
      exact (List.mem_append.1 ht).elim (hus t) (heof t)

/-- Of two places, what could have been continued at the later one does not have its first error at
the earlier one. -/
theorem le_of_continued {ts : List Token} {e : GrammarError} {j k : Nat}
    (hj : ∀ ws, (Parse.ofTokens (ts.take (j + 1) ++ ws)).firstStop? = some e)
    (hk : ∃ ws, (Parse.ofTokens (ts.take k ++ ws)).firstStop? = none) : k ≤ j := by
  obtain ⟨ws, hws⟩ := hk
  -- Otherwise the continuation of the later place starts with the tokens up to the earlier one.
  by_contra hlt
  have htake : ts.take k = ts.take (j + 1) ++ (ts.take k).drop (j + 1) := by
    conv_lhs => rw [← List.take_append_drop (j + 1) (ts.take k), List.take_take]
    rw [Nat.min_eq_left (by omega)]
  rw [htake, List.append_assoc, hj] at hws
  cases hws

/-- **Earliest error.**  Let `e` be the first error of a token list other than an invalid assignment
target.  There is exactly one place in the list, the end of input included, where the token stands
that `e` blames, and the tokens in front of it could have been continued to a list without such an
error, while `e` is the first one of all lists that start with these tokens and that token. -/
theorem stops_earliest (ts : List Token) (e : GrammarError)
    (h : (Parse.ofTokens ts).errors.find? (·.cause ≠ .invalidAssignmentTarget) = some e) :
    ∃! k : Nat, (Input.ofTokens ts).tokens[k]? = some e.token ∧
      (∃ ws, ∀ e' ∈ (Parse.ofTokens ((Input.ofTokens ts).tokens.take k ++ ws)).errors,
        e'.cause = .invalidAssignmentTarget) ∧
      ∀ ws, (Parse.ofTokens ((Input.ofTokens ts).tokens.take (k + 1) ++ ws)).errors.find?
        (·.cause ≠ .invalidAssignmentTarget) = some e := by
  obtain ⟨us, behind, htokens, hcontinued, hstop⟩ := exists_stop h
  have hnone {p : Parse} : (∀ e' ∈ p.errors, e'.cause = .invalidAssignmentTarget) ↔
      p.firstStop? = none := by
    rw [Parse.firstStop?, List.find?_eq_none]
    simp [GrammarError.stops]
  have hfirst : ∀ ws, (Parse.ofTokens ((us ++ e.token :: behind).take (us.length + 1) ++
      ws)).firstStop? = some e := by
    intro ws
    rw [List.append_cons, List.take_left' (by simp), List.append_assoc]
    exact hstop ws
  rw [htokens]
  simp only [hnone]
  refine ⟨us.length, ⟨by simp, ?_, hfirst⟩, ?_⟩
  · rwa [List.take_left]
  · rintro k ⟨-, hk, hk'⟩
    refine Nat.le_antisymm (le_of_continued hfirst hk) (le_of_continued hk' ?_)
    rwa [List.take_left]

/-- `if (a) { (b) = c; print ; }`, with the last semicolon on a line of its own. -/
def printNothingTokens : List Token :=
  [bare .kwIf "if", bare .leftParen "(", bare .identifier "a", bare .rightParen ")",
    bare .leftBrace "\x7b", bare .leftParen "(", bare .identifier "b", bare .rightParen ")",
    bare .equal "=", bare .identifier "c", bare .semicolon ";", bare .kwPrint "print",
    { bare .semicolon ";" with line := 2 }, bare .rightBrace "\x7d"]

/-- The `=` is reported before, but what could not have been continued is the last semicolon. -/
theorem stops_earliest_printNothing :
    (Parse.ofTokens printNothingTokens).errors.map (·.cause) =
        [.invalidAssignmentTarget, .expectExpression] ∧
      (∃ ws, ∀ e ∈ (Parse.ofTokens (printNothingTokens.take 12 ++ ws)).errors,
        e.cause = .invalidAssignmentTarget) ∧
      ∀ ws, (Parse.ofTokens (printNothingTokens.take 13 ++ ws)).errors.find?
        (·.cause ≠ .invalidAssignmentTarget) =
          some ⟨.expectExpression, { bare .semicolon ";" with line := 2 }⟩ := by
  refine ⟨rfl, ?_⟩
  obtain ⟨k, ⟨htoken, hcontinued, hfirst⟩, -⟩ := stops_earliest printNothingTokens
    ⟨.expectExpression, { bare .semicolon ";" with line := 2 }⟩ rfl
  have hlt : k < 15 := (List.getElem?_eq_some_iff.1 htoken).1
  have hline : (Input.ofTokens printNothingTokens).tokens[k]?.map (·.line) = some 2 := by
    rw [htoken]
    rfl
  -- No other token stands on the second line.
  have hk : k = 12 := by
    clear htoken hcontinued hfirst
    revert k
    decide
  subst hk
  exact ⟨hcontinued, hfirst⟩

end Lox.Grammar
