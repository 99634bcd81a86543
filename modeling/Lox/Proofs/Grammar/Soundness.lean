import Lox.Proofs.Grammar.Rules

/-!
# Proofs — Grammar — What is read is written

**Soundness** (`parse_sound`).  If a token list is read without an error, its tokens up to the first
end of input are the returned statements, written out; and the statements have the shape of the
grammar.

The proof is an induction on the budget, once for expressions and once for statements.  `climb` is a
loop: it is entered with an operand on its left and goes on with larger ones, and what it keeps is
`Running`.  The left operand has its shape, it binds more tightly than the level that was asked for,
and the next token is not one that it would have taken for itself.
-/

namespace Lox.Grammar
open Reader

variable {last : Token} {ts rest : List Token} {budget : Nat}

/-! ### Expressions -/

/-- What a tree and its tokens have to do with each other. -/
structure Spelled (e : Expr) (us : List Token) : Prop where
  writes : Writes e.written us
  shaped : e.Shaped

/-- What `climb` keeps of the operand on its left, with the next token in view. -/
structure Running (level : Level) (left : Expr) (next : Token) : Prop where
  shaped : left.Shaped
  above : level.below left.level
  closed : ¬ left.reach.below (.ofKind next.kind)

/-- An operator that an expression does not reach finds it tight enough for a left operand. -/
theorem not_level_below_of_reach {e : Expr} {l : Level} (h : ¬ e.reach.below l) :
    ¬ e.level.below l := by
  cases e with
  | assign name value =>
      intro h'
      exact h (Level.below_trans (show Level.lowest.below .assign by decide) h')
  | _ => exact h

/-- An operand is taken as it is. -/
theorem Running.operand {e : Expr} {level : Level} {next : Token} (hs : e.Shaped)
    (he : e.level = .unary) (hlevel : level.below .unary) : Running level e next where
  shaped := hs
  above := he ▸ hlevel
  closed := by
    have hreach : e.reach = .unary := by
      cases e with
      | assign name value => cases he
      | _ => exact he
    rw [hreach]
    exact Level.not_unary_below _

/-- The loop goes on with an assignment. Behind its value no operator at all follows. -/
theorem Running.assign {name behind : Token} {value : Expr} {level : Level}
    (hn : name.kind = .identifier) (hlevel : level.below .assign) (hv : value.Shaped)
    (hend : ¬ Level.lowest.below (.ofKind behind.kind)) :
    Running level (.assign name value) behind where
  shaped := ⟨hn, hv⟩
  above := hlevel
  closed := hend

/-- The loop goes on with an operation. Behind its right operand no operator follows that binds more
tightly than its own. -/
theorem Running.operation {left right : Expr} {operator behind : Token} {level : Level}
    (hl : Running level left operator) (hlevel : level.below (.ofKind operator.kind))
    (hne : operator.kind ≠ .equal) (hr : Running (.ofKind operator.kind) right behind)
    (hend : ¬ (Level.ofKind operator.kind).below (.ofKind behind.kind)) :
    Running level (Grammar.operation left operator right) behind := by
  have hj : Expr.Joins left operator right := ⟨not_level_below_of_reach hl.closed, hr.above⟩
  rcases Level.lowest_below_ofKind.1 (Level.lowest_below hlevel) with h | hk | hk
  · exact absurd h hne
  · rw [operation_of_isLogical hk]
    exact ⟨⟨hk, hj, hl.shaped, hr.shaped⟩, hlevel, hend⟩
  · rw [operation_of_isBinary hk]
    exact ⟨⟨hk, hj, hl.shaped, hr.shaped⟩, hlevel, hend⟩

/-- An operand that is read without an error is spelled by the tokens it took. -/
def OperandSound (last : Token) (budget : Nat) : Prop :=
  ∀ ts e rest, ts.length ≤ budget → (operand budget).Yields last ts e rest →
    ∃ t us, ts = t :: us ++ rest ∧ Spelled e (t :: us) ∧ e.level = .unary

/-- The loop spells what it adds to its left operand, and stops only where it has to. -/
def ClimbSound (last : Token) (budget : Nat) : Prop :=
  ∀ ts level left e rest, ts.length ≤ budget → (climb budget level left).Yields last ts e rest →
    Running level left (ts.headD last) →
    ∃ us, ts = us ++ rest ∧ (∀ ls, Writes left.written ls → Writes e.written (ls ++ us)) ∧
      Running level e (rest.headD last) ∧ ¬ level.below (.ofKind (rest.headD last).kind)

/-- An operand and what stands behind it, read one after the other. -/
theorem spelled_of_climb (ho : OperandSound last budget) (hc : ClimbSound last budget)
    {level : Level} {first e : Expr} {mid : List Token} (hts : ts.length ≤ budget)
    (hlevel : level.below .unary) (hf : (operand budget).Yields last ts first mid)
    (he : (climb budget level first).Yields last mid e rest) :
    ∃ t us, ts = t :: us ++ rest ∧ Spelled e (t :: us) ∧ Running level e (rest.headD last) ∧
      ¬ level.below (.ofKind (rest.headD last).kind) := by
  obtain ⟨t, us, rfl, hs, hu⟩ := ho _ _ _ hts hf
  have hmid : mid.length ≤ budget := by
    simp only [List.length_append] at hts
    omega
  obtain ⟨vs, rfl, hw, hr, hend⟩ := hc _ _ _ _ _ hmid he (.operand hs.shaped hu hlevel)
  exact ⟨t, us ++ vs, by simp, ⟨hw _ hs.writes, hr.shaped⟩, hr, hend⟩

theorem operandSound_succ (hl : last.kind = .eof) (ho : OperandSound last budget)
    (hc : ClimbSound last budget) : OperandSound last (budget + 1) := by
  intro ts e rest hts h
  obtain ⟨t, us, rfl, hcase⟩ := (operand_yields hl).1 h
  have hus : us.length ≤ budget := Nat.le_of_succ_le_succ hts
  rcases hcase with ⟨hk, a, ha, rfl⟩ | ⟨hk, rfl, rfl⟩ | ⟨hk, rfl, rfl⟩ |
    ⟨hk, first, mid, inner, close, hf, hi, hclose, rfl⟩
  · obtain ⟨v, vs, rfl, hs, hu⟩ := ho _ _ _ hus ha
    exact ⟨t, v :: vs, rfl, ⟨.cons rfl hs.writes, hk, hu, hs.shaped⟩, rfl⟩
  · exact ⟨t, [], rfl, ⟨.cons ⟨hk, rfl⟩ .nil, trivial⟩, rfl⟩
  · exact ⟨t, [], rfl, ⟨.cons rfl .nil, hk⟩, rfl⟩
  · obtain ⟨v, vs, rfl, hs, -, -⟩ := spelled_of_climb ho hc hus (by decide) hf hi
    refine ⟨t, v :: vs ++ [close], by simp, ⟨.cons hk ?_, hs.shaped⟩, rfl⟩
    exact hs.writes.append (.cons hclose .nil)

theorem climbSound_succ (hl : last.kind = .eof) (ho : OperandSound last budget)
    (hc : ClimbSound last budget) : ClimbSound last (budget + 1) := by
  intro ts level left e rest hts h hrun
  rcases (climb_yields hl).1 h with ⟨hend, rfl, rfl⟩ |
    ⟨operator, us, first, mid, right, mid', rfl, hlevel, hf, hcase⟩
  · exact ⟨[], rfl, fun ls hls => by simpa using hls, hrun, hend⟩
  have hus : us.length ≤ budget := Nat.le_of_succ_le_succ hts
  -- The right operand is read first; `level'` is the level asked for behind it.
  have hright : ∀ level' : Level, level'.below .unary →
      (climb budget level' first).Yields last mid right mid' →
      ∃ vs, us = vs ++ mid' ∧ mid'.length ≤ budget ∧ Spelled right vs ∧
        Running level' right (mid'.headD last) ∧
        ¬ level'.below (.ofKind (mid'.headD last).kind) := by
    intro level' hlevel' hr
    obtain ⟨v, vs, rfl, hs, hrun', hend⟩ := spelled_of_climb ho hc hus hlevel' hf hr
    refine ⟨v :: vs, rfl, ?_, hs, hrun', hend⟩
    simp only [List.length_append] at hus
    omega
  rcases hcase with ⟨heq, hr, name, rfl, he⟩ | ⟨hne, hr, he⟩
  · obtain ⟨vs, rfl, hmid', hs, -, hend⟩ := hright .lowest (by decide) hr
    rw [heq] at hlevel
    obtain ⟨ws, rfl, hw, hrun', hstop⟩ :=
      hc _ _ _ _ _ hmid' he (.assign hrun.shaped hlevel hs.shaped hend)
    refine ⟨operator :: vs ++ ws, by simp, fun ls hls => ?_, hrun', hstop⟩
    have := hw (ls ++ operator :: vs) (hls.append (.cons heq hs.writes))
    simpa using this
  · have hbelow : (Level.ofKind operator.kind).below .unary := by
      cases operator.kind <;> decide
    obtain ⟨vs, rfl, hmid', hs, hrun', hend⟩ := hright _ hbelow hr
    obtain ⟨ws, rfl, hw, hrun'', hstop⟩ :=
      hc _ _ _ _ _ hmid' he (hrun.operation hlevel hne hrun' hend)
    refine ⟨operator :: vs ++ ws, by simp, fun ls hls => ?_, hrun'', hstop⟩
    rw [written_operation] at hw
    have := hw (ls ++ operator :: vs) (hls.append (.cons rfl hs.writes))
    simpa using this

theorem operandSound_climbSound (hl : last.kind = .eof) (budget : Nat) :
    OperandSound last budget ∧ ClimbSound last budget := by
  induction budget with
  | zero =>
      refine ⟨fun ts e rest _ h => absurd h not_yields_fail,
        fun ts level left e rest hts h hrun => ?_⟩
      -- Without a budget there are no tokens, so the end of input stops the loop.
      obtain rfl := List.eq_nil_of_length_eq_zero (Nat.le_zero.1 hts)
      obtain ⟨rfl, rfl⟩ := yields_pure.1 h
      refine ⟨[], rfl, fun ls hls => by simpa using hls, hrun, ?_⟩
      rw [List.headD_nil, hl]
      cases level <;> decide
  | succ budget ih => exact ⟨operandSound_succ hl ih.1 ih.2, climbSound_succ hl ih.1 ih.2⟩

/-- An expression that is read without an error is spelled by the tokens it took. -/
theorem expression_sound (hl : last.kind = .eof) {e : Expr}
    (h : expression.Yields last ts e rest) :
    ∃ t us, ts = t :: us ++ rest ∧ Spelled e (t :: us) := by
  obtain ⟨first, mid, hf, he⟩ := expression_yields.1 h
  obtain ⟨ho, hc⟩ := operandSound_climbSound hl ts.length
  obtain ⟨t, us, hts, hs, -⟩ := spelled_of_climb ho hc (Nat.le_refl _) (by decide) hf he
  exact ⟨t, us, hts, hs⟩

/-! ### Statements -/

/-- A declaration that is read without an error is written by the tokens it took. -/
theorem declaration_sound (hl : last.kind = .eof) {s : Stmt}
    (hk : (ts.headD last).kind = .kwVar) (h : declaration.Yields last ts s rest) :
    ∃ t us, ts = t :: us ++ rest ∧ Writes s.written (t :: us) ∧ s.Shaped := by
  obtain ⟨t, us, rfl⟩ := exists_cons_of_headD hl hk (by decide)
  obtain ⟨name, vs, close, hn, hclose, htail, hs⟩ := (declaration_yields hl).1 h
  rw [List.tail_cons] at htail
  rw [htail]
  rcases hs with ⟨rfl, rfl⟩ | ⟨equals, ws, e, rfl, heq, he, rfl⟩
  · exact ⟨t, [name, close], rfl, .cons hk (.cons rfl (.cons hclose .nil)), hn⟩
  · obtain ⟨v, vs, rfl, hsp⟩ := expression_sound hl he
    refine ⟨t, name :: equals :: v :: vs ++ [close], by simp, .cons hk (.cons rfl (.cons heq ?_)),
      hn, hsp.shaped⟩
    exact hsp.writes.append (.cons hclose .nil)

theorem printStatement_sound (hl : last.kind = .eof) {s : Stmt}
    (hk : (ts.headD last).kind = .kwPrint) (h : printStatement.Yields last ts s rest) :
    ∃ t us e, ts = t :: us ++ rest ∧ s = .print t e ∧ Writes s.written (t :: us) ∧ s.Shaped := by
  obtain ⟨t, us, rfl⟩ := exists_cons_of_headD hl hk (by decide)
  obtain ⟨e, close, he, hclose, rfl⟩ := (printStatement_yields hl).1 h
  obtain ⟨v, vs, hus, hsp⟩ := expression_sound hl he
  rw [List.tail_cons] at hus
  refine ⟨t, v :: vs ++ [close], e, by simp [hus], rfl, .cons rfl ?_, hk, hsp.shaped⟩
  exact hsp.writes.append (.cons hclose .nil)

theorem expressionStatement_sound (hl : last.kind = .eof) {s : Stmt}
    (h : expressionStatement.Yields last ts s rest) :
    ∃ t us e, ts = t :: us ++ rest ∧ s = .expression e ∧ Writes s.written (t :: us) ∧
      s.Shaped := by
  obtain ⟨e, close, he, hclose, rfl⟩ := (expressionStatement_yields hl).1 h
  obtain ⟨v, vs, rfl, hsp⟩ := expression_sound hl he
  refine ⟨v, vs ++ [close], e, by simp, rfl, ?_, hsp.shaped⟩
  exact hsp.writes.append (.cons hclose .nil)

/-- The condition of an `if` takes the word itself and what stands between the parentheses. -/
theorem ifCondition_sound (hl : last.kind = .eof) {c : Expr}
    (hk : (ts.headD last).kind = .kwIf) (h : ifCondition.Yields last ts c rest) :
    ∃ t us, ts = t :: us ++ rest ∧ c.Shaped ∧ Writes
      (.fixed .kwIf :: .fixed .leftParen :: c.written ++ [.fixed .rightParen]) (t :: us) := by
  obtain ⟨t, us, rfl⟩ := exists_cons_of_headD hl hk (by decide)
  obtain ⟨opening, vs, close, hus, hopening, hc, hclose⟩ := (ifCondition_yields hl).1 h
  obtain ⟨v, vs, rfl, hsp⟩ := expression_sound hl hc
  rw [List.tail_cons] at hus
  refine ⟨t, opening :: v :: vs ++ [close], by simp [hus], hsp.shaped, .cons hk (.cons hopening ?_)⟩
  exact hsp.writes.append (.cons hclose .nil)

/-- A statement that is read without an error is written by the tokens it took, and could not have
taken an `else` that follows. -/
def StatementSound (last : Token) (budget : Nat) : Prop :=
  ∀ ts s rest, 2 * ts.length ≤ budget + 1 → (statement budget).Yields last ts s rest →
    ∃ t us, ts = t :: us ++ rest ∧ Writes s.written (t :: us) ∧ s.Shaped ∧
      s.isDeclaration = false ∧ (s.endsOpen → (rest.headD last).kind ≠ .kwElse)

/-- Declarations that are read without an error are written by the tokens they took, up to the end
of their enclosure. -/
def DeclarationsSound (last : Token) (budget : Nat) : Prop :=
  ∀ ts enclosure ss rest, 2 * ts.length ≤ budget →
    (declarations budget enclosure).Yields last ts ss rest →
    ∃ us, ts = us ++ rest ∧ Writes (Stmt.writtenAll ss) us ∧ Stmt.AllShaped ss ∧
      enclosure.endsBefore (rest.headD last)

theorem statementSound_succ (hl : last.kind = .eof) (hs : StatementSound last budget)
    (hd : DeclarationsSound last budget) : StatementSound last (budget + 1) := by
  intro ts s rest hts h
  by_cases hif : (ts.headD last).kind = .kwIf
  · obtain ⟨c, mid, s₁, mid₁, hc, hs₁, hcase⟩ := (conditional_yields hl hif).1 h
    obtain ⟨t, us, rfl, hcs, hcw⟩ := ifCondition_sound hl hif hc
    simp only [List.length_append, List.length_cons] at hts
    obtain ⟨v, vs, rfl, hw₁, hsh₁, hd₁, ho₁⟩ := hs _ _ _ (by omega) hs₁
    have hw := hcw.append hw₁
    simp only [List.length_append, List.length_cons] at hts
    rcases hcase with ⟨hne, rfl, rfl⟩ | ⟨word, ws, s₂, rfl, hword, hs₂, rfl⟩
    · refine ⟨t, us ++ v :: vs, by simp, ?_, ⟨hcs, hsh₁, hd₁⟩, rfl, fun _ => hne⟩
      simpa [Stmt.written] using hw
    · simp only [List.length_cons] at hts
      obtain ⟨w, ws, rfl, hw₂, hsh₂, hd₂, ho₂⟩ := hs _ _ _ (by omega) hs₂
      have hopen : s₁.endsOpen = false := by
        by_contra hne
        exact ho₁ (by simpa using hne) hword
      have helse : Writes (.fixed .kwElse :: s₂.written) (word :: w :: ws) := .cons hword hw₂
      refine ⟨t, us ++ v :: vs ++ word :: w :: ws, by simp, ?_, ⟨hcs, hsh₁, hd₁, hopen, hsh₂, hd₂⟩,
        rfl, ho₂⟩
      simpa [Stmt.written] using hw.append helse
  by_cases hbrace : (ts.headD last).kind = .leftBrace
  · obtain ⟨body, close, hb, hclose, rfl⟩ := (block_yields hl hbrace).1 h
    obtain ⟨t, us, rfl⟩ := exists_cons_of_headD hl hbrace (by decide)
    rw [List.length_cons] at hts
    obtain ⟨vs, hvs, hw, hsh, -⟩ := hd _ _ _ _ (by rw [List.tail_cons]; omega) hb
    rw [List.tail_cons] at hvs
    refine ⟨t, vs ++ [close], by simp [hvs], .cons hbrace ?_, hsh, rfl, fun ho => by cases ho⟩
    exact hw.append (.cons hclose .nil)
  by_cases hp : (ts.headD last).kind = .kwPrint
  · obtain ⟨t, us, e, hts, rfl, hw, hsh⟩ := printStatement_sound hl hp ((print_yields hp).1 h)
    exact ⟨t, us, hts, hw, hsh, rfl, fun ho => by cases ho⟩
  · obtain ⟨t, us, e, hts, rfl, hw, hsh⟩ :=
      expressionStatement_sound hl ((other_yields hif hp hbrace).1 h)
    exact ⟨t, us, hts, hw, hsh, rfl, fun ho => by cases ho⟩

theorem declarationsSound_succ (hl : last.kind = .eof) (hs : StatementSound last budget)
    (hd : DeclarationsSound last budget) : DeclarationsSound last (budget + 1) := by
  intro ts enclosure ss rest hts h
  rcases declarations_yields.1 h with ⟨hend, rfl, rfl⟩ | ⟨-, s, mid, others, hfirst, hothers, rfl⟩
  · exact ⟨[], rfl, .nil, trivial, hend⟩
  · obtain ⟨t, us, rfl, hw, hsh⟩ :
        ∃ t us, ts = t :: us ++ mid ∧ Writes s.written (t :: us) ∧ s.Shaped := by
      rcases hfirst with ⟨hvar, hfirst⟩ | ⟨-, hfirst⟩
      · exact declaration_sound hl hvar hfirst
      · obtain ⟨t, us, hts, hw, hsh, -⟩ := hs _ _ _ (by omega) hfirst
        exact ⟨t, us, hts, hw, hsh⟩
    simp only [List.length_append, List.length_cons] at hts
    obtain ⟨vs, rfl, hws, hshs, hend⟩ := hd _ _ _ _ (by omega) hothers
    exact ⟨t :: us ++ vs, by simp, hw.append hws, ⟨hsh, hshs⟩, hend⟩

theorem statementSound_declarationsSound (hl : last.kind = .eof) (budget : Nat) :
    StatementSound last budget ∧ DeclarationsSound last budget := by
  induction budget with
  | zero =>
      refine ⟨fun ts s rest _ h => absurd h not_yields_fail, fun ts enclosure ss rest hts h => ?_⟩
      -- Without a budget there are no tokens, so every enclosure ends here.
      obtain rfl := List.eq_nil_of_length_eq_zero (l := ts) (by omega)
      obtain ⟨rfl, rfl⟩ := yields_pure.1 h
      exact ⟨[], rfl, .nil, trivial, by simp [Enclosure.endsBefore, Token.isEof, hl]⟩
  | succ budget ih =>
      exact ⟨statementSound_succ hl ih.1 ih.2, declarationsSound_succ hl ih.1 ih.2⟩

/-! ### Programs -/

/-- What is read ends at an end of input. -/
theorem Input.ofTokens_last (ts : List Token) : (Input.ofTokens ts).last.kind = .eof := by
  rw [Input.ofTokens]
  cases h : ts.find? (·.isEof) with
  | some t =>
      have := List.find?_some h
      simpa [Token.isEof] using this
  | none =>
      simp only [Option.getD_none, suppliedEof]
      split <;> rfl

/-- What is read holds no end of input. -/
theorem Input.isEof_of_mem_body {t : Token} (h : t ∈ (Input.ofTokens ts).body) :
    t.isEof = false := by
  have := List.all_eq_true.1 (List.all_takeWhile (p := fun t : Token => !t.isEof)) t h
  simpa using this

/-- Without an error, all tokens in front of the end of input were taken. -/
theorem writes_statements {ts : List Token} (h : (Parse.ofTokens ts).errors = []) :
    Writes (Stmt.writtenAll (Parse.ofTokens ts).statements) (Input.ofTokens ts).body ∧
      Stmt.AllShaped (Parse.ofTokens ts).statements := by
  obtain ⟨rest, hp⟩ := errors_eq_nil_iff.1 ⟨h, rfl⟩
  obtain ⟨us, hus, hw, hsh, hend⟩ :=
    (statementSound_declarationsSound (Input.ofTokens_last ts) _).2 _ _ _ _ (Nat.le_refl _) hp
  have hrest : rest = [] := by
    cases rest with
    | nil => rfl
    | cons t vs =>
        have : t.isEof = false := Input.isEof_of_mem_body (by rw [hus]; simp)
        simp [Enclosure.endsBefore, this] at hend
  rw [hrest, List.append_nil] at hus
  exact ⟨hus.symm ▸ hw, hsh⟩

/-- **Soundness.**  If a token list is read without an error, its tokens up to the first end of
input are the returned statements, written out, and the statements have the shape of the grammar.
Where literal tokens have values of their kinds, as scanned ones have, the written kinds are those
of the tokens, too. -/
theorem parse_sound (ts : List Token) (h : (Parse.ofTokens ts).errors = []) :
    Writes (Stmt.writtenAll (Parse.ofTokens ts).statements) (ts.takeWhile (!·.isEof)) ∧
      Stmt.AllShaped (Parse.ofTokens ts).statements ∧
      ((∀ t ∈ ts, t.HasValueOfKind) →
        (Stmt.writtenAll (Parse.ofTokens ts).statements).map Slot.kind =
          (ts.takeWhile (!·.isEof)).map Token.kind) := by
  obtain ⟨hw, hsh⟩ := writes_statements h
  exact ⟨hw, hsh, fun ht => hw.map_kind fun t h => ht t (List.takeWhile_subset _ h)⟩

/-- A token whose text stands nowhere in particular. -/
def bare (kind : Token.Kind) (lexeme : String) : Token := ⟨kind, lexeme, none, 1, .point 0⟩

/-- `if (a) if (b) x = -c * (d); else { }`. -/
def innerElseTokens : List Token :=
  [bare .kwIf "if", bare .leftParen "(", bare .identifier "a", bare .rightParen ")",
    bare .kwIf "if", bare .leftParen "(", bare .identifier "b", bare .rightParen ")",
    bare .identifier "x", bare .equal "=", bare .minus "-", bare .identifier "c", bare .star "*",
    bare .leftParen "(", bare .identifier "d", bare .rightParen ")", bare .semicolon ";",
    bare .kwElse "else", bare .leftBrace "\x7b", bare .rightBrace "\x7d"]

/-- The `else` is the inner one's. -/
def innerElse : Stmt :=
  .conditional (.variable (bare .identifier "a"))
    (.conditional (.variable (bare .identifier "b"))
      (.expression (.assign (bare .identifier "x")
        (.binary (.unary (bare .minus "-") (.variable (bare .identifier "c"))) (bare .star "*")
          (.grouping (.variable (bare .identifier "d"))))))
      (some (.block [])))
    none

theorem parse_sound_innerElse :
    (Parse.ofTokens (innerElseTokens ++ [.eof 1 0])).errors = [] ∧
      (Parse.ofTokens (innerElseTokens ++ [.eof 1 0])).statements = [innerElse] ∧
      Writes (Stmt.writtenAll [innerElse]) innerElseTokens ∧ Stmt.AllShaped [innerElse] :=
  have h := parse_sound (innerElseTokens ++ [Token.eof 1 0]) rfl
  ⟨rfl, rfl, h.1, h.2.1⟩

end Lox.Grammar
