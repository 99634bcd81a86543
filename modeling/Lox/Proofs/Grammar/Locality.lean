import Lox.Proofs.Grammar.Completeness

/-!
# Proofs — Grammar — What the reading of an expression depends on

The tokens that an expression takes, and the one token behind them: on nothing else does it depend
how an expression is read, be it to its end or up to an error (`expression_local`).  What stands
farther behind does not count, nor does where the input ends, nor the budget, as long as it is
enough.

`Reader.Takes` says so of one stretch of tokens, and `Local` that there is such a stretch in front;
readers that are put together take their stretches one behind the other (`Local.bind`).  A family
of readers, one for each budget, is local all at once, so that budgets need not be compared.
-/

namespace Lox.Grammar

/-- The kinds of token that an expression is made of. -/
def inExpression (k : Token.Kind) : Bool :=
  startsExpression k || k = .rightParen || k = .equal || k.isBinary || k.isLogical

namespace Reader

variable {α β : Type} {P : Token → Prop} {r r' : Nat → Reader α} {last : Token}
  {ts us rest : List Token}

/-- The reader takes the tokens `us` in front of `rest`, with this result.  It does the same
wherever the same token stands behind `us`.  An error blames that token, and one that was noted
blames a token with the property `P`, as all tokens that were taken have it. -/
structure Takes (P : Token → Prop) (r : Nat → Reader α) (last : Token) (us rest : List Token)
    (result : Except GrammarError α) (notices : List Notice) : Prop where
  taken : ∀ t ∈ us, P t
  reads : ∀ (budget : Nat) (last' : Token) (rest' : List Token), last'.kind = .eof →
    rest'.headD last' = rest.headD last → (us ++ rest').length ≤ budget →
      r budget last' (us ++ rest') = ⟨result, rest', notices⟩
  stops : ∀ e, result = .error e → e.token = rest.headD last
  notes : ∀ e, Notice.error e ∈ notices → P e.token

/-- What the reader does in front of `ts` depends on the tokens that it takes there, and on the one
behind them. -/
def Local (P : Token → Prop) (r : Nat → Reader α) (last : Token) (ts : List Token) : Prop :=
  ∃ us rest result notices, ts = us ++ rest ∧ Takes P r last us rest result notices

/-! ### Equations for what comes first -/

theorem peek_bind_apply (f : Token → Reader α) (last : Token) (ts : List Token) :
    (peek >>= f) last ts = f (ts.headD last) last ts := rfl

theorem bind_ok {r : Reader α} {f : α → Reader β} {a : α} {notices : List Notice}
    (h : r last ts = ⟨.ok a, rest, notices⟩) :
    (r >>= f) last ts =
      { f a last rest with notices := notices ++ (f a last rest).notices } := by
  change Reader.bind r f last ts = _
  rw [Reader.bind, h]

theorem bind_error {r : Reader α} {f : α → Reader β} {e : GrammarError} {notices : List Notice}
    (h : r last ts = ⟨.error e, rest, notices⟩) :
    (r >>= f) last ts = ⟨.error e, rest, notices⟩ := by
  change Reader.bind r f last ts = _
  rw [Reader.bind, h]

/-! ### Readers that are local -/

namespace Local

theorem pure (a : α) : Local P (fun _ => Pure.pure a) last ts :=
  ⟨[], ts, .ok a, [], rfl, by simp, fun _ _ _ _ _ _ => rfl, by simp, by simp⟩

theorem fail (cause : GrammarError.Cause) :
    Local P (fun _ => (Reader.fail cause : Reader α)) last ts := by
  refine ⟨[], ts, .error ⟨cause, ts.headD last⟩, [], rfl, by simp, ?_, ?_, by simp⟩
  · intro budget last' rest' _ hhead _
    rw [← hhead]
    rfl
  · rintro e ⟨⟩
    rfl

theorem report {e : GrammarError} (h : P e.token) :
    Local P (fun _ => Reader.report e) last ts :=
  ⟨[], ts, .ok (), [.error e], rfl, by simp, fun _ _ _ _ _ _ => rfl, by simp, by simpa using h⟩

/-- What reads alike wherever the same token stands in front is local alike. -/
theorem congr (h : Local P r last ts)
    (hr : ∀ (budget : Nat) (last' : Token) (ts' : List Token), last'.kind = .eof →
      ts'.headD last' = ts.headD last → ts'.length ≤ budget →
        r' budget last' ts' = r budget last' ts') : Local P r' last ts := by
  obtain ⟨us, rest, result, notices, rfl, h⟩ := h
  refine ⟨us, rest, result, notices, rfl, { h with reads := ?_ }⟩
  intro budget last' rest' hl hhead hlen
  rw [hr budget last' _ hl ?_ hlen, h.reads budget last' rest' hl hhead hlen]
  cases us with
  | nil => exact hhead
  | cons => rfl

/-- Two readers take what the first one takes and, unless it stops, what the second one does. -/
theorem bind {g : α → Nat → Reader β} (h : Local P r last ts)
    (hg : ∀ a rest, rest <:+ ts → Local P (g a) last rest) :
    Local P (fun budget => r budget >>= fun a => g a budget) last ts := by
  obtain ⟨us, rest, result, notices, rfl, h⟩ := h
  cases result with
  | error e =>
      refine ⟨us, rest, .error e, notices, rfl, h.taken, ?_, ?_, h.notes⟩
      · intro budget last' rest' hl hhead hlen
        exact bind_error (h.reads budget last' rest' hl hhead hlen)
      · rintro e' ⟨⟩
        exact h.stops e rfl
  | ok a =>
      obtain ⟨us', rest, result, notices', rfl, h'⟩ := hg a rest (List.suffix_append us rest)
      refine ⟨us ++ us', rest, result, notices ++ notices', by simp, ?_, ?_, h'.stops, ?_⟩
      · intro t ht
        exact (List.mem_append.1 ht).elim (h.taken t) (h'.taken t)
      · intro budget last' rest' hl hhead hlen
        have hmid : (us' ++ rest').headD last' = (us' ++ rest).headD last := by
          cases us' with
          | nil => exact hhead
          | cons => rfl
        rw [List.append_assoc] at hlen ⊢
        rw [bind_ok (h.reads budget last' _ hl hmid hlen), h'.reads budget last' rest' hl hhead]
        rw [List.length_append] at hlen
        omega
      · intro e he
        exact (List.mem_append.1 he).elim (h.notes e) (h'.notes e)

theorem peek_bind {g : Token → Nat → Reader α} (h : Local P (g (ts.headD last)) last ts) :
    Local P (fun budget => Reader.peek >>= fun t => g t budget) last ts := by
  refine h.congr fun budget last' ts' _ hhead _ => ?_
  rw [peek_bind_apply, hhead]

/-- A token is consumed, and with it one of the budget, which is enough and so not used up. -/
theorem of_advance {t : Token} {g : Token → Nat → Reader α} (hne : t.kind ≠ .eof) (ht : P t)
    (hr : ∀ (budget : Nat) (last' : Token) (ts' : List Token), ts'.headD last' = t →
      r (budget + 1) last' ts' = (Reader.advance >>= fun a => g a budget) last' ts')
    (h : Local P (g t) last us) : Local P r last (t :: us) := by
  obtain ⟨us, rest, result, notices, rfl, h⟩ := h
  refine ⟨t :: us, rest, result, notices, rfl, ?_, ?_, h.stops, h.notes⟩
  · intro t' ht'
    rcases List.mem_cons.1 ht' with rfl | ht'
    · exact ht
    · exact h.taken t' ht'
  · intro budget last' rest' hl hhead hlen
    rw [List.cons_append, List.length_cons] at hlen
    obtain ⟨budget, rfl⟩ : ∃ b, budget = b + 1 := ⟨budget - 1, by omega⟩
    rw [hr budget last' _ rfl]
    exact h.reads budget last' rest' hl hhead (by omega)

theorem expect {kind : Token.Kind} (cause : GrammarError.Cause) (hl : last.kind = .eof)
    (hk : kind ≠ .eof) (hP : ∀ t ∈ ts, t.kind = kind → P t) :
    Local P (fun _ => Reader.expect kind cause) last ts := by
  refine .peek_bind (g := fun t _ => if t.kind = kind then Reader.advance else Reader.fail cause) ?_
  cases ts with
  | nil =>
      rw [List.headD_nil, hl]
      simp only [hk.symm, if_false]
      exact .fail cause
  | cons t us =>
      rw [List.headD_cons]
      split
      · rename_i ht
        exact .of_advance (g := fun t _ => Pure.pure t) (ht ▸ hk) (hP t List.mem_cons_self ht)
          (fun _ _ _ _ => rfl) (.pure t)
      · exact .fail cause

/-- The budget that the tokens in front determine is enough. -/
theorem budgeted (h : Local P r last ts) : Local P (fun _ => Reader.budgeted id r) last ts := by
  obtain ⟨us, rest, result, notices, rfl, h⟩ := h
  exact ⟨us, rest, result, notices, rfl, { h with
    reads := fun _ last' rest' hl hhead _ => h.reads _ last' rest' hl hhead (Nat.le_refl _) }⟩

end Local

end Reader

open Reader

variable {P : Token → Prop} {budget : Nat} {last : Token} {ts : List Token}

/-! ### Operands, by the token in front -/

theorem operand_of_isUnary (h : (ts.headD last).kind.isUnary) :
    operand (budget + 1) last ts = (do
      let operator ← advance
      return .unary operator (← operand budget) : Reader Expr) last ts := by
  rw [operand, peek_bind_apply]
  generalize (ts.headD last).kind = k at h ⊢
  cases k <;> first | rfl | cases h

theorem operand_of_isLiteral (h : (ts.headD last).kind.isLiteral) :
    operand (budget + 1) last ts = (do
      let token ← advance
      return .literal (token.literal?.getD .nil) : Reader Expr) last ts := by
  rw [operand, peek_bind_apply]
  generalize (ts.headD last).kind = k at h ⊢
  cases k <;> first | rfl | cases h

theorem operand_of_identifier (h : (ts.headD last).kind = .identifier) :
    operand (budget + 1) last ts = (do return .variable (← advance) : Reader Expr) last ts := by
  rw [operand, peek_bind_apply, h]

theorem operand_of_leftParen (h : (ts.headD last).kind = .leftParen) :
    operand (budget + 1) last ts = (do
      let _ ← advance
      let first ← operand budget
      let inner ← climb budget .lowest first
      let _ ← expect .rightParen (.expectRightParen "expression")
      return .grouping inner : Reader Expr) last ts := by
  rw [operand, peek_bind_apply, h]

theorem operand_of_not_startsExpression (h : startsExpression (ts.headD last).kind = false) :
    operand budget last ts = fail .expectExpression last ts := by
  cases budget with
  | zero => rfl
  | succ budget =>
      rw [operand, peek_bind_apply]
      generalize (ts.headD last).kind = k at h ⊢
      cases k <;> first | rfl | cases h

/-! ### Operators, by the token in front -/

theorem climb_of_not_below {level : Level} {left : Expr}
    (h : level.below (.ofKind (ts.headD last).kind) = false) :
    climb budget level left last ts = (Pure.pure left : Reader Expr) last ts := by
  cases budget with
  | zero => rfl
  | succ budget =>
      rw [climb, peek_bind_apply]
      simp only [h, Bool.false_eq_true, if_false]

theorem climb_of_below {level : Level} {left : Expr}
    (h : level.below (.ofKind (ts.headD last).kind)) :
    climb (budget + 1) level left last ts = (do
      let operator ← advance
      let first ← operand budget
      if operator.kind = .equal then
        let value ← climb budget .lowest first
        climb budget level (← assignTo left operator value)
      else
        let right ← climb budget (.ofKind operator.kind) first
        climb budget level (operation left operator right) : Reader Expr) last ts := by
  rw [climb, peek_bind_apply]
  simp only [h, if_true]
  rfl

theorem inExpression_of_below {level : Level} {k : Token.Kind} (h : level.below (.ofKind k)) :
    inExpression k := by
  rcases Level.lowest_below_ofKind.1 (Level.lowest_below h) with h | h | h <;>
    simp [inExpression, h]

/-! ### Expressions -/

theorem assignTo_local {target value : Expr} {equals : Token} (h : P equals) :
    Local P (fun _ => assignTo target equals value) last ts := by
  cases target with
  | «variable» name => exact .pure _
  | _ => exact .bind (.report h) fun _ _ _ => .pure _

/-- What is asked of operands and of what stands behind them, in front of `ts`. -/
def ExpressionLocal (P : Token → Prop) (last : Token) (ts : List Token) : Prop :=
  Local P operand last ts ∧ ∀ level left, Local P (fun budget => climb budget level left) last ts

/-- An operand takes a token before it reads another operand, or what stands behind one. -/
theorem operand_local (hl : last.kind = .eof) (hP : ∀ t ∈ ts, inExpression t.kind → P t)
    (ih : ∀ t us, ts = t :: us → ∀ vs, vs <:+ us → ExpressionLocal P last vs) :
    Local P operand last ts := by
  cases hstart : startsExpression (ts.headD last).kind with
  | false =>
      refine (Local.fail (P := P) .expectExpression).congr fun budget last' ts' _ hhead _ => ?_
      exact operand_of_not_startsExpression (by rwa [hhead])
  | true =>
      have hne : (ts.headD last).kind ≠ .eof := fun h => by rw [h] at hstart; cases hstart
      cases ts with
      | nil => exact absurd hl hne
      | cons t us =>
          rw [List.headD_cons] at hstart hne
          have ht : P t := hP t List.mem_cons_self (by simp [inExpression, hstart])
          have hus := ih t us rfl
          simp only [startsExpression, Bool.or_eq_true, decide_eq_true_eq] at hstart
          rcases hstart with ((hk | hk) | hk) | hk
          · refine .of_advance hne ht (fun _ _ _ h => operand_of_isUnary (by rwa [h])) ?_
            exact .bind (hus us (List.suffix_refl us)).1 fun _ _ _ => .pure _
          · exact .of_advance hne ht (fun _ _ _ h => operand_of_isLiteral (by rwa [h])) (.pure _)
          · exact .of_advance hne ht (fun _ _ _ h => operand_of_identifier (by rwa [h])) (.pure _)
          · refine .of_advance hne ht (fun _ _ _ h => operand_of_leftParen (by rwa [h])) ?_
            refine .bind (hus us (List.suffix_refl us)).1 fun first vs hvs => ?_
            refine .bind ((hus vs hvs).2 .lowest first) fun inner ws hws => ?_
            refine .bind (.expect _ hl (by decide) fun t ht hk => ?_) fun _ _ _ => .pure _
            exact hP t (List.mem_cons_of_mem _ ((hws.trans hvs).subset ht)) (by rw [hk]; rfl)

/-- Behind an operand, an operator is taken before anything else. -/
theorem climb_local (hl : last.kind = .eof) (hP : ∀ t ∈ ts, inExpression t.kind → P t)
    (ih : ∀ t us, ts = t :: us → ∀ vs, vs <:+ us → ExpressionLocal P last vs)
    (level : Level) (left : Expr) :
    Local P (fun budget => climb budget level left) last ts := by
  cases hbelow : level.below (.ofKind (ts.headD last).kind) with
  | false =>
      refine (Local.pure (P := P) left).congr fun budget last' ts' _ hhead _ => ?_
      exact climb_of_not_below (by rwa [hhead])
  | true =>
      have hin := inExpression_of_below hbelow
      have hne : (ts.headD last).kind ≠ .eof := fun h => by rw [h] at hin; cases hin
      cases ts with
      | nil => exact absurd hl hne
      | cons t us =>
          rw [List.headD_cons] at hbelow hin hne
          have ht : P t := hP t List.mem_cons_self hin
          have hus := ih t us rfl
          refine .of_advance hne ht (fun _ _ _ h => climb_of_below (by rwa [h])) ?_
          refine .bind (hus us (List.suffix_refl us)).1 fun first vs hvs => ?_
          split
          · refine .bind ((hus vs hvs).2 .lowest first) fun value ws hws => ?_
            refine .bind (assignTo_local ht) fun e xs hxs => ?_
            exact (hus xs (hxs.trans (hws.trans hvs))).2 level e
          · refine .bind ((hus vs hvs).2 _ first) fun right ws hws => ?_
            exact (hus ws (hws.trans hvs)).2 level _

theorem expressionLocal (hl : last.kind = .eof) (ts : List Token)
    (hP : ∀ t ∈ ts, inExpression t.kind → P t) : ExpressionLocal P last ts := by
  have ih : ∀ t us, ts = t :: us → ∀ vs, vs <:+ us → ExpressionLocal P last vs := fun t us h vs hvs =>
    expressionLocal hl vs fun t' ht' =>
      hP t' (h ▸ List.mem_cons_of_mem t (hvs.subset ht'))
  exact ⟨operand_local hl hP ih, climb_local hl hP ih⟩
termination_by ts.length
decreasing_by
  have := hvs.length_le
  rw [h, List.length_cons]
  omega

/-- How an expression is read depends on the tokens that it takes and on the one behind them. -/
theorem expression_local (hl : last.kind = .eof) (hP : ∀ t ∈ ts, inExpression t.kind → P t) :
    Local P (fun _ => expression) last ts := by
  refine .budgeted (.bind (expressionLocal hl ts hP).1 fun first rest hrest => ?_)
  exact (expressionLocal hl rest fun t ht => hP t (hrest.subset ht)).2 .lowest first

end Lox.Grammar
