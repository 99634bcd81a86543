import Lox.Proofs.Grammar.Prompt
import Lox.Token.Scan
import Mathlib.Algebra.Order.Group.Multiset
import Mathlib.Data.List.TakeWhile

/-!
# Proofs — Grammar — Reading moves forward

**Progress** (`reads_forward`).  Whatever the tokens are, reading takes each of those in front of
the end of input once, and in order; every declaration takes one, at least.  No two errors blame the
same token, unless it is the end of input, and reading stops at one token behind the other.

`Forward` says so of a reader in front of some tokens, and holds of readers that are put together if
it holds of their parts.  An error that reading stops at blames the token that comes next, which
then is the first one to be skipped (`Forward.recovering`).  Only an assignment without a target is
blamed later, behind the value: so what follows an `=` is given that token to blame, next to those
that it takes itself (`Forward.advance_bind`).
-/

namespace Lox.Grammar
open Reader

/-! ### Steps that move forward -/

/-- The tokens that errors blame, but for the end of input. -/
def blamedIn (notices : List Notice) : Multiset Token :=
  Multiset.filter (fun t => t.isEof = false) ((errorsIn notices).map (·.token) : List Token)

/-- The errors among what is noticed that reading stopped at. -/
def stopsIn (notices : List Notice) : List GrammarError := (errorsIn notices).filter (·.stops)

theorem blamedIn_append (n n' : List Notice) : blamedIn (n ++ n') = blamedIn n + blamedIn n' := by
  rw [blamedIn, errorsIn_append, List.map_append, ← Multiset.coe_add, Multiset.filter_add]
  rfl

theorem stopsIn_append (n n' : List Notice) : stopsIn (n ++ n') = stopsIn n ++ stopsIn n' := by
  rw [stopsIn, errorsIn_append, List.filter_append]
  rfl

/-- Errors in the order of the tokens `us`; from some point on, all of them blame the end of input,
which is only met with nothing left. -/
def InOrder (last : Token) (us rest : List Token) (errors : List GrammarError) : Prop :=
  ∃ es es', errors = es ++ es' ∧ (es.map (·.token)).Sublist us ∧ (∀ e ∈ es', e.token = last) ∧
    (es' ≠ [] → rest = [])

/-- The reader takes the tokens `us` in front of `ts`.  It blames each of them at most once, and no
other token except those it was given for that, and it stops at them in order.  An error that is not
recovered from blames the token behind them. -/
structure Steps {α : Type} (given : Multiset Token) (last : Token) (ts us : List Token)
    (step : Step α) : Prop where
  taken : ts = us ++ step.rest
  once : blamedIn step.notices ≤ given + us
  ordered : InOrder last us step.rest (stopsIn step.notices)
  stops : ∀ e, step.result = .error e → e.stops ∧ e.token = step.rest.headD last

/-- In front of `ts`, the reader moves forward. -/
def Forward {α : Type} (given : Multiset Token) (r : Reader α) (last : Token) (ts : List Token) :
    Prop :=
  ∃ us, Steps given last ts us (r last ts)

variable {α β : Type} {given : Multiset Token} {r : Reader α} {f : α → Reader β} {last t : Token}
  {ts us vs rest : List Token} {errors errors' : List GrammarError}

theorem InOrder.nil : InOrder last us rest [] :=
  ⟨[], [], rfl, List.nil_sublist us, by simp, by simp⟩

theorem InOrder.append (h : InOrder last us (vs ++ rest) errors)
    (h' : InOrder last vs rest errors') :
    InOrder last (us ++ vs) rest (errors ++ errors') := by
  obtain ⟨es, eofs, rfl, hsub, heofs, hend⟩ := h
  obtain ⟨es', eofs', rfl, hsub', heofs', hend'⟩ := h'
  by_cases hne : eofs = []
  · subst hne
    refine ⟨es ++ es', eofs', by simp, ?_, heofs', hend'⟩
    rw [List.map_append]
    exact hsub.append hsub'
  · -- The end of input was met, so there are no tokens to blame any more.
    obtain ⟨rfl, rfl⟩ := List.append_eq_nil_iff.1 (hend hne)
    obtain rfl : es' = [] := List.map_eq_nil_iff.1 (List.sublist_nil.1 hsub')
    refine ⟨es, eofs ++ eofs', by simp, by simpa using hsub, ?_, fun _ => rfl⟩
    intro e he
    exact (List.mem_append.1 he).elim (heofs e) (heofs' e)

namespace Forward

/-- A reader that notices nothing. -/
theorem of_silent (h : ∃ us, ts = us ++ (r last ts).rest) (hn : (r last ts).notices = [])
    (hstops : ∀ e, (r last ts).result = .error e →
      e.stops ∧ e.token = (r last ts).rest.headD last) :
    Forward given r last ts := by
  obtain ⟨us, hus⟩ := h
  refine ⟨us, hus, ?_, ?_, hstops⟩
  · rw [hn]
    exact Multiset.zero_le _
  · rw [hn]
    exact .nil

theorem pure (a : α) : Forward given (Pure.pure a : Reader α) last ts :=
  of_silent ⟨[], rfl⟩ rfl fun _ he => nomatch he

theorem peek : Forward given Reader.peek last ts :=
  of_silent ⟨[], rfl⟩ rfl fun _ he => nomatch he

theorem advance : Forward given Reader.advance last ts :=
  of_silent ⟨ts.take 1, by cases ts <;> rfl⟩ rfl fun _ he => nomatch he

theorem fail {cause : GrammarError.Cause} (h : cause ≠ .invalidAssignmentTarget) :
    Forward given (Reader.fail cause : Reader α) last ts := by
  refine of_silent ⟨[], rfl⟩ rfl fun e he => ?_
  cases he
  exact ⟨decide_eq_true h, rfl⟩

theorem mono {given' : Multiset Token} (h : Forward given r last ts) (hle : given ≤ given') :
    Forward given' r last ts := by
  obtain ⟨us, h⟩ := h
  exact ⟨us, { h with once := h.once.trans (add_le_add hle le_rfl) }⟩

theorem congr {r' : Reader α} (h : Forward given r last ts) (heq : r' last ts = r last ts) :
    Forward given r' last ts := by
  rwa [Forward, heq]

theorem peek_bind {f : Token → Reader α} (h : Forward given (f (ts.headD last)) last ts) :
    Forward given (Reader.peek >>= f) last ts := h

theorem expect (kind : Token.Kind) {cause : GrammarError.Cause}
    (h : cause ≠ .invalidAssignmentTarget) :
    Forward given (Reader.expect kind cause) last ts := by
  refine .peek_bind ?_
  split
  · exact .advance
  · exact .fail h

/-- What two readers take and blame, one after the other. -/
theorem bind_given {given' : Multiset Token} (h : Forward given r last ts)
    (hf : ∀ a rest, Forward given' (f a) last rest) :
    Forward (given + given') (r >>= f) last ts := by
  obtain ⟨us, h⟩ := h
  cases hr : r last ts with
  | mk result rest notices =>
      rw [hr] at h
      cases result with
      | error e =>
          rw [Forward, bind_error hr]
          refine ⟨us, h.taken, h.once.trans ?_, h.ordered, ?_⟩
          · exact add_le_add (Multiset.le_add_right _ _) le_rfl
          · rintro e' ⟨⟩
            exact h.stops e rfl
      | ok a =>
          obtain ⟨vs, h'⟩ := hf a rest
          rw [Forward, bind_ok hr]
          refine ⟨us ++ vs, ?_, ?_, ?_, h'.stops⟩
          · rw [h.taken, List.append_assoc]
            exact congrArg _ h'.taken
          · rw [blamedIn_append, ← Multiset.coe_add, add_add_add_comm]
            exact add_le_add h.once h'.once
          · rw [stopsIn_append]
            exact .append (h'.taken ▸ h.ordered) h'.ordered

theorem bind (h : Forward 0 r last ts) (hf : ∀ a rest, Forward given (f a) last rest) :
    Forward given (r >>= f) last ts :=
  zero_add given ▸ h.bind_given hf

theorem bind_left (h : Forward given r last ts) (hf : ∀ a rest, Forward 0 (f a) last rest) :
    Forward given (r >>= f) last ts :=
  add_zero given ▸ h.bind_given hf

theorem map {f : α → β} (h : Forward 0 r last ts) : Forward 0 (f <$> r) last ts :=
  h.bind fun _ _ => .pure _

/-- A token that is consumed may be blamed later. -/
theorem advance_bind {f : Token → Reader α} (h : Forward {t} (f t) last ts) :
    Forward 0 (Reader.advance >>= f) last (t :: ts) := by
  obtain ⟨us, h⟩ := h
  refine ⟨t :: us, ?_, ?_, ?_, h.stops⟩
  · exact congrArg (t :: ·) h.taken
  · rw [zero_add, ← Multiset.cons_coe, ← Multiset.singleton_add]
    exact h.once
  · obtain ⟨es, es', heq, hsub, heofs, hend⟩ := h.ordered
    exact ⟨es, es', heq, hsub.cons t, heofs, hend⟩

/-- An error that is reported blames a token that was given for that. -/
theorem report : Forward {t} (Reader.report ⟨.invalidAssignmentTarget, t⟩) last ts := by
  refine ⟨[], rfl, ?_, .nil, fun _ he => nomatch he⟩
  exact (Multiset.filter_le _ _).trans (Multiset.le_add_right _ _)

end Forward

/-! ### Recovery -/

theorem skipFrom_suffix (previous : Token) (ts : List Token) : skipFrom previous ts <:+ ts := by
  induction ts generalizing previous with
  | nil => exact List.suffix_rfl
  | cons t ts ih =>
      rw [skipFrom]
      split
      · exact List.suffix_rfl
      · exact (ih t).trans (List.suffix_cons t ts)

/-- What is skipped starts with the token in front. -/
theorem exists_skipped (t : Token) (ts : List Token) :
    ∃ us, t :: ts = t :: us ++ skipToStatement (t :: ts) := by
  obtain ⟨us, hus⟩ := skipFrom_suffix t ts
  exact ⟨us, congrArg (t :: ·) hus.symm⟩

section

variable {e : GrammarError}

theorem blamedIn_stopped (notices : List Notice) (e : GrammarError) (t : Token) :
    blamedIn (notices ++ [.error e, .resumed t]) =
      blamedIn notices + Multiset.filter (fun t => t.isEof = false) {e.token} :=
  blamedIn_append _ _

theorem stopsIn_stopped (notices : List Notice) (h : e.stops) (t : Token) :
    stopsIn (notices ++ [.error e, .resumed t]) = stopsIn notices ++ [e] := by
  rw [stopsIn_append]
  simp [stopsIn, errorsIn, h]

/-- Behind all tokens, the end of input is blamed. -/
theorem InOrder.concat_eof (h : InOrder last us [] errors) (he : e.token = last) :
    InOrder last us [] (errors ++ [e]) := by
  obtain ⟨es, eofs, rfl, hsub, heofs, -⟩ := h
  refine ⟨es, eofs ++ [e], by simp, hsub, ?_, fun _ => rfl⟩
  intro e' he'
  rcases List.mem_append.1 he' with he' | he'
  · exact heofs e' he'
  · rw [List.mem_singleton.1 he', he]

/-- Otherwise the next token is, which is then taken. -/
theorem InOrder.concat_next (h : InOrder last us (t :: vs ++ rest) errors) (he : e.token = t) :
    InOrder last (us ++ t :: vs) rest (errors ++ [e]) := by
  have hnext : InOrder last (t :: vs) rest [e] := by
    refine ⟨[e], [], rfl, ?_, by simp, by simp⟩
    rw [List.map_singleton, he]
    exact (List.nil_sublist vs).cons_cons t
  exact h.append hnext

/-- The blamed token is the first one that is skipped. -/
theorem Forward.recovering {r : Reader Stmt} (hl : last.kind = .eof) (h : Forward 0 r last ts) :
    Forward 0 (recovering r) last ts := by
  obtain ⟨us, h⟩ := h
  rw [Forward, Grammar.recovering]
  cases hr : r last ts with
  | mk result rest notices =>
      rw [hr] at h
      obtain ⟨htaken, honce, hordered, hstops⟩ := h
      cases result with
      | ok s => exact ⟨us, htaken, honce, hordered, by simp⟩
      | error e =>
          obtain ⟨hstop, htoken⟩ := hstops e rfl
          cases rest with
          | nil =>
              have heof : e.token.isEof = true := by
                rw [htoken, List.headD_nil, Token.isEof, hl]
                rfl
              refine ⟨us, htaken, ?_, ?_, by simp⟩
              · rw [blamedIn_stopped, Multiset.filter_singleton]
                simpa [heof] using honce
              · rw [stopsIn_stopped notices hstop]
                exact hordered.concat_eof htoken
          | cons t rest =>
              obtain ⟨skipped, hskip⟩ := exists_skipped t rest
              refine ⟨us ++ t :: skipped, ?_, ?_, ?_, by simp⟩
              · rw [htaken, List.append_assoc]
                exact congrArg _ hskip
              · rw [blamedIn_stopped, htoken, ← Multiset.coe_add, ← add_assoc]
                refine add_le_add honce ((Multiset.filter_le _ _).trans ?_)
                rw [← Multiset.cons_coe, Multiset.singleton_le]
                exact Multiset.mem_cons_self t _
              · rw [stopsIn_stopped notices hstop]
                exact .concat_next (hskip ▸ hordered) htoken

end

/-! ### Readers that take a token -/

theorem Forward.length_le_of_eq {result : Except GrammarError α} {notices : List Notice}
    (h : Forward given r last ts) (hr : r last ts = ⟨result, rest, notices⟩) :
    rest.length ≤ ts.length := by
  obtain ⟨us, h⟩ := h
  rw [hr] at h
  rw [h.taken, List.length_append]
  exact Nat.le_add_left _ _

theorem Forward.length_le (h : Forward given r last ts) : (r last ts).rest.length ≤ ts.length :=
  h.length_le_of_eq rfl

/-- In front of `ts`, the reader moves forward, and a result costs a token. -/
structure Advances {α : Type} (r : Reader α) (last : Token) (ts : List Token) : Prop where
  forward : Forward 0 r last ts
  costs : ∀ a, (r last ts).result = .ok a → (r last ts).rest.length < ts.length

namespace Advances

theorem fail {cause : GrammarError.Cause} (h : cause ≠ .invalidAssignmentTarget) :
    Advances (Reader.fail cause : Reader α) last ts :=
  ⟨.fail h, fun _ ha => nomatch ha⟩

theorem peek_bind {f : Token → Reader α} (h : Advances (f (ts.headD last)) last ts) :
    Advances (Reader.peek >>= f) last ts := ⟨h.forward, h.costs⟩

theorem expect {kind : Token.Kind} {cause : GrammarError.Cause} (hl : last.kind = .eof)
    (hk : kind ≠ .eof) (h : cause ≠ .invalidAssignmentTarget) :
    Advances (Reader.expect kind cause) last ts := by
  refine .peek_bind ?_
  split
  · rename_i ht
    cases ts with
    | nil => exact absurd (ht.symm.trans hl) hk
    | cons t ts => exact ⟨.advance, fun _ _ => Nat.lt_succ_self _⟩
  · exact .fail h

/-- If the first of two readers takes a token, they do. -/
theorem bind (h : Advances r last ts) (hf : ∀ a rest, Forward 0 (f a) last rest) :
    Advances (r >>= f) last ts := by
  refine ⟨h.forward.bind hf, fun b hb => ?_⟩
  cases hr : r last ts with
  | mk result rest notices =>
      cases result with
      | error e =>
          rw [bind_error hr] at hb
          cases hb
      | ok a =>
          rw [bind_ok hr]
          have hlt := h.costs a (by rw [hr])
          rw [hr] at hlt
          exact Nat.lt_of_le_of_lt (hf a rest).length_le hlt

/-- If the second of two readers takes a token, they do. -/
theorem behind (h : Forward 0 r last ts) (hf : ∀ a rest, Advances (f a) last rest) :
    Advances (r >>= f) last ts := by
  refine ⟨h.bind fun a rest => (hf a rest).forward, fun b hb => ?_⟩
  cases hr : r last ts with
  | mk result rest notices =>
      cases result with
      | error e =>
          rw [bind_error hr] at hb
          cases hb
      | ok a =>
          rw [bind_ok hr] at hb ⊢
          exact Nat.lt_of_lt_of_le ((hf a rest).costs b hb) (h.length_le_of_eq hr)

end Advances

/-- Recovering takes a token, if there is one. -/
theorem Advances.recovering {r : Reader Stmt} (hl : last.kind = .eof) (h : Advances r last ts)
    (hne : ts ≠ []) : ∃ t us, ts = t :: us ++ (Grammar.recovering r last ts).rest := by
  have hlt : (Grammar.recovering r last ts).rest.length < ts.length := by
    have hpos := List.length_pos_iff.2 hne
    rw [Grammar.recovering]
    cases hr : r last ts with
    | mk result rest notices =>
        have hle := h.forward.length_le_of_eq hr
        cases result with
        | ok s =>
            have hlt := h.costs s (by rw [hr])
            rwa [hr] at hlt
        | error e =>
            cases rest with
            | nil => exact hpos
            | cons t rest =>
                exact Nat.lt_of_lt_of_le (Nat.lt_succ_of_le (skipFrom_suffix t rest).length_le) hle
  obtain ⟨us, hus⟩ := h.forward.recovering hl
  cases us with
  | nil => exact absurd (congrArg List.length hus.taken) (Nat.ne_of_gt hlt)
  | cons t us => exact ⟨t, us, hus.taken⟩

/-! ### The readers of the grammar -/

section

variable {budget : Nat}

theorem assignTo_forward (target value : Expr) (equals : Token) :
    Forward {equals} (assignTo target equals value) last ts := by
  cases target with
  | «variable» name => exact .pure _
  | _ => exact .bind_left .report fun _ _ => .pure _

theorem operand_forward_succ (ho : ∀ ts, Forward 0 (operand budget) last ts)
    (hc : ∀ level left ts, Forward 0 (climb budget level left) last ts) :
    Forward 0 (operand (budget + 1)) last ts := by
  rw [operand]
  refine .peek_bind ?_
  split
  case h_1 | h_2 => exact .bind .advance fun _ _ => .bind (ho _) fun _ _ => .pure _
  case h_9 =>
    refine .bind .advance fun _ _ => .bind (ho _) fun _ _ => .bind (hc _ _ _) fun _ _ => ?_
    exact .bind (.expect _ (by simp)) fun _ _ => .pure _
  case h_10 => exact .fail (by simp)
  all_goals exact .bind .advance fun _ _ => .pure _

theorem climb_forward_succ (hl : last.kind = .eof) (ho : ∀ ts, Forward 0 (operand budget) last ts)
    (hc : ∀ level left ts, Forward 0 (climb budget level left) last ts) (level : Level)
    (left : Expr) : Forward 0 (climb (budget + 1) level left) last ts := by
  cases hbelow : level.below (.ofKind (ts.headD last).kind) with
  | false =>
      exact (Forward.pure left).congr (climb_of_not_below hbelow)
  | true =>
      cases ts with
      | nil =>
          have hin := inExpression_of_below hbelow
          rw [List.headD_nil, hl] at hin
          cases hin
      | cons t us =>
          refine Forward.congr (.advance_bind (.bind (ho _) fun first _ => ?_))
            (climb_of_below hbelow)
          split
          · -- If this is an assignment without a target, it is blamed when the value is read.
            refine .bind (hc _ _ _) fun value _ => ?_
            exact .bind_left (assignTo_forward _ _ _) fun _ _ => hc _ _ _
          · have hright : ∀ right rest,
                Forward 0 (climb budget level (operation left t right)) last rest :=
              fun _ _ => hc _ _ _
            exact (Forward.bind (hc _ _ _) hright).mono (Multiset.zero_le _)

theorem operand_forward_climb_forward (hl : last.kind = .eof) (budget : Nat) :
    (∀ ts, Forward 0 (operand budget) last ts) ∧
      ∀ level left ts, Forward 0 (climb budget level left) last ts := by
  induction budget with
  | zero => exact ⟨fun _ => .fail (by simp), fun _ left _ => .pure left⟩
  | succ budget ih =>
      exact ⟨fun _ => operand_forward_succ ih.1 ih.2,
        fun _ _ _ => climb_forward_succ hl ih.1 ih.2 _ _⟩

theorem expression_forward (hl : last.kind = .eof) (ts : List Token) :
    Forward 0 expression last ts := by
  obtain ⟨ho, hc⟩ := operand_forward_climb_forward hl ts.length
  exact Forward.bind (ho ts) fun first _ => hc .lowest first _

theorem declaration_advances (hl : last.kind = .eof) (ts : List Token) :
    Advances declaration last ts := by
  refine .behind .advance fun _ _ => .bind (.expect hl (by simp) (by simp)) fun name _ => ?_
  have hend : ∀ initializer? rest, Forward 0 (do
      let _ ← Reader.expect .semicolon (.expectSemicolon "variable declaration")
      return .declare name initializer? : Reader Stmt) last rest :=
    fun _ _ => .bind (.expect _ (by simp)) fun _ _ => .pure _
  refine .peek_bind ?_
  split
  · exact .bind .advance fun _ _ => .bind (expression_forward hl _).map hend
  · exact .bind (.pure none) hend

theorem printStatement_advances (hl : last.kind = .eof) (ts : List Token) :
    Advances printStatement last ts :=
  .behind .advance fun _ _ => .behind (expression_forward hl _) fun _ _ =>
    .bind (.expect hl (by simp) (by simp)) fun _ _ => .pure _

theorem expressionStatement_advances (hl : last.kind = .eof) (ts : List Token) :
    Advances expressionStatement last ts :=
  .behind (expression_forward hl _) fun _ _ =>
    .bind (.expect hl (by simp) (by simp)) fun _ _ => .pure _

theorem ifCondition_advances (hl : last.kind = .eof) (ts : List Token) :
    Advances ifCondition last ts :=
  .behind .advance fun _ _ => .bind (.expect hl (by simp) (by simp)) fun _ _ =>
    .bind (expression_forward hl _) fun _ _ => .bind (.expect _ (by simp)) fun _ _ => .pure _

theorem statement_advances_succ (hl : last.kind = .eof)
    (hs : ∀ ts, Advances (statement budget) last ts)
    (hd : ∀ enclosure ts, Forward 0 (declarations budget enclosure) last ts) :
    Advances (statement (budget + 1)) last ts := by
  rw [statement]
  refine .peek_bind ?_
  split
  · refine .bind (ifCondition_advances hl _) fun condition _ => ?_
    refine .bind (hs _).forward fun consequent _ => .peek_bind ?_
    split
    · exact .bind .advance fun _ _ => .bind (hs _).forward fun _ _ => .pure _
    · exact .pure _
  · exact printStatement_advances hl _
  · exact .behind .advance fun _ _ => .behind (hd _ _) fun _ _ =>
      .bind (.expect hl (by simp) (by simp)) fun _ _ => .pure _
  · exact expressionStatement_advances hl _

theorem declarationOf_advances (hl : last.kind = .eof)
    (hs : ∀ ts, Advances (statement budget) last ts) (front : Token) (ts : List Token) :
    Advances (if front.kind = .kwVar then declaration else statement budget) last ts := by
  split
  · exact declaration_advances hl ts
  · exact hs ts

theorem declarations_forward_succ (hl : last.kind = .eof)
    (hs : ∀ ts, Advances (statement budget) last ts)
    (hd : ∀ enclosure ts, Forward 0 (declarations budget enclosure) last ts)
    (enclosure : Enclosure) : Forward 0 (declarations (budget + 1) enclosure) last ts := by
  rw [declarations]
  refine .peek_bind ?_
  split
  · exact .pure _
  · refine .bind (.recovering hl (declarationOf_advances hl hs _ ts).forward) fun _ _ => ?_
    exact .bind (hd _ _) fun _ _ => .pure _

/-- Statements move forward, and so do lists of declarations. -/
theorem statement_advances_declarations_forward (hl : last.kind = .eof) (budget : Nat) :
    (∀ ts, Advances (statement budget) last ts) ∧
      ∀ enclosure ts, Forward 0 (declarations budget enclosure) last ts := by
  induction budget with
  | zero => exact ⟨fun _ => .fail (by simp), fun _ _ => .pure []⟩
  | succ budget ih =>
      exact ⟨fun _ => statement_advances_succ hl ih.1 ih.2,
        fun enclosure _ => declarations_forward_succ hl ih.1 ih.2 enclosure⟩

end

/-! ### Whole programs -/

/-- The stretches of tokens that the declarations of a list take, one behind the other. -/
def stretches (last : Token) : Nat → Enclosure → List Token → List (List Token)
  | 0, _, _ => []
  | budget + 1, enclosure, ts =>
    if enclosure.endsBefore (ts.headD last) then []
    else
      let rest := (recovering (declarationOf ts budget) last ts).rest
      ts.take (ts.length - rest.length) :: stretches last budget enclosure rest

/-- A token list that is read forward: its first `input.body` tokens, up to `input.last`. -/
structure ReadsForward (input : Input) (ts : List Token) (errors : List GrammarError) : Prop where
  /-- What is read ends in front of the first end of input, or else of one that is supplied. -/
  front : ts = input.body ∧ input.last = Input.suppliedEof ts ∨
    ∃ more, ts = input.body ++ input.last :: more
  isEof : input.last.isEof ∧ ∀ t ∈ input.body, t.isEof = false
  /-- There, and nowhere else, reading comes to its end. -/
  rest : (program input.last input.body).rest = []
  /-- The declarations of the program take all tokens, each of them once, and in order. -/
  taken : (stretches input.last (2 * input.body.length) .program input.body).flatten = input.body
  /-- A declaration, wherever it is read, takes the token in front. -/
  declaration : ∀ budget us, us ≠ [] →
    ∃ t more, us = t :: more ++ (recovering (declarationOf us budget) input.last us).rest
  blamed : ∀ e ∈ errors, e.token.isEof = false → e.token ∈ input.body
  /-- No two errors blame the same token, unless it is the end of input. -/
  once : errors.Pairwise fun e e' => e.token.isEof = false → e'.token.isEof = false →
    e.token.span ≠ e'.token.span
  /-- Reading stops at one token after the other, and then at the end of input only. -/
  ordered : ∃ es es', errors.filter (·.stops) = es ++ es' ∧
    (es.map (·.token)).Sublist input.body ∧ ∀ e ∈ es', e.token = input.last

section

variable {budget : Nat}

/-- What is left behind a reader that always answers is left to what follows it. -/
theorem rest_bind (hr : r.Total) (hf : ∀ a, (f a last (r last ts).rest).rest = rest) :
    ((r >>= f) last ts).rest = rest := by
  obtain ⟨a, ha⟩ := hr last ts
  have hrest := hf a
  cases heq : r last ts with
  | mk result mid notices =>
      rw [heq] at ha hrest
      cases ha
      rw [bind_ok heq]
      exact hrest

theorem rest_declarations_succ (ht : t.isEof = false) :
    (declarations (budget + 1) .program last (t :: us)).rest = (declarations budget .program last
      (recovering (declarationOf (t :: us) budget) last (t :: us)).rest).rest := by
  have hends : Enclosure.program.endsBefore t = false := by simp [Enclosure.endsBefore, ht]
  rw [declarations, peek_bind_apply, List.headD_cons, hends]
  refine rest_bind (.recovering _) fun first? => rest_bind (declarations_total _) fun others => ?_
  rfl

/-- All tokens of a program are taken, a stretch for each declaration. -/
theorem program_taken (hl : last.kind = .eof) (hts : ∀ t ∈ ts, t.isEof = false)
    (hlen : ts.length ≤ budget) :
    (declarations budget .program last ts).rest = [] ∧
      (stretches last budget .program ts).flatten = ts := by
  induction budget generalizing ts with
  | zero =>
      obtain rfl := List.eq_nil_of_length_eq_zero (Nat.le_zero.1 hlen)
      exact ⟨rfl, rfl⟩
  | succ budget ih =>
      cases ts with
      | nil =>
          have hends : Enclosure.program.endsBefore last = true := by
            simp [Enclosure.endsBefore, Token.isEof, hl]
          rw [declarations_nil _ hl, stretches, List.headD_nil, if_pos hends]
          exact ⟨rfl, rfl⟩
      | cons t us =>
          have ht := hts t List.mem_cons_self
          have hends : Enclosure.program.endsBefore t = false := by simp [Enclosure.endsBefore, ht]
          obtain ⟨hs, -⟩ := statement_advances_declarations_forward hl budget
          obtain ⟨t', more, htaken⟩ :=
            (declarationOf_advances hl hs _ (t :: us)).recovering hl (List.cons_ne_nil t us)
          rw [rest_declarations_succ ht, stretches, List.headD_cons, hends]
          rw [declarationOf]
          generalize (recovering _ last (t :: us)).rest = rest at htaken ⊢
          have hlength := congrArg List.length htaken
          simp only [List.length_append, List.length_cons] at hlength hlen
          obtain ⟨hrest, hflat⟩ := @ih rest
            (fun u hu => hts u (htaken ▸ List.mem_append_right _ hu)) (by omega)
          refine ⟨hrest, ?_⟩
          simp only [Bool.false_eq_true, if_false]
          rw [List.flatten_cons, hflat, htaken, List.length_append, Nat.add_sub_cancel,
            List.take_left]

/-- A list is cut at its first end of input. -/
theorem Input.front_ofTokens (ts : List Token) :
    ts = (Input.ofTokens ts).body ∧ (Input.ofTokens ts).last = Input.suppliedEof ts ∨
      ∃ more, ts = (Input.ofTokens ts).body ++ (Input.ofTokens ts).last :: more := by
  rw [Input.ofTokens]
  cases hfind : ts.find? (·.isEof) with
  | none =>
      refine .inl ⟨(List.takeWhile_eq_self_iff.2 fun t ht => ?_).symm, rfl⟩
      simpa using List.find?_eq_none.1 hfind t ht
  | some t =>
      obtain ⟨heof, body, more, rfl, hbody⟩ := List.find?_eq_some_iff_append.1 hfind
      refine .inr ⟨more, ?_⟩
      rw [List.takeWhile_append_of_pos hbody, List.takeWhile_cons_of_neg (by simp [heof])]
      rw [List.append_nil, Option.getD_some]

/-- Tokens at different places that are blamed at most once each. -/
theorem once_of_blamedIn_le {notices : List Notice} (h : blamedIn notices ≤ (ts : Multiset Token))
    (hts : (ts.map (·.span)).Nodup) :
    (errorsIn notices).Pairwise fun e e' => e.token.isEof = false → e'.token.isEof = false →
      e.token.span ≠ e'.token.span := by
  have hle := Multiset.map_le_map (f := fun t : Token => t.span) h
  rw [Multiset.map_coe] at hle
  have hnodup := Multiset.nodup_of_le hle (Multiset.coe_nodup.2 hts)
  rw [blamedIn, Multiset.filter_coe, Multiset.map_coe, Multiset.coe_nodup, List.Nodup,
    List.pairwise_map, List.pairwise_filter, List.pairwise_map] at hnodup
  simpa using hnodup

/-- **Progress.**  A token list whose tokens lie at different places is read forward. -/
theorem reads_forward (ts : List Token) (hts : (ts.map (·.span)).Nodup) :
    ReadsForward (.ofTokens ts) ts (Parse.ofTokens ts).errors := by
  have hl := Input.ofTokens_last ts
  have hbody : ∀ t ∈ (Input.ofTokens ts).body, t.isEof = false :=
    fun t ht => Input.isEof_of_mem_body ht
  have hlen : (Input.ofTokens ts).body.length ≤ 2 * (Input.ofTokens ts).body.length := by omega
  obtain ⟨hrest, htaken⟩ := program_taken hl hbody hlen
  have hforward := statement_advances_declarations_forward hl
  obtain ⟨us, hus⟩ : Forward 0 program (Input.ofTokens ts).last (Input.ofTokens ts).body :=
    (hforward _).2 .program _
  have hrest' : (program (Input.ofTokens ts).last (Input.ofTokens ts).body).rest = [] := hrest
  obtain rfl : (Input.ofTokens ts).body = us := by
    rw [hus.taken, hrest', List.append_nil]
  have honce := hus.once
  rw [zero_add] at honce
  have hspans : ((Input.ofTokens ts).body.map (·.span)).Nodup :=
    hts.sublist ((List.takeWhile_sublist _).map _)
  refine ⟨Input.front_ofTokens ts, ⟨?_, hbody⟩, hrest, htaken, ?_, ?_,
    once_of_blamedIn_le honce hspans, ?_⟩
  · rw [Token.isEof, hl]
    rfl
  · intro budget vs hvs
    exact (declarationOf_advances hl (hforward budget).1 _ vs).recovering hl hvs
  · intro e he heof
    refine Multiset.mem_coe.1 (Multiset.mem_of_le honce ?_)
    exact Multiset.mem_filter.2 ⟨Multiset.mem_coe.2 (List.mem_map_of_mem he), heof⟩
  · obtain ⟨es, es', heq, hsub, heofs, -⟩ := hus.ordered
    exact ⟨es, es', heq, hsub, heofs⟩

/-- Errors within a block, on assignments without a target among them, and one at the end of
input. -/
theorem reads_forward_recovered :
    ((Token.Scan.ofString "{ 1 = 2 = ; } print").tokens.map (·.span)).Nodup ∧
      ReadsForward (.ofTokens (Token.Scan.ofString "{ 1 = 2 = ; } print").tokens)
        (Token.Scan.ofString "{ 1 = 2 = ; } print").tokens
        (Parse.ofTokens (Token.Scan.ofString "{ 1 = 2 = ; } print").tokens).errors :=
  have h : ((Token.Scan.ofString "{ 1 = 2 = ; } print").tokens.map (·.span)).Nodup := by decide
  ⟨h, reads_forward _ h⟩

end

end Lox.Grammar
