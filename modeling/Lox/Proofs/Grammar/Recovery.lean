import Lox.Proofs.Grammar.Joining
import Lox.Proofs.Grammar.Locality

/-!
# Proofs — Grammar — Errors that stay in their segment

A segment ends with its only semicolon, holds no brace, and only its first token may start a
statement.  Whatever is wrong with it, segments one behind the other are read as each is read alone:
the same statements, and the same errors on the same tokens (`parse_flatten`).  Only a segment that
starts with `else` may not stand behind another, for the `if` of that one would take it.

No reader takes the semicolon before the statement is complete, since it is in no expression
(`Within.expression`).  So a statement that is read ends right behind the semicolon; and an error
leaves a rest in which the semicolon still stands, and no token that could start a statement before
it, so that skipping ends right behind it, too (`skipToStatement_closed`).
-/

namespace Lox.Grammar
open Reader

/-! ### Lists that end with a semicolon -/

/-- The last token is a semicolon, and no other is. -/
inductive Closed : List Token → Prop where
  | stop {t : Token} (h : t.kind = .semicolon) : Closed [t]
  | cons {t : Token} {ts : List Token} (h : t.kind ≠ .semicolon) (hs : Closed ts) : Closed (t :: ts)

namespace Closed

variable {t : Token} {ts us : List Token}

theorem exists_cons (h : Closed ts) : ∃ t us, ts = t :: us := by
  cases h with
  | stop => exact ⟨_, [], rfl⟩
  | cons => exact ⟨_, _, rfl⟩

theorem of_cons (h : Closed (t :: ts)) (ht : t.kind ≠ .semicolon) : Closed ts := by
  cases h with
  | stop h => exact absurd h ht
  | cons _ hs => exact hs

theorem eq_nil (h : Closed (t :: ts)) (ht : t.kind = .semicolon) : ts = [] := by
  cases h with
  | stop => rfl
  | cons h => exact absurd ht h

theorem of_append (h : Closed (us ++ ts)) (hus : ∀ t ∈ us, t.kind ≠ .semicolon) : Closed ts := by
  induction us with
  | nil => exact h
  | cons t us ih =>
      exact ih (h.of_cons (hus t List.mem_cons_self)) fun t' ht' => hus t' (List.mem_cons_of_mem t ht')

/-- The token in front is one of the list. -/
theorem headD_append (h : Closed ts) (rest : List Token) (last last' : Token) :
    (ts ++ rest).headD last = ts.headD last' := by
  obtain ⟨t, us, rfl⟩ := h.exists_cons
  rfl

theorem headD_mem (h : Closed ts) (last : Token) : ts.headD last ∈ ts := by
  obtain ⟨t, us, rfl⟩ := h.exists_cons
  exact List.mem_cons_self

end Closed

/-- Whether a list is closed can be computed. -/
instance Closed.decidable : (ts : List Token) → Decidable (Closed ts)
  | [] => .isFalse nofun
  | t :: ts =>
    if ht : t.kind = .semicolon then
      match ts with
      | [] => .isTrue (.stop ht)
      | _ :: _ => .isFalse fun h => nomatch h.eq_nil ht
    else
      match decidable ts with
      | .isTrue hs => .isTrue (.cons ht hs)
      | .isFalse hs => .isFalse fun h => hs (h.of_cons ht)

/-- What is skipped in a closed list without a further start of a statement is the whole list. -/
theorem skipToStatement_closed {ts : List Token} (h : Closed ts)
    (hs : ∀ t ∈ ts.tail, t.kind.startsStatement = false) (rest : List Token) :
    skipToStatement (ts ++ rest) = rest := by
  induction h with
  | @stop t ht =>
      change skipFrom t rest = rest
      cases rest with
      | nil => rfl
      | cons u rest => simp [skipFrom, ht]
  | @cons t ts ht hc ih =>
      obtain ⟨u, us, rfl⟩ := hc.exists_cons
      have hu : u.kind.startsStatement = false := hs u List.mem_cons_self
      have hskip : skipFrom t (u :: us ++ rest) = skipFrom u (us ++ rest) := by
        rw [List.cons_append, skipFrom]
        simp [ht, hu]
      exact hskip.trans (ih fun v hv => hs v (List.mem_cons_of_mem u hv))

/-! ### Readers that stay within a list -/

variable {α β : Type} {leaves mid : List Token → Prop} {r r' : Nat → Reader α}
  {t : Token} {ts us : List Token}

/-- In front of `ts` the reader stays within `ts`, with the same result whatever stands behind
`ts`, unless that is an `else`.  With a result it leaves the tokens `us`, of which `leaves` holds;
an error leaves a closed list, and blames a token of it. -/
structure Stays (leaves : List Token → Prop) (r : Nat → Reader α) (ts us : List Token)
    (result : Except GrammarError α) (notices : List Notice) : Prop where
  suffix : us <:+ ts
  reads : ∀ (budget : Nat) (last : Token) (rest : List Token), last.kind = .eof →
    (rest.headD last).kind ≠ .kwElse → ts.length ≤ budget →
      r budget last (ts ++ rest) = ⟨result, us ++ rest, notices⟩
  left : ∀ a, result = .ok a → leaves us
  stops : ∀ e, result = .error e → Closed us ∧ e.token ∈ us
  notes : ∀ e, Notice.error e ∈ notices → e.token ∈ ts

/-- The reader stays within `ts`. -/
def Within (leaves : List Token → Prop) (r : Nat → Reader α) (ts : List Token) : Prop :=
  ∃ us result notices, Stays leaves r ts us result notices

namespace Within

theorem pure {a : α} (h : leaves ts) : Within leaves (fun _ => Pure.pure a) ts :=
  ⟨ts, .ok a, [], List.suffix_refl ts, fun _ _ _ _ _ _ => rfl, fun _ _ => h, by simp, by simp⟩

theorem fail (h : Closed ts) (cause : GrammarError.Cause) :
    Within leaves (fun _ => (Reader.fail cause : Reader α)) ts := by
  refine ⟨ts, .error ⟨cause, ts.headD (.eof 1 0)⟩, [], List.suffix_refl ts, ?_, by simp, ?_, by simp⟩
  · intro _ last rest _ _ _
    rw [← h.headD_append rest last]
    rfl
  · rintro e ⟨⟩
    exact ⟨h, h.headD_mem _⟩

theorem congr (h : Within leaves r ts)
    (hr : ∀ (budget : Nat) (last : Token) (rest : List Token), last.kind = .eof →
      (rest.headD last).kind ≠ .kwElse → ts.length ≤ budget →
        r' budget last (ts ++ rest) = r budget last (ts ++ rest)) : Within leaves r' ts := by
  obtain ⟨us, result, notices, h⟩ := h
  refine ⟨us, result, notices, { h with reads := fun budget last rest hl he hlen => ?_ }⟩
  rw [hr budget last rest hl he hlen, h.reads budget last rest hl he hlen]

theorem bind {g : α → Nat → Reader β} (h : Within mid r ts)
    (hg : ∀ a us, mid us → us <:+ ts → Within leaves (g a) us) :
    Within leaves (fun budget => r budget >>= fun a => g a budget) ts := by
  obtain ⟨us, result, notices, h⟩ := h
  cases result with
  | error e =>
      refine ⟨us, .error e, notices, h.suffix, ?_, by simp, ?_, h.notes⟩
      · intro budget last rest hl he hlen
        exact bind_error (h.reads budget last rest hl he hlen)
      · rintro e' ⟨⟩
        exact h.stops e rfl
  | ok a =>
      obtain ⟨us', result, notices', h'⟩ := hg a us (h.left a rfl) h.suffix
      refine ⟨us', result, notices ++ notices', h'.suffix.trans h.suffix, ?_, h'.left, h'.stops, ?_⟩
      · intro budget last rest hl he hlen
        rw [bind_ok (h.reads budget last rest hl he hlen),
          h'.reads budget last rest hl he (Nat.le_trans h.suffix.length_le hlen)]
      · intro e he
        rcases List.mem_append.1 he with he | he
        · exact h.notes e he
        · exact h.suffix.subset (h'.notes e he)

/-- A token is consumed, and with it one of the budget. -/
theorem of_advance {g : Token → Nat → Reader α}
    (hr : ∀ (budget : Nat) (last : Token) (ts' : List Token), ts'.headD last = t →
      r (budget + 1) last ts' = (Reader.advance >>= fun a => g a budget) last ts')
    (h : Within leaves (g t) ts) : Within leaves r (t :: ts) := by
  obtain ⟨us, result, notices, h⟩ := h
  refine ⟨us, result, notices, h.suffix.trans (List.suffix_cons t ts), ?_, h.left, h.stops, ?_⟩
  · intro budget last rest hl he hlen
    rw [List.length_cons] at hlen
    obtain ⟨budget, rfl⟩ : ∃ b, budget = b + 1 := ⟨budget - 1, by omega⟩
    rw [hr budget last _ rfl]
    exact h.reads budget last rest hl he (by omega)
  · exact fun e he => List.mem_cons_of_mem t (h.notes e he)

theorem advance_bind {f : Token → Reader α} (h : Within leaves (fun _ => f t) ts) :
    Within leaves (fun _ => Reader.advance >>= f) (t :: ts) :=
  .of_advance (g := fun t _ => f t) (fun _ _ _ _ => rfl) h

theorem peek_bind {f : Token → Reader α} (h : Within leaves (fun _ => f t) (t :: ts)) :
    Within leaves (fun _ => Reader.peek >>= f) (t :: ts) :=
  h.congr fun _ _ _ _ _ _ => rfl

/-- A token that is expected stands in front, or the list is left as it is. -/
theorem expect {kind : Token.Kind} (h : Closed ts) (cause : GrammarError.Cause)
    (hleaves : ∀ t us, ts = t :: us → t.kind = kind → leaves us) :
    Within leaves (fun _ => Reader.expect kind cause) ts := by
  obtain ⟨t, us, rfl⟩ := h.exists_cons
  refine .peek_bind ?_
  by_cases ht : t.kind = kind
  · simp only [ht, if_true]
    exact .advance_bind (f := Pure.pure) (.pure (hleaves t us rfl ht))
  · simp only [ht, if_false]
    exact .fail h cause

theorem expect_inner {kind : Token.Kind} (h : Closed ts) (cause : GrammarError.Cause)
    (hk : kind ≠ .semicolon) : Within Closed (fun _ => Reader.expect kind cause) ts :=
  expect h cause fun _ _ hts ht => (hts ▸ h).of_cons (ht ▸ hk)

/-- Behind the semicolon nothing is left. -/
theorem expect_semicolon (h : Closed ts) (cause : GrammarError.Cause) :
    Within (· = []) (fun _ => Reader.expect .semicolon cause) ts :=
  expect h cause fun _ _ hts ht => (hts ▸ h).eq_nil ht

/-- An expression does not take the semicolon. -/
theorem expression (h : Closed ts) : Within Closed (fun _ => Grammar.expression) ts := by
  have hP : ∀ t ∈ ts, inExpression t.kind → t ∈ ts ∧ t.kind ≠ .semicolon := by
    refine fun t ht hk => ⟨ht, fun hsemi => ?_⟩
    rw [hsemi] at hk
    cases hk
  have hl : (Token.eof 1 0).kind = .eof := rfl
  obtain ⟨us, vs, result, notices, rfl, hlocal⟩ := expression_local hl hP
  have hvs : Closed vs := h.of_append fun t ht => (hlocal.taken t ht).2
  refine ⟨vs, result, notices, List.suffix_append us vs, ?_, fun _ _ => hvs, ?_, ?_⟩
  · intro _ last rest hl _ _
    rw [List.append_assoc]
    exact hlocal.reads _ last (vs ++ rest) hl (hvs.headD_append rest last _) (Nat.le_refl _)
  · intro e he
    exact ⟨hvs, hlocal.stops e he ▸ hvs.headD_mem _⟩
  · exact fun e he => (hlocal.notes e he).1

/-! ### Statements -/

theorem expressionStatement (h : Closed ts) :
    Within (· = []) (fun _ => Grammar.expressionStatement) ts :=
  .bind (.expression h) fun _ _ hus _ => .bind (.expect_semicolon hus _) fun _ _ hvs _ => .pure hvs

theorem printStatement (h : Closed (t :: ts)) (ht : t.kind ≠ .semicolon) :
    Within (· = []) (fun _ => Grammar.printStatement) (t :: ts) :=
  .advance_bind <| .bind (.expression (h.of_cons ht)) fun _ _ hus _ =>
    .bind (.expect_semicolon hus _) fun _ _ hvs _ => .pure hvs

theorem declaration (h : Closed (t :: ts)) (ht : t.kind ≠ .semicolon) :
    Within (· = []) (fun _ => Grammar.declaration) (t :: ts) := by
  refine .advance_bind (.bind (.expect_inner (h.of_cons ht) _ (by decide)) fun name us hus _ => ?_)
  have hend : ∀ (initializer? : Option Expr) (vs : List Token), Closed vs → vs <:+ us →
      Within (· = []) (fun _ => (do
        let _ ← Reader.expect .semicolon (.expectSemicolon "variable declaration")
        return .declare name initializer? : Reader Stmt)) vs :=
    fun _ _ hvs _ => .bind (.expect_semicolon hvs _) fun _ _ hws _ => .pure hws
  obtain ⟨equals, vs, rfl⟩ := hus.exists_cons
  refine .peek_bind ?_
  by_cases heq : equals.kind = .equal
  · simp only [heq, if_true]
    have hvs := hus.of_cons (by rw [heq]; decide)
    exact .advance_bind (.bind (.bind (.expression hvs) fun _ _ hws _ => .pure hws) fun e ws hws h' =>
      hend e ws hws (h'.trans (List.suffix_cons equals vs)))
  · simp only [heq, if_false]
    exact .bind (.pure hus) hend

/-- Behind the list there is no `else`. -/
theorem no_else {s : Reader α} (h : Within leaves (fun _ => s) []) :
    Within leaves (fun budget => (do
      if (← peek).kind = .kwElse then r budget else s : Reader α)) [] := by
  refine h.congr fun budget last rest _ he _ => ?_
  rw [peek_bind_apply, List.nil_append]
  simp only [he, if_false]

end Within

/-! ### Segments -/

/-- The last token is the only semicolon, there is no brace and no end of input, and no token but
the first is one that starts a statement. -/
structure Segment (ts : List Token) : Prop where
  closed : Closed ts
  plain : ∀ t ∈ ts, t.kind ≠ .eof ∧ t.kind ≠ .leftBrace ∧ t.kind ≠ .rightBrace
  single : ∀ t ∈ ts.tail, t.kind.startsStatement = false

instance (ts : List Token) : Decidable (Segment ts) :=
  decidable_of_iff
    (Closed ts ∧ (∀ t ∈ ts, t.kind ≠ .eof ∧ t.kind ≠ .leftBrace ∧ t.kind ≠ .rightBrace) ∧
      ∀ t ∈ ts.tail, t.kind.startsStatement = false)
    ⟨fun ⟨hc, hp, hs⟩ => ⟨hc, hp, hs⟩, fun ⟨hc, hp, hs⟩ => ⟨hc, hp, hs⟩⟩

theorem statement_of_if {budget : Nat} {last : Token} (h : (ts.headD last).kind = .kwIf) :
    statement (budget + 1) last ts = (advance >>= fun _ => do
      let condition ← (do
        let _ ← expect .leftParen (.expectLeftParen "'if'")
        let condition ← expression
        let _ ← expect .rightParen (.expectRightParen "if condition")
        return condition : Reader Expr)
      let consequent ← statement budget
      if (← peek).kind = .kwElse then
        let _ ← advance
        let alternative ← statement budget
        return .conditional condition consequent (some alternative)
      else
        return .conditional condition consequent none : Reader Stmt) last ts := by
  rw [statement, peek_bind_apply, h]
  rfl

theorem statement_of_print {budget : Nat} {last : Token} (h : (ts.headD last).kind = .kwPrint) :
    statement (budget + 1) last ts = printStatement last ts := by
  rw [statement, peek_bind_apply, h]

theorem statement_of_other {budget : Nat} {last : Token} (hi : (ts.headD last).kind ≠ .kwIf)
    (hp : (ts.headD last).kind ≠ .kwPrint) (hb : (ts.headD last).kind ≠ .leftBrace) :
    statement (budget + 1) last ts = expressionStatement last ts := by
  rw [statement, peek_bind_apply]
  generalize (ts.headD last).kind = k at hi hp hb ⊢
  cases k <;> first | rfl | contradiction

/-- What starts with neither `if`, `print` nor a brace is an expression. -/
theorem statement_within_other (h : Closed (t :: ts)) (hi : t.kind ≠ .kwIf) (hp : t.kind ≠ .kwPrint)
    (hb : t.kind ≠ .leftBrace) : Within (· = []) statement (t :: ts) := by
  refine (Within.expressionStatement h).congr fun budget last rest _ _ hlen => ?_
  rw [List.length_cons] at hlen
  obtain ⟨budget, rfl⟩ : ∃ b, budget = b + 1 := ⟨budget - 1, by omega⟩
  exact statement_of_other hi hp hb

/-- The branch of an `if` is an expression, as it does not start with another `if`. -/
theorem statement_within_if (h : Closed (t :: ts)) (ht : t.kind = .kwIf)
    (hts : ∀ u ∈ ts, u.kind ≠ .kwIf ∧ u.kind ≠ .kwPrint ∧ u.kind ≠ .leftBrace) :
    Within (· = []) statement (t :: ts) := by
  refine .of_advance (fun budget last ts' h' => statement_of_if (by rw [h', ht])) ?_
  have hts' := h.of_cons (by rw [ht]; decide)
  have hcondition : Within Closed (fun _ => (do
      let _ ← expect .leftParen (.expectLeftParen "'if'")
      let condition ← expression
      let _ ← expect .rightParen (.expectRightParen "if condition")
      return condition : Reader Expr)) ts :=
    .bind (.expect_inner hts' _ (by decide)) fun _ _ hus _ => .bind (.expression hus) fun _ _ hvs _ =>
      .bind (.expect_inner hvs _ (by decide)) fun _ _ hws _ => .pure hws
  refine .bind hcondition fun condition us hus hsuffix => ?_
  obtain ⟨u, us, rfl⟩ := hus.exists_cons
  obtain ⟨hi, hp, hb⟩ := hts u (hsuffix.subset List.mem_cons_self)
  refine .bind (statement_within_other hus hi hp hb) fun consequent vs hvs _ => ?_
  rw [hvs]
  exact .no_else (.pure rfl)

theorem statement_within (h : Segment ts) : Within (· = []) statement ts := by
  obtain ⟨t, us, rfl⟩ := h.closed.exists_cons
  by_cases hi : t.kind = .kwIf
  · refine statement_within_if h.closed hi fun u hu => ⟨?_, ?_, ?_⟩
    · exact fun hk => absurd (h.single u hu) (by rw [hk]; decide)
    · exact fun hk => absurd (h.single u hu) (by rw [hk]; decide)
    · exact (h.plain u (List.mem_cons_of_mem t hu)).2.1
  by_cases hp : t.kind = .kwPrint
  · refine (Within.printStatement h.closed (by rw [hp]; decide)).congr
      fun budget last rest _ _ hlen => ?_
    rw [List.length_cons] at hlen
    obtain ⟨budget, rfl⟩ : ∃ b, budget = b + 1 := ⟨budget - 1, by omega⟩
    exact statement_of_print hp
  · exact statement_within_other h.closed hi hp (h.plain t List.mem_cons_self).2.1

/-! ### Recovery -/

/-- The errors among what is noticed. -/
def errorsIn (notices : List Notice) : List GrammarError :=
  notices.filterMap fun
    | .error e => some e
    | .resumed _ => none

theorem errorsIn_append (n n' : List Notice) : errorsIn (n ++ n') = errorsIn n ++ errorsIn n' :=
  List.filterMap_append ..

theorem mem_errorsIn {e : GrammarError} {n : List Notice} : e ∈ errorsIn n ↔ .error e ∈ n := by
  rw [errorsIn, List.mem_filterMap]
  constructor
  · rintro ⟨notice, hn, he⟩
    cases notice with
    | error e' =>
        cases he
        exact hn
    | resumed => cases he
  · exact fun he => ⟨_, he, rfl⟩

/-- In front of `ts`, recovering from errors comes to one statement, or to none and an error; and
whatever stands behind `ts`, unless it is an `else`, is left. -/
structure Recovers (r : Nat → Reader Stmt) (ts : List Token) (s? : Option Stmt)
    (errors : List GrammarError) : Prop where
  reads : ∀ (budget : Nat) (last : Token) (rest : List Token), last.kind = .eof →
    (rest.headD last).kind ≠ .kwElse → ts.length ≤ budget →
      ∃ notices, recovering (r budget) last (ts ++ rest) = ⟨.ok s?, rest, notices⟩ ∧
        errorsIn notices = errors
  some_or_errors : s?.isSome ∨ errors ≠ []
  blames : ∀ e ∈ errors, e.token ∈ ts

/-- Where a reader stops within a segment, the semicolon is still to come. -/
theorem Segment.skip (h : Segment ts) (hus : us <:+ ts) (hc : Closed us) (rest : List Token) :
    skipToStatement (us ++ rest) = rest := by
  refine skipToStatement_closed hc (fun u hu => h.single u ?_) rest
  obtain ⟨t, vs, rfl⟩ := h.closed.exists_cons
  rcases List.suffix_cons_iff.1 hus with rfl | hus
  · exact hu
  · exact hus.subset (List.mem_of_mem_tail hu)

theorem Segment.recovers_of_within (h : Segment ts) {r : Nat → Reader Stmt}
    (hr : Within (· = []) r ts) : ∃ s? errors, Recovers r ts s? errors := by
  obtain ⟨us, result, notices, hr⟩ := hr
  cases result with
  | ok s =>
      refine ⟨some s, errorsIn notices, ?_, .inl rfl, fun e he => hr.notes e (mem_errorsIn.1 he)⟩
      intro budget last rest hl he hlen
      refine ⟨notices, ?_, rfl⟩
      rw [recovering, hr.reads budget last rest hl he hlen, hr.left s rfl]
      rfl
  | error e =>
      obtain ⟨hclosed, htoken⟩ := hr.stops e rfl
      refine ⟨none, errorsIn notices ++ [e], ?_, .inr (by simp), ?_⟩
      · intro budget last rest hl he hlen
        refine ⟨notices ++ [.error e, .resumed (rest.headD last)], ?_, by rw [errorsIn_append]; rfl⟩
        rw [recovering, hr.reads budget last rest hl he hlen]
        simp only [h.skip hr.suffix hclosed rest]
      · intro e' he'
        rcases List.mem_append.1 he' with he' | he'
        · exact hr.notes e' (mem_errorsIn.1 he')
        · rw [List.mem_singleton.1 he']
          exact hr.suffix.subset htoken

/-- What reads the segment, to judge by its first token. -/
def declarationOf (ts : List Token) (budget : Nat) : Reader Stmt :=
  if (ts.headD (.eof 1 0)).kind = .kwVar then declaration else statement budget

theorem Segment.recovers (h : Segment ts) : ∃ s? errors, Recovers (declarationOf ts) ts s? errors := by
  refine h.recovers_of_within ?_
  obtain ⟨t, us, rfl⟩ := h.closed.exists_cons
  by_cases ht : t.kind = .kwVar
  · rw [show declarationOf (t :: us) = fun _ => declaration from funext fun _ => if_pos ht]
    exact .declaration h.closed (by rw [ht]; decide)
  · rw [show declarationOf (t :: us) = statement from funext fun _ => if_neg ht]
    exact statement_within h

/-! ### Programs of segments -/

section Programs

variable {last : Token} {rest e : List Token} {ss : List Stmt} {s? : Option Stmt}
  {errors : List GrammarError} {notices : List Notice}

/-- A program that starts with a segment is read as the segment and as what stands behind it. -/
theorem declarations_segment (h : Segment ts) (hr : Recovers (declarationOf ts) ts s? errors)
    (hl : last.kind = .eof) (he : (rest.headD last).kind ≠ .kwElse) {budget : Nat}
    (hlen : ts.length ≤ budget)
    (hrest : declarations budget .program last rest = ⟨.ok ss, [], notices⟩) :
    ∃ notices', declarations (budget + 1) .program last (ts ++ rest) =
        ⟨.ok (s?.toList ++ ss), [], notices'⟩ ∧
      errorsIn notices' = errors ++ errorsIn notices := by
  obtain ⟨notices', hfirst, herrors⟩ := hr.reads budget last rest hl he hlen
  have hfront : (ts ++ rest).headD last = ts.headD (.eof 1 0) := h.closed.headD_append rest last _
  have hends : Enclosure.program.endsBefore (ts.headD (.eof 1 0)) = false := by
    have := (h.plain _ (h.closed.headD_mem (.eof 1 0))).1
    simpa [Enclosure.endsBefore, Token.isEof] using this
  refine ⟨notices' ++ notices, ?_, by rw [errorsIn_append, herrors]⟩
  rw [declarations, peek_bind_apply, hfront, hends]
  simp only [Bool.false_eq_true, if_false]
  rw [← declarationOf, bind_ok hfirst, bind_ok hrest]
  change (⟨.ok (s?.toList ++ ss), [], notices' ++ (notices ++ [])⟩ : Step (List Stmt)) = _
  rw [List.append_nil]

/-- A token list comes to what its declarations do. -/
theorem parse_of_declarations (hts : ∀ t ∈ ts, t.kind ≠ .eof) (he : Closing e)
    (h : ∀ last : Token, last.kind = .eof → ∃ notices,
      declarations (2 * ts.length) .program last ts = ⟨.ok ss, [], notices⟩ ∧
        errorsIn notices = errors) :
    (Parse.ofTokens (ts ++ e)).statements = ss ∧ (Parse.ofTokens (ts ++ e)).errors = errors := by
  obtain ⟨notices, hd, herrors⟩ := h _ (Input.ofTokens_last (ts ++ e))
  have hp : program (Input.ofTokens (ts ++ e)).last (Input.ofTokens (ts ++ e)).body =
      ⟨.ok ss, [], notices⟩ := by
    rw [body_append_closing hts he]
    exact hd
  rw [Parse.errors, Parse.ofTokens]
  simp only [hp]
  exact ⟨rfl, herrors⟩

theorem declarations_nil (budget : Nat) (hl : last.kind = .eof) :
    declarations budget .program last [] = ⟨.ok [], [], []⟩ := by
  cases budget with
  | zero => rfl
  | succ budget =>
      rw [declarations, peek_bind_apply]
      simp only [List.headD_nil, Enclosure.endsBefore, Token.isEof, hl]
      rfl

/-- A segment alone. -/
theorem Recovers.alone (h : Segment ts) (hr : Recovers (declarationOf ts) ts s? errors)
    (he : Closing e) :
    (Parse.ofTokens (ts ++ e)).statements = s?.toList ∧
      (Parse.ofTokens (ts ++ e)).errors = errors := by
  refine parse_of_declarations (fun t ht => (h.plain t ht).1) he fun last hl => ?_
  have hpos : 0 < ts.length := List.length_pos_of_mem (h.closed.headD_mem last)
  have hlen : ts.length ≤ 2 * ts.length - 1 := by omega
  obtain ⟨notices, hd, herrors⟩ := declarations_segment h hr hl
    (by rw [List.headD_nil, hl]; decide) hlen (declarations_nil _ hl)
  rw [List.append_nil, List.append_nil, show 2 * ts.length - 1 + 1 = 2 * ts.length by omega] at hd
  exact ⟨notices, hd, by simpa [errorsIn] using herrors⟩

/-- Segments one behind the other. -/
theorem declarations_flatten (hl : last.kind = .eof) (he : Closing e) {segments : List (List Token)}
    (h : ∀ ts ∈ segments, Segment ts)
    (helse : ∀ ts ∈ segments.tail, (ts.headD (.eof 1 0)).kind ≠ .kwElse) {budget : Nat}
    (hlen : 2 * segments.flatten.length ≤ budget) :
    ∃ notices, declarations budget .program last segments.flatten =
        ⟨.ok (segments.flatMap fun ts => (Parse.ofTokens (ts ++ e)).statements), [], notices⟩ ∧
      errorsIn notices = segments.flatMap fun ts => (Parse.ofTokens (ts ++ e)).errors := by
  induction segments generalizing budget with
  | nil => exact ⟨[], declarations_nil budget hl, rfl⟩
  | cons ts segments ih =>
      have hts := h ts List.mem_cons_self
      obtain ⟨s?, errors, hr⟩ := hts.recovers
      obtain ⟨hstatements, herrors⟩ := hr.alone hts he
      have hpos : 0 < ts.length := List.length_pos_of_mem (hts.closed.headD_mem last)
      rw [List.flatten_cons, List.length_append] at hlen
      obtain ⟨budget, rfl⟩ : ∃ b, budget = b + 1 := ⟨budget - 1, by omega⟩
      have hbudget : 2 * segments.flatten.length ≤ budget := by omega
      obtain ⟨notices, hd, hn⟩ := ih (fun us hus => h us (List.mem_cons_of_mem ts hus))
        (fun us hus => helse us (List.mem_of_mem_tail hus)) hbudget
      have hfront : (segments.flatten.headD last).kind ≠ .kwElse := by
        cases segments with
        | nil => rw [List.flatten_nil, List.headD_nil, hl]; decide
        | cons us segments =>
            have hus := (h us (by simp)).closed
            rw [List.flatten_cons, hus.headD_append _ last (.eof 1 0)]
            exact helse us List.mem_cons_self
      obtain ⟨notices', hd', hn'⟩ := declarations_segment hts hr hl hfront (by omega) hd
      refine ⟨notices', ?_, ?_⟩
      · rw [List.flatten_cons, hd', List.flatMap_cons, hstatements]
      · rw [hn', hn, List.flatMap_cons, herrors]

/-- **Recovery.**  Segments one behind the other, of which none but the first starts with `else`,
are read as the statements that each of them alone is read as, with the errors that each of them
alone has.  Alone, a segment comes to one statement, or to none and an error, and its errors blame
tokens of its own, none of them an end of input.  It makes no difference whether the lists are ended
by an end of input. -/
theorem parse_flatten (segments : List (List Token)) (h : ∀ ts ∈ segments, Segment ts)
    (helse : ∀ ts ∈ segments.tail, (ts.headD (.eof 1 0)).kind ≠ .kwElse) (e e' : List Token)
    (he : Closing e) (he' : Closing e') :
    (Parse.ofTokens (segments.flatten ++ e)).statements =
        segments.flatMap (fun ts => (Parse.ofTokens (ts ++ e')).statements) ∧
      (Parse.ofTokens (segments.flatten ++ e)).errors =
        segments.flatMap (fun ts => (Parse.ofTokens (ts ++ e')).errors) ∧
      ∀ ts ∈ segments,
        ((Parse.ofTokens (ts ++ e')).statements.length = 1 ∨
          (Parse.ofTokens (ts ++ e')).statements = [] ∧ (Parse.ofTokens (ts ++ e')).errors ≠ []) ∧
        ∀ error ∈ (Parse.ofTokens (ts ++ e')).errors,
          error.token ∈ ts ∧ error.token.kind ≠ .eof := by
  have hplain : ∀ t ∈ segments.flatten, t.kind ≠ .eof := by
    intro t ht
    obtain ⟨ts, hts, ht⟩ := List.mem_flatten.1 ht
    exact ((h ts hts).plain t ht).1
  obtain ⟨hstatements, herrors⟩ := parse_of_declarations hplain he fun last hl =>
    declarations_flatten hl he' h helse (Nat.le_refl _)
  refine ⟨hstatements, herrors, fun ts hts => ?_⟩
  obtain ⟨s?, errors, hr⟩ := (h ts hts).recovers
  obtain ⟨hs, hes⟩ := hr.alone (h ts hts) he'
  rw [hs, hes]
  refine ⟨?_, fun error herror => ?_⟩
  · cases s? with
    | some s => exact .inl rfl
    | none => exact .inr ⟨rfl, hr.some_or_errors.resolve_left (by simp)⟩
  · have hmem := hr.blames error herror
    exact ⟨hmem, ((h ts hts).plain _ hmem).1⟩

/-- `var ;`, `(a) = b ;`, `print a ;` and `if (a) else ;`, each on a line of its own. -/
def mixedSegments : List (List Token) :=
  [[bare .kwVar "var", bare .semicolon ";"],
    [bare .leftParen "(", bare .identifier "a", bare .rightParen ")",
      { bare .equal "=" with line := 2 }, bare .identifier "b", bare .semicolon ";"],
    [bare .kwPrint "print", bare .identifier "a", bare .semicolon ";"],
    [bare .kwIf "if", bare .leftParen "(", bare .identifier "a", bare .rightParen ")",
      { bare .kwElse "else" with line := 4 }, bare .semicolon ";"]]

/-- The first and the last one stop at an error, the second one only has one. -/
theorem parse_flatten_mixed :
    (∀ ts ∈ mixedSegments, Segment ts) ∧
      (∀ ts ∈ mixedSegments.tail, (ts.headD (.eof 1 0)).kind ≠ .kwElse) ∧
      Closing [] ∧ Closing [.eof 4 0] ∧
      (Parse.ofTokens (mixedSegments.flatten ++ [.eof 4 0])).statements =
        [.expression (.grouping (.variable (bare .identifier "a"))),
          .print (bare .kwPrint "print") (.variable (bare .identifier "a"))] ∧
      (Parse.ofTokens (mixedSegments.flatten ++ [.eof 4 0])).errors =
        [⟨.expectVariableName, bare .semicolon ";"⟩,
          ⟨.invalidAssignmentTarget, { bare .equal "=" with line := 2 }⟩,
          ⟨.expectExpression, { bare .kwElse "else" with line := 4 }⟩] := by
  have h : ∀ ts ∈ mixedSegments, Segment ts := by decide
  have helse : ∀ ts ∈ mixedSegments.tail, (ts.headD (.eof 1 0)).kind ≠ .kwElse := by decide
  have he : Closing [] := by simp [Closing]
  have he' : Closing [.eof 4 0] := by simp [Closing, Token.isEof, Token.eof]
  obtain ⟨hs, hes, -⟩ := parse_flatten mixedSegments h helse [.eof 4 0] [] he' he
  exact ⟨h, helse, he, he', hs.trans rfl, hes.trans rfl⟩

end Programs

end Lox.Grammar
