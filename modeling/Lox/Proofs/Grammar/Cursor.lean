import Lox.Proofs.Grammar.Locality

/-!
# Proofs — Grammar — Where a token list ends

A token list may hold an end of input, or several, or none.  Reading it token by token, one decides
about that at each step: an end of input in front stays there, and behind the last token one is put
in its place (`Cursor.advance`).  A reader is given the tokens up to the first end of input instead,
and that end apart from them.

**Reading step by step** (`program_stepwise`, `Cursor.Runs.reads`).  Both are the same.  At a cursor,
a reader looks at the token in front, moves by a step, and skips behind an error, a step at a time
(`Cursor.Runs`, `Cursor.Skips`).  Every rule of the grammar can be run so, wherever it stands, and
does at the cursor what it does with the tokens that it is given.

**The first end of input** (`ends_at_first_eof`).  At cursors that show the same tokens, step by step,
a reader runs alike (`Cursor.Runs.congr`), so their lists are read alike (`parse_congr`).  What stands
behind an end of input is never shown, and where there is none, the end that is shown is the one that
could have stood behind the last token.
-/

namespace Lox.Grammar

/-- A token list while it is read: the token in front, and those behind it. -/
structure Cursor where
  current : Token
  behind : List Token

namespace Cursor

/-- In front of some tokens, or else of the end of input that is supplied for want of them. -/
def before (supplied : Token) : List Token → Cursor
  | [] => ⟨supplied, []⟩
  | t :: ts => ⟨t, ts⟩

/-- In front of a token list. -/
def ofTokens (ts : List Token) : Cursor := before (.eof 1 0) ts

/-- Behind the token in front.  An end of input is never passed. -/
def advance (c : Cursor) : Cursor :=
  if c.current.isEof then c else before (.eof c.current.line c.current.span.stop) c.behind

/-- The token that is in front after some steps. -/
def shown (c : Cursor) : Nat → Token
  | 0 => c.current
  | n + 1 => c.advance.shown n

/-- The tokens that are still to be read, and the end of input behind them. -/
def input (c : Cursor) : Input := .ofTokens (c.current :: c.behind)

variable {c c' d : Cursor} {t e previous : Token} {ts us : List Token}

/-! ### Steps -/

theorem advance_of_isEof (h : c.current.isEof = true) : c.advance = c := if_pos h

theorem advance_cons (ht : t.isEof = false) (hts : ts ≠ []) :
    (ofTokens (t :: ts)).advance = ofTokens ts := by
  obtain ⟨u, us, rfl⟩ := List.exists_cons_of_ne_nil hts
  exact if_neg (by simp [ofTokens, before, ht])

theorem advance_singleton (ht : t.isEof = false) :
    (ofTokens [t]).advance = ofTokens [.eof t.line t.span.stop] :=
  if_neg (by simp [ofTokens, before, ht])

theorem input_ofTokens (ts : List Token) : (ofTokens ts).input = .ofTokens ts := by
  cases ts <;> rfl

/-- In front of an end of input, there is nothing to read. -/
theorem input_of_isEof (h : c.current.isEof = true) : c.input = ⟨[], c.current⟩ := by
  simp [input, Input.ofTokens, h]

/-- In front of another token, that token is read, and then what is to be read behind it. -/
theorem input_of_not_isEof (h : c.current.isEof = false) :
    c.input = ⟨c.current :: c.advance.input.body, c.advance.input.last⟩ := by
  obtain ⟨t, ts⟩ := c
  cases ts with
  | nil =>
      have heof : (Token.eof t.line t.span.stop).isEof = true := rfl
      simp [input, advance, before, Input.ofTokens, Input.suppliedEof, h, heof]
  | cons u us => simp [input, advance, before, Input.ofTokens, Input.suppliedEof, h]

theorem isEof_last (c : Cursor) : c.input.last.isEof = true :=
  beq_iff_eq.2 (Input.ofTokens_last _)

/-- A step takes the token in front, and leaves the end of input where it is. -/
theorem input_advance (c : Cursor) : c.advance.input = ⟨c.input.body.tail, c.input.last⟩ := by
  cases h : c.current.isEof with
  | true => rw [advance_of_isEof h, input_of_isEof h, List.tail_nil]
  | false => rw [input_of_not_isEof h, List.tail_cons]

theorem current_eq (c : Cursor) : c.current = c.input.body.headD c.input.last := by
  cases h : c.current.isEof with
  | true => rw [input_of_isEof h, List.headD_nil]
  | false => rw [input_of_not_isEof h, List.headD_cons]

/-- What is shown step by step are the tokens that are read, and then the end of input. -/
theorem shown_eq (c : Cursor) (n : Nat) :
    c.shown n = (c.input.body.drop n).headD c.input.last := by
  induction n generalizing c with
  | zero => exact c.current_eq
  | succ n ih => rw [shown, ih, input_advance, List.drop_tail]

/-- The steps that are left to the end of input. -/
def left (c : Cursor) : Nat := c.input.body.length

theorem left_advance (c : Cursor) : c.advance.left = c.left - 1 := by
  rw [left, input_advance, List.length_tail, left]

/-- Behind these steps, and not before, the end of input is shown. -/
theorem isEof_shown (c : Cursor) (n : Nat) : (c.shown n).isEof = true ↔ c.left ≤ n := by
  rw [shown_eq]
  cases hdrop : c.input.body.drop n with
  | nil => exact iff_of_true c.isEof_last (List.drop_eq_nil_iff.1 hdrop)
  | cons t ts =>
      have ht : t ∈ c.input.body := List.mem_of_mem_drop (hdrop ▸ List.mem_cons_self)
      refine iff_of_false ?_ fun hle => ?_
      · rw [List.headD_cons, Input.isEof_of_mem_body ht]
        exact Bool.false_ne_true
      · rw [List.drop_eq_nil_of_le hle] at hdrop
        cases hdrop

/-! ### Skipping -/

/-- Behind an error, tokens are skipped until the input ends, the token skipped last is a semicolon,
or the one in front starts a statement. -/
inductive Skips : Token → Cursor → Cursor → Prop where
  | stop {previous : Token} {c : Cursor} (h : c.current.isEof = true ∨ previous.kind = .semicolon ∨
      c.current.kind.startsStatement = true) : Skips previous c c
  | skip {previous : Token} {c d : Cursor} (h : ¬ (c.current.isEof = true ∨
      previous.kind = .semicolon ∨ c.current.kind.startsStatement = true))
      (hrest : Skips c.current c.advance d) : Skips previous c d

namespace Skips

/-- Skipping comes to its end. -/
theorem total (previous : Token) (c : Cursor) : ∃ d, Skips previous c d := by
  induction hleft : c.left generalizing previous c with
  | zero => exact ⟨c, .stop (.inl ((c.isEof_shown 0).2 (Nat.le_of_eq hleft)))⟩
  | succ n ih =>
      by_cases h : c.current.isEof = true ∨ previous.kind = .semicolon ∨
          c.current.kind.startsStatement = true
      · exact ⟨c, .stop h⟩
      · obtain ⟨d, hd⟩ := ih c.current c.advance (by rw [left_advance, hleft, Nat.add_sub_cancel])
        exact ⟨d, .skip h hd⟩

/-- What is left to be read is what is left behind skipped tokens. -/
theorem reads (h : Skips previous c d) :
    skipFrom previous c.input.body = d.input.body ∧ d.input.last = c.input.last := by
  induction h with
  | @stop previous c h =>
      refine ⟨?_, rfl⟩
      cases heof : c.current.isEof with
      | true => rw [input_of_isEof heof, skipFrom]
      | false =>
          have hstop : (previous.kind = .semicolon || c.current.kind.startsStatement) = true := by
            simpa [heof] using h
          rw [input_of_not_isEof heof, skipFrom, if_pos hstop]
  | @skip previous c d h _ ih =>
      rw [not_or, Bool.not_eq_true] at h
      have hskip : ¬ (previous.kind = .semicolon || c.current.kind.startsStatement) = true := by
        simpa using h.2
      rw [input_of_not_isEof h.1, skipFrom, if_neg hskip]
      exact ih

/-- Behind an error, the token in front is skipped first. -/
theorem reads_advance (h : Skips c.current c.advance d) :
    skipToStatement c.input.body = d.input.body ∧ d.input.last = c.input.last := by
  obtain ⟨hbody, hlast⟩ := h.reads
  rw [input_advance] at hbody hlast
  refine ⟨?_, hlast⟩
  rw [← hbody]
  cases heof : c.current.isEof with
  | true => rw [input_of_isEof heof, skipToStatement, List.tail_nil, skipFrom]
  | false => rw [input_of_not_isEof heof, skipToStatement, List.tail_cons]

end Skips

/-! ### Running -/

/-- What a reader does at a cursor: its result, the cursor that it leaves, and what it notices.  Of
the tokens, it comes to know the one in front, and how many there are. -/
inductive Runs : {α : Type} → Reader α → Cursor → Except GrammarError α → Cursor → List Notice →
    Prop
  | pure {α : Type} (a : α) (c : Cursor) : Runs (Pure.pure a) c (.ok a) c []
  | peek (c : Cursor) : Runs Reader.peek c (.ok c.current) c []
  | advance (c : Cursor) : Runs Reader.advance c (.ok c.current) c.advance []
  | fail {α : Type} (cause : GrammarError.Cause) (c : Cursor) :
      Runs (Reader.fail cause : Reader α) c (.error ⟨cause, c.current⟩) c []
  | report (e : GrammarError) (c : Cursor) : Runs (Reader.report e) c (.ok ()) c [.error e]
  | bind {α β : Type} {r : Reader α} {f : α → Reader β} {c c₁ d : Cursor} {a : α}
      {result : Except GrammarError β} {n n₁ : List Notice} (hr : Runs r c (.ok a) c₁ n)
      (hf : Runs (f a) c₁ result d n₁) : Runs (r >>= f) c result d (n ++ n₁)
  | stop {α β : Type} {r : Reader α} {f : α → Reader β} {c d : Cursor} {e : GrammarError}
      {n : List Notice} (hr : Runs r c (.error e) d n) : Runs (r >>= f) c (.error e) d n
  | recover {r : Reader Stmt} {c d : Cursor} {s : Stmt} {n : List Notice}
      (hr : Runs r c (.ok s) d n) : Runs (recovering r) c (.ok (some s)) d n
  | resume {r : Reader Stmt} {c c₁ d : Cursor} {e : GrammarError} {n : List Notice}
      (hr : Runs r c (.error e) c₁ n) (hskip : Skips c₁.current c₁.advance d) :
      Runs (recovering r) c (.ok none) d (n ++ [.error e, .resumed d.current])
  | budgeted {α : Type} {budget : Nat → Nat} {r : Nat → Reader α} {c d : Cursor}
      {result : Except GrammarError α} {n : List Notice}
      (hr : Runs (r (budget c.left)) c result d n) : Runs (Reader.budgeted budget r) c result d n

namespace Runs

variable {α : Type} {r : Reader α} {result : Except GrammarError α} {notices : List Notice}

/-- With the tokens that are to be read, a reader does what it does at the cursor. -/
theorem reads (h : Runs r c result d notices) :
    r c.input.last c.input.body = ⟨result, d.input.body, notices⟩ ∧ d.input.last = c.input.last := by
  induction h with
  | pure a c => exact ⟨rfl, rfl⟩
  | peek c => exact ⟨by rw [current_eq]; rfl, rfl⟩
  | advance c => exact ⟨by rw [current_eq, input_advance]; rfl, by rw [input_advance]⟩
  | fail cause c => exact ⟨by rw [current_eq]; rfl, rfl⟩
  | report e c => exact ⟨rfl, rfl⟩
  | bind _ _ ihr ihf =>
      rw [ihr.2] at ihf
      rw [Reader.bind_ok ihr.1, ihf.1]
      exact ⟨rfl, ihf.2⟩
  | stop _ ih => exact ⟨Reader.bind_error ih.1, ih.2⟩
  | recover _ ih => exact ⟨by rw [recovering, ih.1], ih.2⟩
  | @resume r c c₁ d e n _ hskip ih =>
      obtain ⟨hbody, hlast⟩ := hskip.reads_advance
      refine ⟨?_, hlast.trans ih.2⟩
      rw [recovering, ih.1, current_eq, hlast, ih.2]
      simp only [hbody]
  | budgeted _ ih => exact ih

end Runs

/-! ### Cursors that show the same -/

/-- Two cursors that show the same tokens, step by step. -/
def Alike (c c' : Cursor) : Prop := ∀ n, c.shown n = c'.shown n

namespace Alike

theorem refl (c : Cursor) : Alike c c := fun _ => rfl

theorem current (h : Alike c c') : c.current = c'.current := h 0

theorem advance (h : Alike c c') : Alike c.advance c'.advance := fun n => h (n + 1)

/-- They are equally far from the end of input. -/
theorem left_eq (h : Alike c c') : c.left = c'.left := by
  refine Nat.le_antisymm ((c.isEof_shown _).1 ?_) ((c'.isEof_shown _).1 ?_)
  · rw [h]
    exact (c'.isEof_shown _).2 (Nat.le_refl _)
  · rw [← h]
    exact (c.isEof_shown _).2 (Nat.le_refl _)

theorem skips (h : Alike c c') (hskip : Skips previous c d) :
    ∃ d', Alike d d' ∧ Skips previous c' d' := by
  induction hskip generalizing c' with
  | stop hstop => exact ⟨c', h, .stop (h.current ▸ hstop)⟩
  | skip hgo _ ih =>
      obtain ⟨d', hd, hskip⟩ := ih h.advance
      rw [h.current] at hgo hskip
      exact ⟨d', hd, .skip hgo hskip⟩

/-- One step at a time. -/
theorem of_advance (h : c.current = c'.current) (hnext : Alike c.advance c'.advance) : Alike c c'
  | 0 => h
  | n + 1 => hnext n

theorem of_isEof (h : c.current = c'.current) (heof : c.current.isEof = true) : Alike c c' := by
  intro n
  induction n with
  | zero => exact h
  | succ n ih => rw [shown, shown, advance_of_isEof heof, advance_of_isEof (h ▸ heof), ih]

theorem cons (ht : t.isEof = false) (hts : ts ≠ []) (hus : us ≠ [])
    (h : Alike (ofTokens ts) (ofTokens us)) : Alike (ofTokens (t :: ts)) (ofTokens (t :: us)) :=
  of_advance rfl (by rwa [advance_cons ht hts, advance_cons ht hus])

/-- An end of input hides what stands behind it. -/
theorem append_eof (hts : ∀ t ∈ ts, t.isEof = false) (he : e.isEof = true) (junk : List Token) :
    Alike (ofTokens (ts ++ e :: junk)) (ofTokens (ts ++ [e])) := by
  induction ts with
  | nil => exact of_isEof rfl he
  | cons t ts ih =>
      obtain ⟨ht, hts⟩ := List.forall_mem_cons.1 hts
      exact cons ht (by simp) (by simp) (ih hts)

/-- An end of input on the line of the last token, and where it stops, is the one that is supplied. -/
theorem append_supplied (hts : ∀ t ∈ ts, t.isEof = false) (ht : t.isEof = false) :
    Alike (ofTokens (ts ++ [t])) (ofTokens (ts ++ [t, .eof t.line t.span.stop])) := by
  induction ts with
  | nil =>
      refine of_advance rfl ?_
      rw [List.nil_append, List.nil_append, advance_singleton ht, advance_cons ht (by simp)]
      exact refl _
  | cons u us ih =>
      obtain ⟨hu, hus⟩ := List.forall_mem_cons.1 hts
      exact cons hu (by simp) (by simp) (ih hus)

end Alike

/-- At cursors that show the same, a reader does the same, and leaves them so. -/
theorem Runs.congr {α : Type} {r : Reader α} {result : Except GrammarError α}
    {notices : List Notice} (h : Runs r c result d notices) (hc : Alike c c') :
    ∃ d', Alike d d' ∧ Runs r c' result d' notices := by
  induction h generalizing c' with
  | pure a c => exact ⟨c', hc, .pure a c'⟩
  | peek c => exact ⟨c', hc, hc.current ▸ .peek c'⟩
  | advance c => exact ⟨c'.advance, hc.advance, hc.current ▸ .advance c'⟩
  | fail cause c => exact ⟨c', hc, hc.current ▸ .fail cause c'⟩
  | report e c => exact ⟨c', hc, .report e c'⟩
  | bind _ _ ihr ihf =>
      obtain ⟨c₁', hc₁, hr⟩ := ihr hc
      obtain ⟨d', hd, hf⟩ := ihf hc₁
      exact ⟨d', hd, .bind hr hf⟩
  | stop _ ih =>
      obtain ⟨d', hd, hr⟩ := ih hc
      exact ⟨d', hd, .stop hr⟩
  | recover _ ih =>
      obtain ⟨d', hd, hr⟩ := ih hc
      exact ⟨d', hd, .recover hr⟩
  | resume _ hskip ih =>
      obtain ⟨c₁', hc₁, hr⟩ := ih hc
      obtain ⟨d', hd, hskip⟩ := hc₁.advance.skips hskip
      rw [hc₁.current] at hskip
      exact ⟨d', hd, hd.current ▸ .resume hr hskip⟩
  | budgeted _ ih =>
      obtain ⟨d', hd, hr⟩ := ih hc
      exact ⟨d', hd, .budgeted (hc.left_eq ▸ hr)⟩

end Cursor

open Cursor (Alike Runs)

/-! ### The readers of the grammar -/

/-- Wherever it stands, the reader can be run step by step. -/
def Stepwise {α : Type} (r : Reader α) : Prop :=
  ∀ c, ∃ result d notices, Runs r c result d notices

namespace Stepwise

variable {α β : Type} {r : Reader α}

theorem pure (a : α) : Stepwise (Pure.pure a : Reader α) := fun c => ⟨_, _, _, .pure a c⟩

theorem peek : Stepwise Reader.peek := fun c => ⟨_, _, _, .peek c⟩

theorem advance : Stepwise Reader.advance := fun c => ⟨_, _, _, .advance c⟩

theorem fail (cause : GrammarError.Cause) : Stepwise (Reader.fail cause : Reader α) :=
  fun c => ⟨_, _, _, .fail cause c⟩

theorem report (e : GrammarError) : Stepwise (Reader.report e) := fun c => ⟨_, _, _, .report e c⟩

theorem bind {f : α → Reader β} (hr : Stepwise r) (hf : ∀ a, Stepwise (f a)) :
    Stepwise (r >>= f) := by
  intro c
  obtain ⟨result, d, n, hrun⟩ := hr c
  cases result with
  | error e => exact ⟨_, _, _, .stop hrun⟩
  | ok a =>
      obtain ⟨result, d', n', hrun'⟩ := hf a d
      exact ⟨_, _, _, .bind hrun hrun'⟩

theorem map {f : α → β} (hr : Stepwise r) : Stepwise (f <$> r) := hr.bind fun _ => .pure _

theorem expect (kind : Token.Kind) (cause : GrammarError.Cause) :
    Stepwise (Reader.expect kind cause) := by
  refine .bind .peek fun t => ?_
  split
  · exact .advance
  · exact .fail cause

theorem budgeted {budget : Nat → Nat} {r : Nat → Reader α} (hr : ∀ n, Stepwise (r n)) :
    Stepwise (Reader.budgeted budget r) := by
  intro c
  obtain ⟨result, d, n, hrun⟩ := hr (budget c.left) c
  exact ⟨_, _, _, .budgeted hrun⟩

theorem recovering {r : Reader Stmt} (hr : Stepwise r) : Stepwise (Grammar.recovering r) := by
  intro c
  obtain ⟨result, d, n, hrun⟩ := hr c
  cases result with
  | ok s => exact ⟨_, _, _, .recover hrun⟩
  | error e =>
      obtain ⟨d', hskip⟩ := Cursor.Skips.total d.current d.advance
      exact ⟨_, _, _, .resume hrun hskip⟩

end Stepwise

section

variable {budget : Nat}

theorem assignTo_stepwise (target value : Expr) (equals : Token) :
    Stepwise (assignTo target equals value) := by
  cases target with
  | «variable» name => exact .pure _
  | _ => exact .bind (.report _) fun _ => .pure _

theorem operand_stepwise_succ (ho : Stepwise (operand budget))
    (hc : ∀ level left, Stepwise (climb budget level left)) : Stepwise (operand (budget + 1)) := by
  rw [operand]
  refine .bind .peek fun front => ?_
  split
  case h_1 | h_2 => exact .bind .advance fun _ => .bind ho fun _ => .pure _
  case h_9 =>
    refine .bind .advance fun _ => .bind ho fun first => .bind (hc .lowest first) fun inner => ?_
    exact .bind (.expect _ _) fun _ => .pure _
  case h_10 => exact .fail _
  all_goals exact .bind .advance fun _ => .pure _

theorem climb_stepwise_succ (ho : Stepwise (operand budget))
    (hc : ∀ level left, Stepwise (climb budget level left)) (level : Level) (left : Expr) :
    Stepwise (climb (budget + 1) level left) := by
  rw [climb]
  refine .bind .peek fun front => ?_
  dsimp only
  split
  · refine .bind .advance fun operator => .bind ho fun first => ?_
    split
    · exact .bind (hc _ _) fun value => .bind (assignTo_stepwise _ _ _) fun _ => hc _ _
    · exact .bind (hc _ _) fun right => hc _ _
  · exact .pure left

theorem operand_climb_stepwise (budget : Nat) :
    Stepwise (operand budget) ∧ ∀ level left, Stepwise (climb budget level left) := by
  induction budget with
  | zero => exact ⟨.fail _, fun _ left => .pure left⟩
  | succ budget ih =>
      exact ⟨operand_stepwise_succ ih.1 ih.2, climb_stepwise_succ ih.1 ih.2⟩

theorem expression_stepwise : Stepwise expression :=
  .budgeted fun budget =>
    .bind (operand_climb_stepwise budget).1 fun first => (operand_climb_stepwise budget).2 _ first

theorem declaration_stepwise : Stepwise declaration := by
  refine .bind .advance fun _ => .bind (.expect _ _) fun name => ?_
  have hend : ∀ initializer?, Stepwise (do
      let _ ← Reader.expect .semicolon (.expectSemicolon "variable declaration")
      return .declare name initializer? : Reader Stmt) :=
    fun _ => .bind (.expect _ _) fun _ => .pure _
  refine .bind .peek fun front => ?_
  dsimp only
  split
  · exact .bind .advance fun _ => .bind expression_stepwise.map hend
  · exact .bind (.pure none) hend

theorem printStatement_stepwise : Stepwise printStatement :=
  .bind .advance fun _ => .bind expression_stepwise fun _ => .bind (.expect _ _) fun _ => .pure _

theorem expressionStatement_stepwise : Stepwise expressionStatement :=
  .bind expression_stepwise fun _ => .bind (.expect _ _) fun _ => .pure _

theorem ifCondition_stepwise : Stepwise ifCondition :=
  .bind .advance fun _ => .bind (.expect _ _) fun _ => .bind expression_stepwise fun _ =>
    .bind (.expect _ _) fun _ => .pure _

theorem statement_stepwise_succ (hs : Stepwise (statement budget))
    (hd : ∀ enclosure, Stepwise (declarations budget enclosure)) :
    Stepwise (statement (budget + 1)) := by
  rw [statement]
  refine .bind .peek fun front => ?_
  split
  · refine .bind ifCondition_stepwise fun condition => .bind hs fun consequent =>
      .bind .peek fun next => ?_
    split
    · exact .bind .advance fun _ => .bind hs fun _ => .pure _
    · exact .pure _
  · exact printStatement_stepwise
  · exact .bind .advance fun _ => .bind (hd .block) fun _ => .bind (.expect _ _) fun _ => .pure _
  · exact expressionStatement_stepwise

theorem declarations_stepwise_succ (hs : Stepwise (statement budget))
    (hd : ∀ enclosure, Stepwise (declarations budget enclosure)) (enclosure : Enclosure) :
    Stepwise (declarations (budget + 1) enclosure) := by
  rw [declarations]
  refine .bind .peek fun front => ?_
  split
  · exact .pure _
  · refine .bind (.recovering ?_) fun _ => .bind (hd enclosure) fun _ => .pure _
    split
    · exact declaration_stepwise
    · exact hs

theorem statement_declarations_stepwise (budget : Nat) :
    Stepwise (statement budget) ∧ ∀ enclosure, Stepwise (declarations budget enclosure) := by
  induction budget with
  | zero => exact ⟨.fail _, fun _ => .pure []⟩
  | succ budget ih =>
      exact ⟨statement_stepwise_succ ih.1 ih.2, declarations_stepwise_succ ih.1 ih.2⟩

/-- A program is read step by step, in each of its rules and behind each of its errors. -/
theorem program_stepwise : Stepwise program :=
  .budgeted fun budget => (statement_declarations_stepwise budget).2 .program

end

/-! ### Token lists -/

variable {ts us : List Token}

/-- A token list is read as a program runs at its front. -/
theorem parse_of_runs {result : Except GrammarError (List Stmt)} {d : Cursor}
    {notices : List Notice} (h : Runs program (.ofTokens ts) result d notices) :
    Parse.ofTokens ts = ⟨result.toOption.getD [], notices⟩ := by
  have hreads := h.reads.1
  rw [Cursor.input_ofTokens] at hreads
  rw [Parse.ofTokens, hreads]

/-- Lists that show the same tokens, step by step, are read alike. -/
theorem parse_congr (h : Alike (.ofTokens ts) (.ofTokens us)) :
    Parse.ofTokens ts = Parse.ofTokens us := by
  obtain ⟨result, d, notices, hruns⟩ := program_stepwise (.ofTokens ts)
  obtain ⟨d', -, hruns'⟩ := hruns.congr h
  rw [parse_of_runs hruns, parse_of_runs hruns']

/-- **The first end of input.**  What stands behind an end of input is not read.  A list without one
is read as if there were one on the line of its last token, and where that token stops. -/
theorem ends_at_first_eof (hts : ∀ t ∈ ts, t.isEof = false) :
    (∀ (e : Token) (junk : List Token), e.isEof = true →
      Parse.ofTokens (ts ++ e :: junk) = Parse.ofTokens (ts ++ [e])) ∧
      ∀ t ∈ ts.getLast?, Parse.ofTokens ts = Parse.ofTokens (ts ++ [.eof t.line t.span.stop]) := by
  refine ⟨fun e junk he => parse_congr (.append_eof hts he junk), fun t ht => ?_⟩
  obtain ⟨us, rfl⟩ := List.getLast?_eq_some_iff.1 ht
  have hus := List.forall_mem_append.1 hts
  rw [List.append_assoc]
  exact parse_congr (.append_supplied hus.1 (hus.2 t (List.mem_singleton_self t)))

/-- An open block, and in it, on the second line, a name without a semicolon. -/
def openBlock : List Token :=
  [⟨.leftBrace, "\x7b", none, 1, ⟨0, 1⟩⟩, ⟨.identifier, "a", none, 2, ⟨2, 3⟩⟩]

/-- Neither a semicolon nor a brace behind the end of input closes the block, and without that end,
both are missed where the last token stops. -/
theorem ends_at_first_eof_openBlock :
    (∀ t ∈ openBlock, t.isEof = false) ∧ (Token.eof 7 9).isEof = true ∧
      Parse.ofTokens (openBlock ++ .eof 7 9 ::
          [⟨.semicolon, ";", none, 8, ⟨9, 10⟩⟩, ⟨.rightBrace, "\x7d", none, 8, ⟨10, 11⟩⟩]) =
        Parse.ofTokens (openBlock ++ [.eof 7 9]) ∧
      Parse.ofTokens openBlock = Parse.ofTokens (openBlock ++ [.eof 2 3]) ∧
      (Parse.ofTokens openBlock).errors =
        [⟨.expectSemicolon "expression", .eof 2 3⟩, ⟨.expectRightBrace, .eof 2 3⟩] := by
  have hblock : ∀ t ∈ openBlock, t.isEof = false := by decide
  obtain ⟨hbehind, hsupplied⟩ := ends_at_first_eof hblock
  have hlast := hsupplied ⟨.identifier, "a", none, 2, ⟨2, 3⟩⟩ rfl
  exact ⟨hblock, rfl, hbehind _ _ rfl, hlast, rfl⟩

end Lox.Grammar
