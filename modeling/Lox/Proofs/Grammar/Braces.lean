import Lox.Proofs.Grammar.Progress

/-!
# Proofs — Grammar — Braces that are missing

A closing brace is reported as missing, although the braces of a program are balanced, if recovery
from another error throws one away: it skips tokens up to a statement, braces among them
(`balanced_missing`).  The account is exact (`missing_of_balanced`).  In a program with balanced
braces, as many closing braces are missing as recovery throws away, less the opening braces that it
throws away; and if it throws away no closing brace, none is missing.

`Settles` keeps the account of one reader.  Of the braces that it takes, opening and closing ones
match but for those that recovery throws away and those that are reported as missing; and readers
that are put together add up (`Accounts.bind`).  Only a block takes a brace otherwise
(`block_accounts`): it opens with one, and closes with another or reports it.
-/

namespace Lox.Grammar
open Reader

/-! ### Braces -/

/-- Every opening brace is closed by a later one, and every closing brace closes an opening one. -/
inductive Balanced : List Token → Prop where
  | nil : Balanced []
  | other {t : Token} {ts : List Token} (hl : t.kind ≠ .leftBrace) (hr : t.kind ≠ .rightBrace)
      (h : Balanced ts) : Balanced (t :: ts)
  | braces (inner : List Token) {l r : Token} {ts : List Token} (hl : l.kind = .leftBrace)
      (hr : r.kind = .rightBrace) (hi : Balanced inner) (h : Balanced ts) :
      Balanced (l :: inner ++ r :: ts)

/-- How many opening braces there are. -/
def opening (ts : List Token) : Nat := ts.countP (·.kind = .leftBrace)

/-- How many closing braces there are. -/
def closing (ts : List Token) : Nat := ts.countP (·.kind = .rightBrace)

/-- How many closing braces are reported as missing. -/
def missing (errors : List GrammarError) : Nat := errors.countP (·.cause = .expectRightBrace)

section

variable {t : Token} {ts : List Token}

@[simp] theorem opening_nil : opening [] = 0 := rfl

@[simp] theorem closing_nil : closing [] = 0 := rfl

@[simp] theorem opening_append (ts us : List Token) : opening (ts ++ us) = opening ts + opening us :=
  List.countP_append

@[simp] theorem closing_append (ts us : List Token) : closing (ts ++ us) = closing ts + closing us :=
  List.countP_append

@[simp] theorem missing_append (es es' : List GrammarError) :
    missing (es ++ es') = missing es + missing es' := List.countP_append

theorem opening_cons (t : Token) (ts : List Token) :
    opening (t :: ts) = opening ts + if t.kind = .leftBrace then 1 else 0 := by
  simp [opening, List.countP_cons]

theorem closing_cons (t : Token) (ts : List Token) :
    closing (t :: ts) = closing ts + if t.kind = .rightBrace then 1 else 0 := by
  simp [closing, List.countP_cons]

/-- In a balanced list, there are as many opening braces as closing ones. -/
theorem Balanced.opening_eq_closing (h : Balanced ts) : opening ts = closing ts := by
  induction h with
  | nil => rfl
  | other hl hr _ ih => rw [opening_cons, closing_cons, if_neg hl, if_neg hr, ih]
  | braces inner hl hr _ _ ihi ih =>
      simp only [List.cons_append, opening_cons, closing_cons, opening_append, closing_append,
        hl, hr, ihi, ih, reduceCtorEq, if_true, if_false]
      omega

end

/-! ### Tokens that recovery throws away -/

/-- What is thrown away behind a reader, if it comes to a result. -/
def discardedBehind {α : Type} (r : Reader α) (behind : Token → List Token → List Token)
    (last : Token) (ts : List Token) : List Token :=
  match r last ts with
  | ⟨.ok _, rest, _⟩ => behind last rest
  | ⟨.error _, _, _⟩ => []

/-- The tokens up to where a statement may start. -/
def skipped (ts : List Token) : List Token :=
  ts.take (ts.length - (skipToStatement ts).length)

/-- What is skipped if the reader stops at an error. -/
def skippedBehind (r : Reader Stmt) (last : Token) (ts : List Token) : List Token :=
  match r last ts with
  | ⟨.ok _, _, _⟩ => []
  | ⟨.error _, rest, _⟩ => skipped rest

mutual

/-- The tokens that recovery throws away inside a statement. -/
def statementDiscards : Nat → Token → List Token → List Token
  | 0, _, _ => []
  | budget + 1, last, ts =>
    match (ts.headD last).kind with
    | .kwIf =>
      discardedBehind ifCondition (fun last ts =>
        statementDiscards budget last ts ++
          discardedBehind (statement budget) (fun last ts =>
            if (ts.headD last).kind = .kwElse then statementDiscards budget last ts.tail else [])
            last ts) last ts
    | .leftBrace => declarationsDiscards budget .block last ts.tail
    | _ => []

/-- The tokens that recovery throws away in a list of declarations: those inside each of them, and
those between an error and the next declaration. -/
def declarationsDiscards : Nat → Enclosure → Token → List Token → List Token
  | 0, _, _, _ => []
  | budget + 1, enclosure, last, ts =>
    if enclosure.endsBefore (ts.headD last) then []
    else
      let member := if (ts.headD last).kind = .kwVar then declaration else statement budget
      (if (ts.headD last).kind = .kwVar then [] else statementDiscards budget last ts) ++
        skippedBehind member last ts ++
          discardedBehind (recovering member) (declarationsDiscards budget enclosure) last ts

end

/-- What is skipped and what is left. -/
theorem skipped_append (ts : List Token) : skipped ts ++ skipToStatement ts = ts := by
  cases ts with
  | nil => rfl
  | cons t ts =>
      exact List.suffix_iff_eq_append.1 ((skipFrom_suffix t ts).trans (List.suffix_cons t ts))

theorem errors_ok {α : Type} (a : α) (rest : List Token) (notices : List Notice) :
    Step.errors ⟨.ok a, rest, notices⟩ = errorsIn notices := List.append_nil _

theorem errors_behind {α : Type} (step : Step α) (notices : List Notice) :
    Step.errors { step with notices := notices ++ step.notices } =
      errorsIn notices ++ step.errors := by
  rw [Step.errors, Step.errors, errorsIn_append, List.append_assoc]

/-! ### Accounts -/

variable {α β : Type} {r : Reader α} {f : α → Reader β} {last : Token} {ts us ds es : List Token}
  {behind : Token → List Token → List Token} {budget : Nat}

/-- Of the tokens `us` that are taken, `ds` are thrown away; the braces of the others match, but for
closing braces that are reported as missing. -/
structure Settles (ts us ds : List Token) (step : Step α) : Prop where
  taken : ts = us ++ step.rest
  discards : ds.Sublist us
  balance : opening us + closing ds = closing us + opening ds + missing step.errors

/-- What the reader takes in front of `ts`, with what it throws away of it, is accounted for. -/
def Accounts (r : Reader α) (ds : List Token) (last : Token) (ts : List Token) : Prop :=
  ∃ us, Settles ts us ds (r last ts)

namespace Accounts

theorem pure (a : α) : Accounts (Pure.pure a : Reader α) [] last ts := ⟨[], rfl, .slnil, rfl⟩

theorem fail {cause : GrammarError.Cause} (h : cause ≠ .expectRightBrace) :
    Accounts (Reader.fail cause : Reader α) [] last ts := by
  refine ⟨[], rfl, .slnil, ?_⟩
  simp [missing, Step.errors, errorsIn, Reader.fail, h]

theorem report {e : GrammarError} (h : e.cause ≠ .expectRightBrace) :
    Accounts (Reader.report e) [] last ts := by
  refine ⟨[], rfl, .slnil, ?_⟩
  simp [missing, Step.errors, errorsIn, Reader.report, h]

/-- A token that is no brace is taken. -/
theorem advance {k : Token.Kind} (h : (ts.headD last).kind = k) (hl : k ≠ .leftBrace)
    (hr : k ≠ .rightBrace) : Accounts Reader.advance [] last ts := by
  subst h
  cases ts with
  | nil => exact ⟨[], rfl, .slnil, rfl⟩
  | cons t ts =>
      refine ⟨[t], rfl, List.nil_sublist _, ?_⟩
      rw [List.headD_cons] at hl hr
      rw [opening_cons, closing_cons, if_neg hl, if_neg hr]
      rfl

theorem peek_bind {f : Token → Reader α} (h : Accounts (f (ts.headD last)) ds last ts) :
    Accounts (Reader.peek >>= f) ds last ts := h

theorem congr {r' : Reader α} (h : Accounts r ds last ts) (heq : r' last ts = r last ts) :
    Accounts r' ds last ts := by
  rwa [Accounts, heq]

theorem expect {kind : Token.Kind} {cause : GrammarError.Cause} (hl : kind ≠ .leftBrace)
    (hr : kind ≠ .rightBrace) (h : cause ≠ .expectRightBrace) :
    Accounts (Reader.expect kind cause) [] last ts := by
  refine .peek_bind ?_
  split
  · rename_i hk
    exact .advance hk hl hr
  · exact .fail h

/-- Two readers take, one behind the other, what each of them takes. -/
theorem bind (h : Accounts r ds last ts) (hf : ∀ a rest, Accounts (f a) (behind last rest) last rest) :
    Accounts (r >>= f) (ds ++ discardedBehind r behind last ts) last ts := by
  obtain ⟨us, htaken, hds, hbalance⟩ := h
  rw [Accounts, discardedBehind]
  cases hr : r last ts with
  | mk result rest notices =>
      rw [hr] at htaken hbalance
      cases result with
      | error e =>
          rw [bind_error hr, List.append_nil]
          exact ⟨us, htaken, hds, hbalance⟩
      | ok a =>
          obtain ⟨us', htaken', hds', hbalance'⟩ := hf a rest
          rw [bind_ok hr]
          refine ⟨us ++ us', ?_, hds.append hds', ?_⟩
          · rw [htaken, List.append_assoc]
            exact congrArg _ htaken'
          · rw [errors_ok] at hbalance
            rw [errors_behind]
            simp only [opening_append, closing_append, missing_append]
            omega

/-- Nothing is thrown away by what stands behind. -/
theorem bind_left (h : Accounts r ds last ts) (hf : ∀ a rest, Accounts (f a) [] last rest) :
    Accounts (r >>= f) ds last ts := by
  have hbind : Accounts (r >>= f) (ds ++ discardedBehind r (fun _ _ => []) last ts) last ts :=
    h.bind hf
  have hnil : discardedBehind r (fun _ _ => []) last ts = [] := by
    rw [discardedBehind]
    split <;> rfl
  rwa [hnil, List.append_nil] at hbind

/-- Only what stands behind throws something away. -/
theorem bind_right (behind : Token → List Token → List Token) (h : Accounts r [] last ts)
    (hf : ∀ a rest, Accounts (f a) (behind last rest) last rest) :
    Accounts (r >>= f) (discardedBehind r behind last ts) last ts :=
  h.bind hf

theorem map {f : α → β} (h : Accounts r ds last ts) : Accounts (f <$> r) ds last ts :=
  h.bind_left fun _ _ => .pure _

theorem recovering {r : Reader Stmt} (h : Accounts r ds last ts) :
    Accounts (recovering r) (ds ++ skippedBehind r last ts) last ts := by
  obtain ⟨us, htaken, hds, hbalance⟩ := h
  rw [Accounts, skippedBehind, Grammar.recovering]
  cases hr : r last ts with
  | mk result rest notices =>
      rw [hr] at htaken hbalance
      cases result with
      | ok s => exact ⟨us, htaken, by rwa [List.append_nil], by rwa [List.append_nil]⟩
      | error e =>
          refine ⟨us ++ skipped rest, ?_, hds.append (.refl _), ?_⟩
          · rw [htaken, List.append_assoc, skipped_append]
          · rw [errors_ok, errorsIn_append]
            rw [Step.errors] at hbalance
            simp only [opening_append, closing_append, missing_append] at hbalance ⊢
            have herror : errorsIn [.error e, .resumed ((skipToStatement rest).headD last)] = [e] :=
              rfl
            rw [herror]
            omega

end Accounts

/-! ### The readers of the grammar -/

theorem assignTo_accounts (target value : Expr) (equals : Token) :
    Accounts (assignTo target equals value) [] last ts := by
  cases target with
  | «variable» name => exact .pure _
  | _ => exact .bind_left (.report (by simp)) fun _ _ => .pure _

theorem operand_accounts_succ (ho : ∀ ts, Accounts (operand budget) [] last ts)
    (hc : ∀ level left ts, Accounts (climb budget level left) [] last ts) :
    Accounts (operand (budget + 1)) [] last ts := by
  rw [operand]
  refine .peek_bind ?_
  split
  case h_1 h | h_2 h =>
    refine .bind_left (.advance h (by simp) (by simp)) fun _ _ => ?_
    exact .bind_left (ho _) fun _ _ => .pure _
  case h_9 h =>
    refine .bind_left (.advance h (by simp) (by simp)) fun _ _ => .bind_left (ho _) fun _ _ => ?_
    refine .bind_left (hc _ _ _) fun _ _ => ?_
    exact .bind_left (.expect (by simp) (by simp) (by simp)) fun _ _ => .pure _
  case h_10 => exact .fail (by simp)
  case h_3 h | h_4 h | h_5 h | h_6 h | h_7 h | h_8 h =>
    exact .bind_left (.advance h (by simp) (by simp)) fun _ _ => .pure _

/-- No operator is a brace. -/
theorem climb_accounts_succ (ho : ∀ ts, Accounts (operand budget) [] last ts)
    (hc : ∀ level left ts, Accounts (climb budget level left) [] last ts) (level : Level)
    (left : Expr) : Accounts (climb (budget + 1) level left) [] last ts := by
  cases hbelow : level.below (.ofKind (ts.headD last).kind) with
  | false => exact (Accounts.pure left).congr (climb_of_not_below hbelow)
  | true =>
      have hin := inExpression_of_below hbelow
      have hl : (ts.headD last).kind ≠ .leftBrace := fun h => by rw [h] at hin; cases hin
      have hr : (ts.headD last).kind ≠ .rightBrace := fun h => by rw [h] at hin; cases hin
      refine Accounts.congr (.bind_left (.advance rfl hl hr) fun operator _ => ?_) (climb_of_below hbelow)
      refine .bind_left (ho _) fun first _ => ?_
      split
      · refine .bind_left (hc _ _ _) fun value _ => ?_
        exact .bind_left (assignTo_accounts _ _ _) fun _ _ => hc _ _ _
      · exact .bind_left (hc _ _ _) fun _ _ => hc _ _ _

theorem operand_accounts_climb_accounts (budget : Nat) :
    (∀ ts, Accounts (operand budget) [] last ts) ∧
      ∀ level left ts, Accounts (climb budget level left) [] last ts := by
  induction budget with
  | zero => exact ⟨fun _ => .fail (by simp), fun _ left _ => .pure left⟩
  | succ budget ih =>
      exact ⟨fun _ => operand_accounts_succ ih.1 ih.2,
        fun _ _ _ => climb_accounts_succ ih.1 ih.2 _ _⟩

theorem expression_accounts (last : Token) (ts : List Token) : Accounts expression [] last ts := by
  obtain ⟨ho, hc⟩ := @operand_accounts_climb_accounts last ts.length
  exact Accounts.bind_left (ho ts) fun first _ => hc .lowest first _

theorem declaration_accounts (h : (ts.headD last).kind = .kwVar) :
    Accounts declaration [] last ts := by
  refine .bind_left (.advance h (by simp) (by simp)) fun _ _ => ?_
  refine .bind_left (.expect (by simp) (by simp) (by simp)) fun name rest => ?_
  have hend : ∀ initializer? rest, Accounts (do
      let _ ← Reader.expect .semicolon (.expectSemicolon "variable declaration")
      return .declare name initializer? : Reader Stmt) [] last rest :=
    fun _ _ => .bind_left (.expect (by simp) (by simp) (by simp)) fun _ _ => .pure _
  refine .peek_bind ?_
  split
  · rename_i heq
    refine .bind_left (.advance heq (by simp) (by simp)) fun _ _ => ?_
    exact .bind_left (expression_accounts _ _).map hend
  · exact .bind_left (.pure none) hend

theorem printStatement_accounts (h : (ts.headD last).kind = .kwPrint) :
    Accounts printStatement [] last ts := by
  refine .bind_left (.advance h (by simp) (by simp)) fun _ _ => ?_
  refine .bind_left (expression_accounts _ _) fun _ _ => ?_
  exact .bind_left (.expect (by simp) (by simp) (by simp)) fun _ _ => .pure _

theorem expressionStatement_accounts : Accounts expressionStatement [] last ts := by
  refine .bind_left (expression_accounts _ _) fun _ _ => ?_
  exact .bind_left (.expect (by simp) (by simp) (by simp)) fun _ _ => .pure _

theorem ifCondition_accounts (h : (ts.headD last).kind = .kwIf) :
    Accounts ifCondition [] last ts := by
  refine .bind_left (.advance h (by simp) (by simp)) fun _ _ => ?_
  refine .bind_left (.expect (by simp) (by simp) (by simp)) fun _ _ => ?_
  refine .bind_left (expression_accounts _ _) fun _ _ => ?_
  exact .bind_left (.expect (by simp) (by simp) (by simp)) fun _ _ => .pure _

/-- Behind the inside of a block, its closing brace is taken, or it is missing. -/
theorem blockEnd_cases (hlast : last.kind = .eof) (body : List Stmt) (ts : List Token) :
    let blockEnd : Reader Stmt := do
      let _ ← Reader.expect .rightBrace .expectRightBrace
      return .block body
    (∃ r us, ts = r :: us ∧ r.kind = .rightBrace ∧
      blockEnd last ts = ⟨.ok (.block body), us, []⟩) ∨
    blockEnd last ts = ⟨.error ⟨.expectRightBrace, ts.headD last⟩, ts, []⟩ := by
  cases ts with
  | nil =>
      refine .inr (bind_error ?_)
      rw [expect, peek_bind_apply, List.headD_nil, hlast]
      rfl
  | cons r us =>
      by_cases hr : r.kind = .rightBrace
      · have hclose : Reader.expect .rightBrace .expectRightBrace last (r :: us) =
            ⟨.ok r, us, []⟩ := by
          rw [expect, peek_bind_apply, List.headD_cons, if_pos hr]
          rfl
        exact .inl ⟨r, us, rfl, hr, (bind_ok hclose).trans rfl⟩
      · refine .inr (bind_error ?_)
        rw [expect, peek_bind_apply, List.headD_cons, if_neg hr]
        rfl

/-- A block takes its opening brace, and its closing brace unless that is reported as missing. -/
theorem block_accounts (hlast : last.kind = .eof) (hl : (ts.headD last).kind = .leftBrace)
    (hd : Accounts (declarations budget .block) ds last ts.tail) :
    Accounts (do
      let _ ← Reader.advance
      let body ← declarations budget .block
      let _ ← Reader.expect .rightBrace .expectRightBrace
      return .block body : Reader Stmt) ds last ts := by
  cases ts with
  | nil =>
      rw [List.headD_nil, hlast] at hl
      cases hl
  | cons t ts =>
      rw [List.headD_cons] at hl
      obtain ⟨us, htaken, hds, hbalance⟩ := hd
      obtain ⟨body, hbody⟩ := @declarations_total budget .block last ts
      rw [List.tail_cons] at htaken hbalance
      change ∃ us, Settles (t :: ts) us ds ((do
        let body ← declarations budget .block
        let _ ← Reader.expect .rightBrace .expectRightBrace
        return .block body : Reader Stmt) last ts)
      cases hr : declarations budget .block last ts with
      | mk result rest notices =>
          rw [hr] at htaken hbalance hbody
          cases hbody
          rw [errors_ok] at hbalance
          rw [bind_ok hr]
          rcases blockEnd_cases hlast body rest with ⟨r, more, rfl, hk, hend⟩ | hend <;> rw [hend]
          · refine ⟨t :: us ++ [r], ?_, (hds.cons t).trans (List.sublist_append_left _ _), ?_⟩
            · rw [htaken, List.cons_append, List.cons_append, List.append_assoc]
              rfl
            · rw [errors_ok, List.append_nil]
              simp only [List.cons_append, opening_cons, closing_cons, opening_append,
                closing_append, opening_nil, closing_nil, hl, hk, reduceCtorEq, if_true, if_false]
              omega
          · refine ⟨t :: us, congrArg _ htaken, hds.cons t, ?_⟩
            have herror : missing [⟨.expectRightBrace, rest.headD last⟩] = 1 := rfl
            rw [List.append_nil, Step.errors, missing_append, herror]
            simp only [opening_cons, closing_cons, hl, reduceCtorEq, if_true, if_false]
            omega

theorem statement_accounts_succ (hlast : last.kind = .eof)
    (hs : ∀ ts, Accounts (statement budget) (statementDiscards budget last ts) last ts)
    (hd : ∀ enclosure ts, Accounts (declarations budget enclosure)
      (declarationsDiscards budget enclosure last ts) last ts) :
    Accounts (statement (budget + 1)) (statementDiscards (budget + 1) last ts) last ts := by
  rw [statement, statementDiscards]
  refine .peek_bind ?_
  split
  case h_1 h =>
    simp only [h]
    refine .bind_right _ (ifCondition_accounts h) fun condition rest => ?_
    refine .bind (hs rest) fun consequent rest => .peek_bind ?_
    split
    · rename_i helse
      exact .bind_right (statementDiscards budget) (.advance helse (by simp) (by simp))
        fun _ rest => (hs rest).bind_left fun _ _ => .pure _
    · exact .pure _
  case h_2 h =>
    simp only [h]
    exact printStatement_accounts h
  case h_3 h =>
    simp only [h]
    exact block_accounts hlast h (hd _ _)
  case h_4 hi _ hb =>
    split
    · exact absurd ‹_› hi
    · exact absurd ‹_› hb
    · exact expressionStatement_accounts

theorem declarations_accounts_succ
    (hs : ∀ ts, Accounts (statement budget) (statementDiscards budget last ts) last ts)
    (hd : ∀ enclosure ts, Accounts (declarations budget enclosure)
      (declarationsDiscards budget enclosure last ts) last ts) (enclosure : Enclosure) :
    Accounts (declarations (budget + 1) enclosure)
      (declarationsDiscards (budget + 1) enclosure last ts) last ts := by
  rw [declarations, declarationsDiscards]
  refine .peek_bind ?_
  split
  · exact .pure _
  · have hmember : Accounts
        (if (ts.headD last).kind = .kwVar then declaration else statement budget)
        (if (ts.headD last).kind = .kwVar then [] else statementDiscards budget last ts) last ts := by
      split
      · rename_i h
        exact declaration_accounts h
      · exact hs ts
    exact hmember.recovering.bind fun first? rest =>
      (hd enclosure rest).bind_left fun others _ => .pure (first?.toList ++ others)

/-- Statements account for what they take, and so do lists of declarations. -/
theorem statement_accounts_declarations_accounts (hlast : last.kind = .eof) (budget : Nat) :
    (∀ ts, Accounts (statement budget) (statementDiscards budget last ts) last ts) ∧
      ∀ enclosure ts, Accounts (declarations budget enclosure)
        (declarationsDiscards budget enclosure last ts) last ts := by
  induction budget with
  | zero => exact ⟨fun _ => .fail (by simp), fun _ _ => .pure []⟩
  | succ budget ih =>
      exact ⟨fun _ => statement_accounts_succ hlast ih.1 ih.2,
        fun enclosure _ => declarations_accounts_succ ih.1 ih.2 enclosure⟩

/-! ### Whole programs -/

/-- The tokens that recovery throws away while a token list is read. -/
def discarded (ts : List Token) : List Token :=
  let input := Input.ofTokens ts
  declarationsDiscards (2 * input.body.length) .program input.last input.body

/-- All braces of a token list are accounted for. -/
theorem parse_settles (ts : List Token) :
    (discarded ts).Sublist (Input.ofTokens ts).body ∧
      opening (Input.ofTokens ts).body + closing (discarded ts) =
        closing (Input.ofTokens ts).body + opening (discarded ts) +
          missing (Parse.ofTokens ts).errors := by
  have hlast := Input.ofTokens_last ts
  have hbody : ∀ t ∈ (Input.ofTokens ts).body, t.isEof = false :=
    fun t ht => Input.isEof_of_mem_body ht
  obtain ⟨us, htaken, hds, hbalance⟩ :=
    (statement_accounts_declarations_accounts hlast (2 * (Input.ofTokens ts).body.length)).2
      .program (Input.ofTokens ts).body
  have hlen : (Input.ofTokens ts).body.length ≤ 2 * (Input.ofTokens ts).body.length := by omega
  obtain ⟨hrest, -⟩ := program_taken hlast hbody hlen
  rw [hrest, List.append_nil] at htaken
  subst htaken
  rw [errors_ofTokens]
  exact ⟨hds, hbalance⟩

/-- **Missing braces.**  If the braces in front of the first end of input are balanced, as many
closing braces are reported as missing as recovery from other errors throws away, less the opening
braces that it throws away.  So none is if it throws away no closing brace. -/
theorem missing_of_balanced (ts : List Token) (h : Balanced (Input.ofTokens ts).body) :
    missing (Parse.ofTokens ts).errors + opening (discarded ts) = closing (discarded ts) ∧
      (closing (discarded ts) = 0 → ∀ e ∈ (Parse.ofTokens ts).errors, e.cause ≠ .expectRightBrace) := by
  obtain ⟨-, hbalance⟩ := parse_settles ts
  have hmissing : missing (Parse.ofTokens ts).errors + opening (discarded ts) =
      closing (discarded ts) := by
    have := h.opening_eq_closing
    omega
  refine ⟨hmissing, fun hnone e he hcause => ?_⟩
  have hpos : 0 < missing (Parse.ofTokens ts).errors :=
    List.countP_pos_iff.2 ⟨e, he, decide_eq_true hcause⟩
  omega

/-- The tokens of `{ 1 }`, a block in which a semicolon is missing. -/
def unfinishedBlock : List Token := (Token.Scan.ofString "{ 1 }").tokens

/-- Recovery from the missing semicolon skips the closing brace, which is then missing. -/
theorem balanced_missing : ¬ ∀ ts, Balanced ts →
    ∀ e ∈ (Parse.ofTokens ts).errors, e.cause ≠ .expectRightBrace := by
  intro h
  have hbalanced : Balanced unfinishedBlock :=
    .braces [⟨.number, _, _, _, _⟩] (l := ⟨.leftBrace, _, _, _, _⟩)
      (r := ⟨.rightBrace, _, _, _, _⟩) rfl rfl (.other (by simp) (by simp) .nil)
      (.other (by decide) (by decide) .nil)
  have hmissing : 0 < missing (Parse.ofTokens unfinishedBlock).errors := by decide
  obtain ⟨e, he, hcause⟩ := List.countP_pos_iff.1 hmissing
  exact h _ hbalanced e he (of_decide_eq_true hcause)

/-- Recovery throws away the braces between the first two blocks, and the last one. -/
theorem missing_of_balanced_skipped :
    Balanced (Input.ofTokens (Token.Scan.ofString "{ 1 } { 2; } { 3 }").tokens).body ∧
      missing (Parse.ofTokens (Token.Scan.ofString "{ 1 } { 2; } { 3 }").tokens).errors = 1 ∧
      opening (discarded (Token.Scan.ofString "{ 1 } { 2; } { 3 }").tokens) = 1 ∧
      closing (discarded (Token.Scan.ofString "{ 1 } { 2; } { 3 }").tokens) = 2 := by
  have hbalanced :
      Balanced (Input.ofTokens (Token.Scan.ofString "{ 1 } { 2; } { 3 }").tokens).body :=
    .braces [⟨.number, _, _, _, _⟩] (l := ⟨.leftBrace, _, _, _, _⟩)
      (r := ⟨.rightBrace, _, _, _, _⟩) rfl rfl (.other (by simp) (by simp) .nil) <|
    .braces [⟨.number, _, _, _, _⟩, ⟨.semicolon, _, _, _, _⟩] (l := ⟨.leftBrace, _, _, _, _⟩)
      (r := ⟨.rightBrace, _, _, _, _⟩) rfl rfl
      (.other (by simp) (by simp) (.other (by simp) (by simp) .nil)) <|
    .braces [⟨.number, _, _, _, _⟩] (l := ⟨.leftBrace, _, _, _, _⟩)
      (r := ⟨.rightBrace, _, _, _, _⟩) rfl rfl (.other (by simp) (by simp) .nil) .nil
  have hopening : opening (discarded (Token.Scan.ofString "{ 1 } { 2; } { 3 }").tokens) = 1 := by
    decide
  have hclosing : closing (discarded (Token.Scan.ofString "{ 1 } { 2; } { 3 }").tokens) = 2 := by
    decide
  obtain ⟨hmissing, -⟩ := missing_of_balanced _ hbalanced
  exact ⟨hbalanced, by omega, hopening, hclosing⟩

end Lox.Grammar
