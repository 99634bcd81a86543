import Lox.Grammar.Program
import Lox.Proofs.Tree.Relocation

/-!
# Proofs — Grammar — Reading tokens that stand elsewhere

Reading looks at the kinds of tokens and at the values of literals, and at nothing else of them.  So
tokens that are relocated are read as the relocated statements, with the relocated errors
(`program_relocates`), and this is true of each rule of the grammar.

`Reader.Relocates` says so of one reader, or of two readers that were made with tokens before and
after the relocation.
-/

namespace Lox.Grammar

/-- What was noticed, of the images of the tokens. -/
def Notice.relocate (f : Token → Token) : Notice → Notice
  | .error e => .error (e.relocate f)
  | .resumed before => .resumed (f before)

/-- What reading comes to, with the images of the tokens. -/
def Step.relocate {α β : Type} (f : Token → Token) (g : α → β) (step : Step α) : Step β :=
  ⟨match step.result with
    | .ok a => .ok (g a)
    | .error e => .error (e.relocate f),
    step.rest.map f, step.notices.map (Notice.relocate f)⟩

variable {α β α' β' : Type} {f : Token → Token}

namespace Reader

/-- In front of the images of tokens, the second reader does what the first one does in front of the
tokens, but for the relocation. -/
def Relocates (f : Token → Token) (g : α → β) (r : Reader α) (r' : Reader β) : Prop :=
  ∀ last ts, r' (f last) (ts.map f) = (r last ts).relocate f g

namespace Relocates

theorem pure {g : α → β} (a : α) : Relocates f g (Pure.pure a) (Pure.pure (g a)) :=
  fun _ _ => rfl

theorem fail {g : α → β} (cause : GrammarError.Cause) :
    Relocates f g (Reader.fail cause) (Reader.fail cause) := by
  intro last ts
  cases ts <;> rfl

theorem report {g : Unit → Unit} (e : GrammarError) :
    Relocates f g (Reader.report e) (Reader.report (e.relocate f)) :=
  fun _ _ => rfl

theorem peek : Relocates f f Reader.peek Reader.peek := by
  intro last ts
  cases ts <;> rfl

theorem advance : Relocates f f Reader.advance Reader.advance := by
  intro last ts
  cases ts <;> rfl

theorem bind {g : α → β} {h : α' → β'} {r : Reader α} {r' : Reader β} {k : α → Reader α'}
    {k' : β → Reader β'} (hr : Relocates f g r r')
    (hk : ∀ a, Relocates f h (k a) (k' (g a))) : Relocates f h (r >>= k) (r' >>= k') := by
  intro last ts
  change Reader.bind r' k' _ _ = (Reader.bind r k last ts).relocate f h
  rw [Reader.bind, Reader.bind, hr last ts]
  cases hstep : r last ts with
  | mk result rest notices =>
      cases result with
      | error e => rfl
      | ok a => simp [Step.relocate, hk a last rest]

theorem ite {g : α → β} {c c' : Prop} [Decidable c] [Decidable c'] (hc : c' ↔ c)
    {r s : Reader α} {r' s' : Reader β} (hr : Relocates f g r r') (hs : Relocates f g s s') :
    Relocates f g (if c then r else s) (if c' then r' else s') := by
  by_cases h : c
  · rw [if_pos h, if_pos (hc.2 h)]
    exact hr
  · rw [if_neg h, if_neg fun h' => h (hc.1 h')]
    exact hs

theorem expect (hf : Token.Relocation f) (kind : Token.Kind) (cause : GrammarError.Cause) :
    Relocates f f (Reader.expect kind cause) (Reader.expect kind cause) :=
  .bind .peek fun t => .ite (by rw [hf.kind]) .advance (.fail cause)

/-- There are as many images as tokens. -/
theorem budgeted {g : α → β} {budget : Nat → Nat} {r : Nat → Reader α} {r' : Nat → Reader β}
    (h : ∀ n, Relocates f g (r n) (r' n)) :
    Relocates f g (Reader.budgeted budget r) (Reader.budgeted budget r') := by
  intro last ts
  rw [Reader.budgeted, List.length_map]
  exact h _ last ts

end Relocates

end Reader

open Reader (Relocates)

/-! ### Expressions -/

theorem assignTo_relocates (target : Expr) (equals : Token) (value : Expr) :
    Relocates f (Expr.relocate f) (assignTo target equals value)
      (assignTo (target.relocate f) (f equals) (value.relocate f)) := by
  cases target with
  | «variable» name => exact .pure _
  | _ => exact .bind (.report (g := id) _) fun _ => .pure _

variable (hf : Token.Relocation f)

include hf

theorem operation_relocate (left : Expr) (operator : Token) (right : Expr) :
    operation (left.relocate f) (f operator) (right.relocate f) =
      (operation left operator right).relocate f := by
  rw [operation, operation, hf.kind]
  split <;> rfl

theorem operand_climb_relocates (budget : Nat) :
    Relocates f (Expr.relocate f) (operand budget) (operand budget) ∧
      ∀ level left, Relocates f (Expr.relocate f) (climb budget level left)
        (climb budget level (left.relocate f)) := by
  induction budget with
  | zero => exact ⟨.fail _, fun _ left => .pure left⟩
  | succ budget ih =>
      constructor
      · rw [operand]
        refine .bind .peek fun t => ?_
        rw [hf.kind]
        split
        case h_1 | h_2 => exact .bind .advance fun operator => .bind ih.1 fun e => .pure _
        case h_3 | h_4 | h_5 | h_6 | h_7 =>
          refine .bind .advance fun token => ?_
          rw [hf.literal]
          exact .pure _
        case h_8 => exact .bind .advance fun name => .pure _
        case h_9 =>
          refine .bind .advance fun _ => .bind ih.1 fun first => .bind (ih.2 .lowest first) fun e => ?_
          exact .bind (.expect hf _ _) fun _ => .pure _
        case h_10 => exact .fail _
      · intro level left
        rw [climb, climb]
        refine .bind .peek fun t => .ite (by rw [hf.kind]) ?_ (.pure _)
        refine .bind .advance fun operator => .bind ih.1 fun first => .ite (by rw [hf.kind]) ?_ ?_
        · refine .bind (ih.2 .lowest first) fun value => ?_
          exact .bind (assignTo_relocates left operator value) fun e => ih.2 level e
        · rw [hf.kind]
          refine .bind (ih.2 _ first) fun right => ?_
          rw [operation_relocate hf]
          exact ih.2 level _

theorem expression_relocates : Relocates f (Expr.relocate f) expression expression :=
  .budgeted fun n => .bind (operand_climb_relocates hf n).1 fun first =>
    (operand_climb_relocates hf n).2 .lowest first

/-! ### Statements -/

theorem printStatement_relocates :
    Relocates f (Stmt.relocate f) printStatement printStatement :=
  .bind .advance fun _ => .bind (expression_relocates hf) fun _ =>
    .bind (.expect hf _ _) fun _ => .pure _

theorem expressionStatement_relocates :
    Relocates f (Stmt.relocate f) expressionStatement expressionStatement :=
  .bind (expression_relocates hf) fun _ => .bind (.expect hf _ _) fun _ => .pure _

theorem ifCondition_relocates : Relocates f (Expr.relocate f) ifCondition ifCondition :=
  .bind .advance fun _ => .bind (.expect hf _ _) fun _ => .bind (expression_relocates hf) fun _ =>
    .bind (.expect hf _ _) fun _ => .pure _

theorem declaration_relocates : Relocates f (Stmt.relocate f) declaration declaration := by
  refine .bind .advance fun _ => .bind (.expect hf _ _) fun name => .bind .peek fun t => ?_
  have hend : ∀ initializer? : Option Expr, Relocates f (Stmt.relocate f) (do
        let _ ← Reader.expect .semicolon (.expectSemicolon "variable declaration")
        return .declare name initializer? : Reader Stmt) (do
        let _ ← Reader.expect .semicolon (.expectSemicolon "variable declaration")
        return .declare (f name) (initializer?.map (Expr.relocate f)) : Reader Stmt) :=
    fun _ => .bind (.expect hf _ _) fun _ => .pure _
  refine .ite (by rw [hf.kind]) ?_ ?_
  · refine .bind .advance fun _ => .bind ?_ hend
    exact .bind (expression_relocates hf) fun e => .pure (some e)
  · exact .bind (.pure none) hend

theorem skipFrom_map (previous : Token) (ts : List Token) :
    skipFrom (f previous) (ts.map f) = (skipFrom previous ts).map f := by
  induction ts generalizing previous with
  | nil => rfl
  | cons t ts ih =>
      simp only [List.map_cons, skipFrom, hf.kind, ih]
      split <;> rfl

theorem skipToStatement_map (ts : List Token) :
    skipToStatement (ts.map f) = (skipToStatement ts).map f := by
  cases ts with
  | nil => rfl
  | cons t ts => exact skipFrom_map hf t ts

theorem recovering_relocates {r r' : Reader Stmt} (h : Relocates f (Stmt.relocate f) r r') :
    Relocates f (Option.map (Stmt.relocate f)) (recovering r) (recovering r') := by
  intro last ts
  rw [recovering, recovering, h last ts]
  cases hstep : r last ts with
  | mk result rest notices =>
      cases result with
      | ok s => rfl
      | error e =>
          simp [Step.relocate, Notice.relocate, skipToStatement_map hf]

theorem statement_declarations_relocates (budget : Nat) :
    Relocates f (Stmt.relocate f) (statement budget) (statement budget) ∧
      ∀ enclosure, Relocates f (Stmt.relocateAll f) (declarations budget enclosure)
        (declarations budget enclosure) := by
  induction budget with
  | zero => exact ⟨.fail _, fun _ => .pure []⟩
  | succ budget ih =>
      constructor
      · rw [statement]
        refine .bind .peek fun t => ?_
        rw [hf.kind]
        split
        · refine .bind (ifCondition_relocates hf) fun c => .bind ih.1 fun s => .bind .peek fun t => ?_
          refine .ite (by rw [hf.kind]) ?_ (.pure _)
          exact .bind .advance fun _ => .bind ih.1 fun t => .pure _
        · exact printStatement_relocates hf
        · refine .bind .advance fun _ => .bind (ih.2 .block) fun body => ?_
          exact .bind (.expect hf _ _) fun _ => .pure _
        · exact expressionStatement_relocates hf
      · intro enclosure
        rw [declarations]
        refine .bind .peek fun front => .ite ?_ (.pure []) ?_
        · rw [Enclosure.endsBefore, Enclosure.endsBefore, Token.isEof, Token.isEof, hf.kind]
        · refine .bind (recovering_relocates hf (.ite (by rw [hf.kind]) ?_ ih.1)) fun first? => ?_
          · exact declaration_relocates hf
          · refine .bind (ih.2 enclosure) fun others => ?_
            have happend : (first?.map (Stmt.relocate f)).toList ++ Stmt.relocateAll f others =
                Stmt.relocateAll f (first?.toList ++ others) := by
              cases first? <;> rfl
            rw [happend]
            exact .pure _

/-! ### Programs -/

/-- A program of relocated tokens is the relocated program, and has the relocated errors. -/
theorem program_relocates : Relocates f (Stmt.relocateAll f) program program :=
  .budgeted fun n => (statement_declarations_relocates hf n).2 .program

theorem isEof_relocate (t : Token) : (f t).isEof = t.isEof := by
  rw [Token.isEof, Token.isEof, hf.kind]

/-- What is read ends at the image of the end of input. -/
theorem Input.ofTokens_map {ts : List Token} (h : ∃ t ∈ ts, t.isEof) :
    Input.ofTokens (ts.map f) = ⟨(Input.ofTokens ts).body.map f, f (Input.ofTokens ts).last⟩ := by
  have hcomp : (fun t : Token => t.isEof) ∘ f = (·.isEof) := funext (isEof_relocate hf)
  have hcomp' : (fun t : Token => !t.isEof) ∘ f = (!·.isEof) :=
    funext fun t => congrArg _ (isEof_relocate hf t)
  rw [Input.ofTokens, Input.ofTokens, List.takeWhile_map, List.find?_map, hcomp, hcomp']
  obtain ⟨t, ht, heof⟩ := h
  cases hfind : ts.find? (·.isEof) with
  | none => exact absurd heof (List.find?_eq_none.1 hfind t ht)
  | some t => rfl

/-- Relocated tokens are read as the relocated statements, with the relocated errors. -/
theorem parse_map {ts : List Token} (h : ∃ t ∈ ts, t.isEof) :
    (Parse.ofTokens (ts.map f)).statements =
        Stmt.relocateAll f (Parse.ofTokens ts).statements ∧
      (Parse.ofTokens (ts.map f)).errors = (Parse.ofTokens ts).errors.map (·.relocate f) := by
  have hp := program_relocates hf (Input.ofTokens ts).last (Input.ofTokens ts).body
  rw [Parse.errors, Parse.errors, Parse.ofTokens, Parse.ofTokens, Input.ofTokens_map hf h]
  simp only [hp]
  generalize program (Input.ofTokens ts).last (Input.ofTokens ts).body = step
  constructor
  · obtain ⟨_ | _, _, _⟩ := step <;> rfl
  · rw [Step.relocate, List.filterMap_map, List.map_filterMap]
    congr 1
    funext notice
    cases notice <;> rfl

end Lox.Grammar
