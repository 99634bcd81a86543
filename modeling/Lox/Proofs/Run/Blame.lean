import Lox.Proofs.Execution.Refinement
import Lox.Proofs.Run.Judging

/-!
# Proofs — Run — Which token is blamed

**Blame** (`fault_fits`).  A text that ends with a fault has the blamed token among its tokens, and
the token is one that such a fault may be blamed on, used as the fault says: an operator on operands
that it does not take, a name that is not bound, the `print` whose line was not taken.

A tree tells what the tokens that it keeps are used as (`Stmt.usesAll`).  In what was read, every use
is of a kind of token that admits it (`Stmt.admitted_of_shaped`), and every token used is one of
those read (`Stmt.stored_of_mem_uses`); and evaluating and executing blame nothing but a token of
the tree for a fault that its use allows (`evaluate_blames`, `executeAll_blames`).
-/

namespace Lox

open Effect (ending ending_blaming ending_bind_ok ending_bind_error ending_onEnvironment
  ending_inScope)
open Token (Scan)

/-! ### Uses of tokens -/

/-- What a tree keeps a token for. -/
inductive Token.Use where
  /-- As an operator with one operand. -/
  | unary
  /-- As an operator with two operands. -/
  | binary
  /-- As an operator that may leave its right operand alone. -/
  | logical
  /-- As a name whose value is asked for. -/
  | read
  /-- As a name that is assigned to. -/
  | assigned
  /-- As a name that is bound. -/
  | declared
  /-- As the keyword of a statement. -/
  | print

/-- A token of the kind can be used so. -/
def Token.Use.Admits : Token.Use → Token.Kind → Prop
  | unary, kind => kind.isUnary
  | binary, kind => kind.isBinary
  | logical, kind => kind.isLogical
  | read, kind | assigned, kind | declared, kind => kind = .identifier
  | print, kind => kind = .kwPrint

/-- Tokens and what they are used as. -/
abbrev Uses := List (Token × Token.Use)

/-- All are used as tokens of their kinds can be. -/
def Uses.Admitted (uses : Uses) : Prop := ∀ use ∈ uses, use.2.Admits use.1.kind

/-- The tokens of an expression. -/
def Expr.uses : Expr → Uses
  | .literal _ => []
  | .variable name => [(name, .read)]
  | .grouping e => e.uses
  | .unary operator e => (operator, .unary) :: e.uses
  | .binary l operator r => l.uses ++ (operator, .binary) :: r.uses
  | .logical l operator r => l.uses ++ (operator, .logical) :: r.uses
  | .assign name e => (name, .assigned) :: e.uses

mutual

/-- The tokens of a statement. -/
def Stmt.uses : Stmt → Uses
  | .expression e => e.uses
  | .print keyword e => (keyword, .print) :: e.uses
  | .declare name none => [(name, .declared)]
  | .declare name (some e) => (name, .declared) :: e.uses
  | .block body => Stmt.usesAll body
  | .conditional c s none => c.uses ++ s.uses
  | .conditional c s (some t) => c.uses ++ s.uses ++ t.uses

/-- The tokens of the statements of a list. -/
def Stmt.usesAll : List Stmt → Uses
  | [] => []
  | s :: ss => s.uses ++ Stmt.usesAll ss

end

namespace Uses

variable {uses uses' : Uses} {t : Token} {use : Token.Use}

theorem admitted_cons : Uses.Admitted ((t, use) :: uses) ↔ use.Admits t.kind ∧ uses.Admitted := by
  rw [Admitted, List.forall_mem_cons]
  rfl

theorem admitted_append : Uses.Admitted (uses ++ uses') ↔ uses.Admitted ∧ uses'.Admitted :=
  List.forall_mem_append

end Uses

open Uses (admitted_cons admitted_append)

theorem Expr.admitted_of_shaped {e : Expr} (h : e.Shaped) : e.uses.Admitted := by
  induction e with
  | literal v =>
      intro use hmem
      cases hmem
  | «variable» name => exact admitted_cons.2 ⟨h, fun use hmem => nomatch hmem⟩
  | grouping e ih => exact ih h
  | unary operator e ih => exact admitted_cons.2 ⟨h.1, ih h.2.2⟩
  | binary l operator r ihl ihr | logical l operator r ihl ihr =>
      exact admitted_append.2 ⟨ihl h.2.2.1, admitted_cons.2 ⟨h.1, ihr h.2.2.2⟩⟩
  | assign name e ih => exact admitted_cons.2 ⟨h.1, ih h.2⟩

mutual

theorem Stmt.admitted_of_shaped : ∀ s : Stmt, s.Shaped → s.uses.Admitted
  | .expression _, h => Expr.admitted_of_shaped h
  | .print _ _, h => admitted_cons.2 ⟨h.1, Expr.admitted_of_shaped h.2⟩
  | .declare _ none, h => admitted_cons.2 ⟨h, fun _ hmem => nomatch hmem⟩
  | .declare _ (some _), h => admitted_cons.2 ⟨h.1, Expr.admitted_of_shaped h.2⟩
  | .block body, h => Stmt.admitted_of_allShaped body h
  | .conditional _ s none, h =>
      admitted_append.2 ⟨Expr.admitted_of_shaped h.1, Stmt.admitted_of_shaped s h.2.1⟩
  | .conditional _ s (some t), h =>
      admitted_append.2 ⟨admitted_append.2 ⟨Expr.admitted_of_shaped h.1,
        Stmt.admitted_of_shaped s h.2.1⟩, Stmt.admitted_of_shaped t h.2.2.2.2.1⟩

theorem Stmt.admitted_of_allShaped :
    ∀ ss : List Stmt, Stmt.AllShaped ss → (Stmt.usesAll ss).Admitted
  | [], _ => fun _ hmem => nomatch hmem
  | s :: ss, h => admitted_append.2 ⟨Stmt.admitted_of_shaped s h.1,
      Stmt.admitted_of_allShaped ss h.2⟩

end

/-- What an expression uses is written out whole. -/
theorem Expr.stored_of_mem_uses {e : Expr} {use : Token × Token.Use} (h : use ∈ e.uses) :
    Slot.stored use.1 ∈ e.written := by
  induction e with
  | literal v => cases h
  | «variable» name =>
      rw [List.mem_singleton.1 h]
      exact List.mem_singleton_self _
  | grouping e ih => exact List.mem_append_left _ (List.mem_cons_of_mem _ (ih h))
  | unary operator e ih =>
      rcases List.mem_cons.1 h with rfl | h
      · exact List.mem_cons_self
      · exact List.mem_cons_of_mem _ (ih h)
  | binary l operator r ihl ihr | logical l operator r ihl ihr =>
      rcases List.mem_append.1 h with h | h
      · exact List.mem_append_left _ (ihl h)
      · rcases List.mem_cons.1 h with rfl | h
        · exact List.mem_append_right _ List.mem_cons_self
        · exact List.mem_append_right _ (List.mem_cons_of_mem _ (ihr h))
  | assign name e ih =>
      rcases List.mem_cons.1 h with rfl | h
      · exact List.mem_cons_self
      · exact List.mem_cons_of_mem _ (List.mem_cons_of_mem _ (ih h))

mutual

/-- What a statement uses is written out whole. -/
theorem Stmt.stored_of_mem_uses {use : Token × Token.Use} :
    ∀ s : Stmt, use ∈ s.uses → Slot.stored use.1 ∈ s.written
  | .expression e, h => by
      rw [Stmt.written]
      exact List.mem_append_left _ (Expr.stored_of_mem_uses h)
  | .print keyword e, h => by
      rw [Stmt.written, List.cons_append, List.mem_cons, List.mem_append]
      rcases List.mem_cons.1 h with rfl | h
      · exact .inl rfl
      · exact .inr (.inl (Expr.stored_of_mem_uses h))
  | .declare name none, h => by
      rw [List.mem_singleton.1 h, Stmt.written]
      simp
  | .declare name (some e), h => by
      rw [Stmt.written]
      rcases List.mem_cons.1 h with rfl | h
      · simp
      · simp [Expr.stored_of_mem_uses h]
  | .block body, h => by
      rw [Stmt.written]
      simp [Stmt.stored_of_mem_usesAll body h]
  | .conditional c s none, h => by
      rw [Stmt.written]
      rcases List.mem_append.1 h with h | h
      · simp [Expr.stored_of_mem_uses h]
      · simp [Stmt.stored_of_mem_uses s h]
  | .conditional c s (some t), h => by
      rw [Stmt.written]
      rcases List.mem_append.1 h with h | h
      · rcases List.mem_append.1 h with h | h
        · simp [Expr.stored_of_mem_uses h]
        · simp [Stmt.stored_of_mem_uses s h]
      · simp [Stmt.stored_of_mem_uses t h]

theorem Stmt.stored_of_mem_usesAll {use : Token × Token.Use} :
    ∀ ss : List Stmt, use ∈ Stmt.usesAll ss → Slot.stored use.1 ∈ Stmt.writtenAll ss
  | s :: ss, h => by
      rcases List.mem_append.1 h with h | h
      · exact List.mem_append_left _ (Stmt.stored_of_mem_uses s h)
      · exact List.mem_append_right _ (Stmt.stored_of_mem_usesAll ss h)

end

/-- A token that is written out whole is one of those written. -/
theorem Writes.mem_of_stored {slots : List Slot} {ts : List Token} {t : Token}
    (h : Writes slots ts) (ht : .stored t ∈ slots) : t ∈ ts := by
  induction h with
  | nil => cases ht
  | cons hx _ ih =>
      rcases List.mem_cons.1 ht with rfl | ht
      · rw [show t = _ from hx.symm]
        exact List.mem_cons_self
      · exact List.mem_cons_of_mem _ (ih ht)

/-! ### Faults -/

/-- The fault may be blamed on its token, which is used accordingly. -/
def Fault.Fits (uses : Uses) (f : Fault) : Prop :=
  match f.cause with
  | .operandMustBeNumber => f.token.kind = .minus ∧ (f.token, .unary) ∈ uses
  | .operandsMustBeNumbers =>
    f.token.kind ∈ [.minus, .star, .slash, .greater, .greaterEqual, .less, .lessEqual] ∧
      (f.token, .binary) ∈ uses
  | .operandsMustBeNumbersOrStrings => f.token.kind = .plus ∧ (f.token, .binary) ∈ uses
  | .undefinedVariable name => f.token.kind = .identifier ∧ f.token.lexeme = name ∧
    ((f.token, .read) ∈ uses ∨ (f.token, .assigned) ∈ uses)
  | .unknownOperator _ => False
  | .output _ => f.token.kind = .kwPrint ∧ (f.token, .print) ∈ uses

namespace Fault.Fits

variable {uses uses' : Uses} {f : Fault}

theorem mono (h : f.Fits uses) (huses : uses ⊆ uses') : f.Fits uses' := by
  obtain ⟨cause, token⟩ := f
  cases cause with
  | unknownOperator => exact h
  | undefinedVariable => exact ⟨h.1, h.2.1, h.2.2.imp (huses ·) (huses ·)⟩
  | operandMustBeNumber | operandsMustBeNumbers | operandsMustBeNumbersOrStrings | output =>
      exact ⟨h.1, huses h.2⟩

/-- The blamed token is one of those used. -/
theorem exists_use (h : f.Fits uses) : ∃ use, (f.token, use) ∈ uses := by
  obtain ⟨cause, token⟩ := f
  cases cause with
  | unknownOperator => exact h.elim
  | undefinedVariable => exact h.2.2.elim (⟨_, ·⟩) (⟨_, ·⟩)
  | operandMustBeNumber | operandsMustBeNumbers | operandsMustBeNumbersOrStrings | output =>
      exact ⟨_, h.2⟩

end Fault.Fits

/-! ### Effects and their faults -/

namespace Effect

variable {σ α β : Type} {P : Fault → Prop} {x : Effect σ α}

/-- All faults that the effect may end with have the property. -/
def Blames (P : Fault → Prop) (x : Effect σ α) : Prop :=
  ∀ s f, (ending x s).1 = .error f → P f

namespace Blames

theorem pure (a : α) : Blames P (Pure.pure a : Effect σ α) := by
  intro s f h
  cases h

theorem blaming {token : Token} {a : Except Fault.Cause α}
    (h : ∀ cause, a = .error cause → P ⟨cause, token⟩) :
    Blames P (blaming token a : Effect σ α) := by
  intro s f hf
  rw [ending_blaming] at hf
  cases a with
  | ok a => cases hf
  | error cause =>
      cases hf
      exact h cause rfl

theorem bind {g : α → Effect σ β} (hx : Blames P x) (hg : ∀ a, Blames P (g a)) :
    Blames P (x >>= g) := by
  intro s f hf
  cases hr : ending x s with
  | mk r s' =>
      cases r with
      | ok a =>
          rw [ending_bind_ok hr] at hf
          exact hg a s' f hf
      | error f' =>
          rw [ending_bind_error hr] at hf
          cases hf
          exact hx s f (by rw [hr])

theorem onEnvironment {x : Effect Environment α} (hx : Blames P x) :
    Blames P (onEnvironment x) := by
  intro m f hf
  rw [ending_onEnvironment (r := (ending x m.environment).1) rfl] at hf
  exact hx m.environment f hf

theorem inScope {x : Effect Machine α} (hx : Blames P x) : Blames P (inScope x) := by
  intro m f hf
  rw [ending_inScope (r := (ending x m.enter).1) rfl] at hf
  exact hx m.enter f hf

theorem writeLine {token : Token} (h : ∀ kind, P ⟨.output kind, token⟩) (text : String) :
    Blames P (writeLine token text) := by
  intro m f hf
  rw [ending, Effect.writeLine] at hf
  split at hf <;> rename_i hend <;> split at hend <;> cases hend <;> cases hf
  exact h _

theorem mono {Q : Fault → Prop} (hx : Blames P x) (h : ∀ f, P f → Q f) : Blames Q x :=
  fun s f hf => h f (hx s f hf)

end Blames

end Effect

open Effect (Blames)

/-! ### Operators and expressions -/

/-- `!` takes any operand, so a fault is one of `-`. -/
theorem unary_error {operator : Token} {v : Value} {cause : Fault.Cause}
    (hk : operator.kind.isUnary) (h : Operator.unary operator v = .error cause) :
    operator.kind = .minus ∧ cause = .operandMustBeNumber := by
  -- The rules have one fault, and it is one of `-`.
  have hrule := BigStep.unary_operator hk v
  rw [h] at hrule
  generalize operator.kind = kind at hrule
  cases hrule
  exact ⟨rfl, rfl⟩

/-- `==` and `!=` take any operands, so a fault is one of `+` or of an operator for numbers. -/
theorem binary_error {operator : Token} {v w : Value} {cause : Fault.Cause}
    (hk : operator.kind.isBinary) (h : Operator.binary operator v w = .error cause) :
    (operator.kind = .plus ∧ cause = .operandsMustBeNumbersOrStrings) ∨
      (BigStep.takesNumbers operator.kind ∧ cause = .operandsMustBeNumbers) := by
  have hrule := BigStep.binary_operator hk v w
  rw [h] at hrule
  generalize operator.kind = kind at hrule
  cases hrule with
  | mixed => exact .inl ⟨rfl, rfl⟩
  | notNumbers ht => exact .inr ⟨ht, rfl⟩

theorem mem_of_takesNumbers {kind : Token.Kind} (h : BigStep.takesNumbers kind) :
    kind ∈ [.minus, .star, .slash, .greater, .greaterEqual, .less, .lessEqual] := by
  cases kind <;> cases h <;> decide

/-- A name without a value is blamed for that. -/
theorem lookUp_blames (name : Token) :
    Blames (fun f => f = ⟨.undefinedVariable name.lexeme, name⟩) (Effect.lookUp name) := by
  intro e f hf
  rw [ending, Effect.lookUp] at hf
  cases hv : e.value? name.lexeme with
  | some v => simp [hv] at hf
  | none =>
      simp only [hv, Except.error.injEq] at hf
      exact hf.symm

/-- A name that cannot be assigned to is blamed for that. -/
theorem assign_blames (name : Token) (v : Value) :
    Blames (fun f => f = ⟨.undefinedVariable name.lexeme, name⟩) (Effect.assign name v) := by
  intro e f hf
  rw [ending, Effect.assign] at hf
  cases ha : e.assign? name.lexeme v with
  | some e' => simp [ha] at hf
  | none =>
      simp only [ha, Except.error.injEq] at hf
      exact hf.symm

/-- Evaluating an expression blames what its tokens may be blamed for. -/
theorem evaluate_blames {e : Expr} (h : e.uses.Admitted) : Blames (Fault.Fits e.uses) e.evaluate := by
  induction e with
  | literal v => exact .pure v
  | «variable» name =>
      refine (lookUp_blames name).mono ?_
      rintro f rfl
      exact ⟨(admitted_cons.1 h).1, rfl, .inl List.mem_cons_self⟩
  | grouping e ih => exact ih h
  | unary operator e ih =>
      obtain ⟨hk, h⟩ := admitted_cons.1 h
      refine .bind ((ih h).mono fun f hf => hf.mono (List.subset_cons_self _ _)) fun v =>
        .blaming fun cause hcause => ?_
      obtain ⟨hminus, rfl⟩ := unary_error hk hcause
      exact ⟨hminus, List.mem_cons_self⟩
  | binary l operator r ihl ihr =>
      obtain ⟨hl, h⟩ := admitted_append.1 h
      obtain ⟨hk, hr⟩ := admitted_cons.1 h
      -- The operands are evaluated first, so a fault may be one of theirs.
      have hoperator : (operator, .binary) ∈ l.uses ++ (operator, .binary) :: r.uses :=
        List.mem_append_right _ List.mem_cons_self
      refine .bind ((ihl hl).mono fun f hf => hf.mono (List.subset_append_left _ _)) fun v => ?_
      refine .bind ((ihr hr).mono fun f hf => hf.mono ?_) fun w => .blaming fun cause hcause => ?_
      · exact List.Subset.trans (List.subset_cons_self _ _) (List.subset_append_right _ _)
      · rcases binary_error hk hcause with ⟨hplus, rfl⟩ | ⟨hnumbers, rfl⟩
        · exact ⟨hplus, hoperator⟩
        · exact ⟨mem_of_takesNumbers hnumbers, hoperator⟩
  | logical l operator r ihl ihr =>
      obtain ⟨hl, h⟩ := admitted_append.1 h
      refine .bind ((ihl hl).mono fun f hf => hf.mono (List.subset_append_left _ _)) fun v => ?_
      split
      · exact .pure v
      · refine (ihr (admitted_cons.1 h).2).mono fun f hf => hf.mono ?_
        exact List.Subset.trans (List.subset_cons_self _ _) (List.subset_append_right _ _)
  | assign name e ih =>
      obtain ⟨hk, h⟩ := admitted_cons.1 h
      refine .bind ((ih h).mono fun f hf => hf.mono (List.subset_cons_self _ _)) fun v =>
        .bind ((assign_blames name v).mono ?_) fun _ => .pure v
      rintro f rfl
      exact ⟨hk, rfl, .inr List.mem_cons_self⟩

/-! ### Statements -/

/-- Binding a name always succeeds. -/
theorem define_blames (P : Fault → Prop) (name : Token) (v : Value) :
    Blames P (Effect.define name v) := by
  intro e f hf
  cases hf

mutual

/-- Executing a statement blames what its tokens may be blamed for. -/
theorem execute_blames : ∀ s : Stmt, s.uses.Admitted → Blames (Fault.Fits s.uses) s.execute
  | .expression e, h => by
      rw [Stmt.execute]
      exact .bind (.onEnvironment (evaluate_blames h)) fun _ => .pure ()
  | .print keyword e, h => by
      rw [Stmt.execute]
      obtain ⟨hk, h⟩ := admitted_cons.1 h
      refine .bind (.onEnvironment ?_) fun v => .writeLine (fun kind => ?_) _
      · exact (evaluate_blames h).mono fun f hf => hf.mono (List.subset_cons_self _ _)
      · exact ⟨hk, List.mem_cons_self⟩
  | .declare name none, _ => by
      rw [Stmt.execute]
      exact .onEnvironment (.bind (.pure Value.nil) fun v => define_blames _ name v)
  | .declare name (some e), h => by
      rw [Stmt.execute]
      refine .onEnvironment (.bind ?_ fun v => define_blames _ name v)
      exact (evaluate_blames (admitted_cons.1 h).2).mono fun f hf =>
        hf.mono (List.subset_cons_self _ _)
  | .block body, h => by
      rw [Stmt.execute]
      exact .inScope (executeAll_blames body h)
  | .conditional c s none, h => by
      rw [Stmt.execute.eq_def]
      obtain ⟨hc, hs⟩ := admitted_append.1 h
      refine .bind (.onEnvironment ((evaluate_blames hc).mono fun f hf =>
        hf.mono (List.subset_append_left _ _))) fun v => ?_
      split
      · exact (execute_blames s hs).mono fun f hf => hf.mono (List.subset_append_right _ _)
      · exact .pure ()
  | .conditional c s (some t), h => by
      rw [Stmt.execute.eq_def]
      obtain ⟨h, ht⟩ := admitted_append.1 h
      obtain ⟨hc, hs⟩ := admitted_append.1 h
      refine .bind (.onEnvironment ((evaluate_blames hc).mono fun f hf => hf.mono ?_)) fun v => ?_
      · exact List.Subset.trans (List.subset_append_left _ _) (List.subset_append_left _ _)
      · split
        · refine (execute_blames s hs).mono fun f hf => hf.mono ?_
          exact List.Subset.trans (List.subset_append_right _ _) (List.subset_append_left _ _)
        · exact (execute_blames t ht).mono fun f hf => hf.mono (List.subset_append_right _ _)

/-- Executing statements blames what their tokens may be blamed for. -/
theorem executeAll_blames : ∀ ss : List Stmt, (Stmt.usesAll ss).Admitted →
    Blames (Fault.Fits (Stmt.usesAll ss)) (Stmt.executeAll ss)
  | [], _ => .pure ()
  | s :: ss, h => by
      rw [Stmt.executeAll]
      obtain ⟨hs, hss⟩ := admitted_append.1 h
      refine .bind ((execute_blames s hs).mono fun f hf => hf.mono ?_) fun _ =>
        (executeAll_blames ss hss).mono fun f hf => hf.mono ?_
      · exact List.subset_append_left _ _
      · exact List.subset_append_right _ _

end

/-! ### Texts -/

/-- **Blame.**  If a text run in a session, whatever was run in it before, ends with `runtimeError`,
then one fault is reported.  The blamed token is one of those scanned from the text, and it fits the
fault, for it was read as what the fault is about: a `-` in front of its operand, an operator for
numbers between its operands, a `+`, a name that is the one that is not bound, or the `print` of a
statement.  No operator is unknown. -/
theorem fault_fits (s : Session) (source : String) (h : (s.run source).1 = .runtimeError) :
    ∃ f m, (s.run source).2 = ⟨m, s.reporter.told [] [f]⟩ ∧
      f.token ∈ (Scan.ofString source).tokens ∧
      f.Fits (Stmt.usesAll (Parse.ofTokens (Scan.ofString source).tokens).statements) := by
  have hclean : (Reading.ofString source).problems = [] := by
    by_contra hproblems
    rw [Session.run_rejected hproblems] at h
    cases h
  obtain ⟨f, m, hend⟩ := (Session.outcome_of_accepted hclean).2.1 h
  have herrors := (problems_eq_nil_iff.1 hclean).2
  obtain ⟨hw, hsh⟩ := Grammar.writes_statements herrors
  have hf : f.Fits (Stmt.usesAll (Reading.ofString source).statements) := by
    refine executeAll_blames _ ?_ { s.machine with moves := [] } f (by rw [hend])
    rw [statements_ofString]
    exact Stmt.admitted_of_allShaped _ hsh
  rw [statements_ofString] at hf
  refine ⟨f, m, by rw [Session.run_faulted hclean hend], ?_, hf⟩
  -- The blamed token is used, so it is stored in the tree, and the tree was written by the tokens.
  obtain ⟨use, huse⟩ := hf.exists_use
  exact List.takeWhile_subset _ (hw.mem_of_stored (Stmt.stored_of_mem_usesAll _ huse))

/-- A session that has bound `a` to nil. -/
def nilBound : Session := ((Session.initial .unlimited false).run "var a;").2

/-- Of two `-` that do not take `a`, the one in front of its operand is blamed, as it is applied
first. -/
theorem fault_fits_negated :
    (nilBound.run "print a -\n-a;").1 = .runtimeError ∧
      ∃ f m, (nilBound.run "print a -\n-a;").2 = ⟨m, nilBound.reporter.told [] [f]⟩ ∧
        f = ⟨.operandMustBeNumber, ⟨.minus, "-", none, 2, ⟨10, 11⟩⟩⟩ ∧
        f.token ∈ (Scan.ofString "print a -\n-a;").tokens ∧
        (f.token, .unary) ∈
          Stmt.usesAll (Parse.ofTokens (Scan.ofString "print a -\n-a;").tokens).statements := by
  have hrun : (nilBound.run "print a -\n-a;").1 = .runtimeError := by rfl
  obtain ⟨f, m, hreport, hmem, hfits⟩ := fault_fits nilBound "print a -\n-a;" hrun
  have hfault : [f] = [⟨.operandMustBeNumber, ⟨.minus, "-", none, 2, ⟨10, 11⟩⟩⟩] :=
    (congrArg (·.reporter.faults) hreport).symm.trans (by rfl)
  obtain rfl := List.singleton_inj.1 hfault
  exact ⟨hrun, _, m, hreport, rfl, hmem, hfits.2⟩

end Lox
