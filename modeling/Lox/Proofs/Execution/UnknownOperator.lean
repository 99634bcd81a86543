import Lox.Proofs.Execution.BigStep
import Lox.Proofs.Execution.Ending
import Lox.Proofs.Grammar.Soundness

/-!
# Proofs — Execution — Operators that are not known

A hand-made tree may have an operator of any kind.

**Unknown operators** (`unknown_operator`).  Wherever a run of statements comes to an operation, in
whatever state, and the operands are evaluated without a fault: an operator that is neither `!` nor
`-` in front of its operand is the fault that the run ends with, whatever the operand is; one that is
none of the ten between its operands is, if both are numbers.  The other cases end otherwise.  What
is between operands of which one is no number is blamed for that first; and an operation that may
leave its right operand alone is no fault at all, for what is not `or` is taken for `and`
(`unknown_operator_unnoticed`).

`Stmt.ComeTo ss m n e` says that the run of the statements `ss` on the machine `m` comes to evaluate
the expression `n` in the scopes `e`.  A fault there is the fault of the run
(`Stmt.ComeTo.fault`), so that the rest is about a single operation.
-/

namespace Lox

open Effect (ending ending_bind_ok ending_bind_error ending_onEnvironment ending_inScope
  ending_blaming)
open Grammar (bare)

variable {n e e₁ e₂ : Expr} {s s' : Environment} {m m' : Machine} {ss : List Stmt} {v : Value}
  {operator : Token} {vs : List Value}

/-! ### Where a run comes to -/

/-- Evaluating an expression in some scopes comes to another one, `n`, in the scopes `s'`. -/
inductive Expr.ComesTo (n : Expr) (s' : Environment) : Expr → Environment → Prop where
  | here : ComesTo n s' n s'
  | grouping {e : Expr} {s : Environment} (h : ComesTo n s' e s) : ComesTo n s' (.grouping e) s
  | unary {operator : Token} {e : Expr} {s : Environment} (h : ComesTo n s' e s) :
      ComesTo n s' (.unary operator e) s
  | binaryLeft {l r : Expr} {operator : Token} {s : Environment} (h : ComesTo n s' l s) :
      ComesTo n s' (.binary l operator r) s
  | binaryRight {l r : Expr} {operator : Token} {s s₁ : Environment} {v : Value}
      (hl : ending l.evaluate s = (.ok v, s₁)) (h : ComesTo n s' r s₁) :
      ComesTo n s' (.binary l operator r) s
  | logicalLeft {l r : Expr} {operator : Token} {s : Environment} (h : ComesTo n s' l s) :
      ComesTo n s' (.logical l operator r) s
  | logicalRight {l r : Expr} {operator : Token} {s s₁ : Environment} {v : Value}
      (hl : ending l.evaluate s = (.ok v, s₁)) (hd : Operator.decides operator v = false)
      (h : ComesTo n s' r s₁) : ComesTo n s' (.logical l operator r) s
  | assign {name : Token} {e : Expr} {s : Environment} (h : ComesTo n s' e s) :
      ComesTo n s' (.assign name e) s

/-- Running statements on a machine comes to evaluate the expression `n` in the scopes `s'`. -/
inductive Stmt.ComeTo (n : Expr) (s' : Environment) : List Stmt → Machine → Prop where
  | expression {e : Expr} {ss : List Stmt} {m : Machine} (h : n.ComesTo s' e m.environment) :
      ComeTo n s' (.expression e :: ss) m
  | print {keyword : Token} {e : Expr} {ss : List Stmt} {m : Machine}
      (h : n.ComesTo s' e m.environment) : ComeTo n s' (.print keyword e :: ss) m
  | declare {name : Token} {e : Expr} {ss : List Stmt} {m : Machine}
      (h : n.ComesTo s' e m.environment) : ComeTo n s' (.declare name (some e) :: ss) m
  | block {body ss : List Stmt} {m : Machine} (h : ComeTo n s' body m.enter) :
      ComeTo n s' (.block body :: ss) m
  | condition {c : Expr} {t : Stmt} {t? : Option Stmt} {ss : List Stmt} {m : Machine}
      (h : n.ComesTo s' c m.environment) : ComeTo n s' (.conditional c t t? :: ss) m
  | consequent {c : Expr} {t : Stmt} {t? : Option Stmt} {ss : List Stmt} {m m' : Machine} {v : Value}
      (hc : ending (Effect.onEnvironment c.evaluate) m = (.ok v, m')) (hv : v.truthy = true)
      (h : ComeTo n s' [t] m') : ComeTo n s' (.conditional c t t? :: ss) m
  | alternative {c : Expr} {t u : Stmt} {ss : List Stmt} {m m' : Machine} {v : Value}
      (hc : ending (Effect.onEnvironment c.evaluate) m = (.ok v, m')) (hv : v.truthy = false)
      (h : ComeTo n s' [u] m') : ComeTo n s' (.conditional c t (some u) :: ss) m
  | behind {t : Stmt} {ss : List Stmt} {m m' : Machine} (ht : ending t.execute m = (.ok (), m'))
      (h : ComeTo n s' ss m') : ComeTo n s' (t :: ss) m

/-! ### A fault there -/

/-- A fault of an expression that evaluation comes to is a fault of the whole. -/
theorem Expr.ComesTo.fault {f : Fault} {t : Environment} (h : n.ComesTo s' e s)
    (hf : ending n.evaluate s' = (.error f, t)) : ending e.evaluate s = (.error f, t) := by
  induction h with
  | here => exact hf
  | grouping _ ih => exact ih
  | unary _ ih | binaryLeft _ ih | logicalLeft _ ih | assign _ ih => exact ending_bind_error ih
  | binaryRight hl _ ih =>
      rw [Expr.evaluate, ending_bind_ok hl]
      exact ending_bind_error ih
  | logicalRight hl hd _ ih =>
      rw [Expr.evaluate, ending_bind_ok hl, hd]
      exact ih

/-- So it is when the expression is evaluated for a statement. -/
theorem Expr.ComesTo.fault_bind {α : Type} {f : Fault} {t : Environment}
    (h : n.ComesTo s' e m.environment) (hf : ending n.evaluate s' = (.error f, t))
    (g : Value → Effect Machine α) :
    (ending (Effect.onEnvironment e.evaluate >>= g) m).1 = .error f := by
  rw [ending_bind_error (ending_onEnvironment (h.fault hf))]

/-- A statement that ends with a fault ends the list that it stands in front of. -/
theorem Stmt.fault_executeAll {f : Fault} {t : Stmt} (h : (ending t.execute m).1 = .error f)
    (ss : List Stmt) : (ending (Stmt.executeAll (t :: ss)) m).1 = .error f := by
  have hend : ending t.execute m = (.error f, (ending t.execute m).2) := by rw [← h]
  rw [Stmt.executeAll, ending_bind_error hend]

/-- A list of one statement ends with the fault of that statement. -/
theorem Stmt.fault_of_executeAll_singleton {f : Fault} {t : Stmt}
    (h : (ending (Stmt.executeAll [t]) m).1 = .error f) : (ending t.execute m).1 = .error f := by
  cases hend : ending t.execute m with
  | mk r m' =>
      cases r with
      | error f' => rwa [Stmt.executeAll, ending_bind_error hend] at h
      | ok u =>
          rw [Stmt.executeAll, ending_bind_ok hend] at h
          cases h

/-- A fault of an expression that a run comes to is the fault that the run ends with. -/
theorem Stmt.ComeTo.fault {f : Fault} {t : Environment} (h : Stmt.ComeTo n s' ss m)
    (hf : ending n.evaluate s' = (.error f, t)) : (ending (Stmt.executeAll ss) m).1 = .error f := by
  induction h with
  | expression h | print h | condition h =>
      refine Stmt.fault_executeAll ?_ _
      rw [Stmt.execute.eq_def]
      exact h.fault_bind hf _
  | @declare name e ss m h =>
      refine Stmt.fault_executeAll ?_ _
      have hend : ending (initialValue (some e) >>= Effect.define name) m.environment =
          (.error f, t) := ending_bind_error (h.fault hf)
      rw [Stmt.execute, ending_onEnvironment hend]
  | block _ ih =>
      refine Stmt.fault_executeAll ?_ _
      rw [Stmt.execute, ending_inScope (r := .error f) (Prod.ext ih rfl)]
  | consequent hc hv _ ih =>
      refine Stmt.fault_executeAll ?_ _
      rw [Stmt.execute.eq_def]
      simp only [ending_bind_ok hc, hv, if_true]
      exact Stmt.fault_of_executeAll_singleton ih
  | alternative hc hv _ ih =>
      refine Stmt.fault_executeAll ?_ _
      rw [Stmt.execute.eq_def]
      simp only [ending_bind_ok hc, hv, Bool.false_eq_true, if_false]
      exact Stmt.fault_of_executeAll_singleton ih
  | behind ht _ ih =>
      rw [Stmt.executeAll, ending_bind_ok ht]
      exact ih

/-! ### Operations -/

/-- The expression is an operation whose operator is not one that the language has for it. -/
def Expr.HasUnknown (operator : Token) : Expr → Prop
  | .unary op _ => op = operator ∧ operator.kind.isUnary = false
  | .binary _ op _ => op = operator ∧ operator.kind.isBinary = false
  | .logical _ op _ => op = operator ∧ operator.kind.isLogical = false
  | _ => False

/-- The operands that an operation evaluates, from left to right, have the values `vs`. -/
inductive Expr.Operands : Expr → Environment → List Value → Environment → Prop where
  | unary {operator : Token} {e : Expr} {s s' : Environment} {v : Value}
      (h : ending e.evaluate s = (.ok v, s')) : Operands (.unary operator e) s [v] s'
  | binary {l r : Expr} {operator : Token} {s s₁ s' : Environment} {v w : Value}
      (hl : ending l.evaluate s = (.ok v, s₁)) (hr : ending r.evaluate s₁ = (.ok w, s')) :
      Operands (.binary l operator r) s [v, w] s'
  | decided {l r : Expr} {operator : Token} {s s' : Environment} {v : Value}
      (hl : ending l.evaluate s = (.ok v, s')) (hd : Operator.decides operator v = true) :
      Operands (.logical l operator r) s [v] s'
  | deferred {l r : Expr} {operator : Token} {s s₁ s' : Environment} {v w : Value}
      (hl : ending l.evaluate s = (.ok v, s₁)) (hd : Operator.decides operator v = false)
      (hr : ending r.evaluate s₁ = (.ok w, s')) : Operands (.logical l operator r) s [v, w] s'

/-- Whether the operator is looked at, which it is between two operands only if both are numbers. -/
def Expr.ChecksOperator : Expr → List Value → Prop
  | .unary .., _ => True
  | .binary .., vs => ∀ v ∈ vs, v.IsNumber
  | _, _ => False

/-- The fault of an operator that is not known. -/
def Fault.unknown (operator : Token) : Fault := ⟨.unknownOperator operator.lexeme, operator⟩

theorem Operator.unary_of_unknown (h : operator.kind.isUnary = false) (v : Value) :
    Operator.unary operator v = .error (.unknownOperator operator.lexeme) := by
  cases hk : operator.kind <;> rw [hk] at h <;> cases h <;> simp only [Operator.unary, hk]

/-- That the operands are numbers is asked first. -/
theorem Operator.binary_of_unknown (h : operator.kind.isBinary = false) (v w : Value) :
    Operator.binary operator v w =
      match v, w with
      | .number _, .number _ => .error (.unknownOperator operator.lexeme)
      | _, _ => .error .operandsMustBeNumbers := by
  cases hk : operator.kind <;> rw [hk] at h <;> cases h <;>
    cases v <;> cases w <;> simp only [Operator.binary, Operator.arithmetic, hk]

/-- What an operation comes to whose operands have values, but whose operator is not known. -/
theorem Expr.Operands.ending_evaluate (h : n.Operands s vs s') (hn : n.HasUnknown operator) :
    (n.ChecksOperator vs → ending n.evaluate s = (.error (.unknown operator), s')) ∧
      (¬ n.ChecksOperator vs →
        (∃ l r, n = .binary l operator r ∧
          ending n.evaluate s = (.error ⟨.operandsMustBeNumbers, operator⟩, s')) ∨
        ∃ l r, n = .logical l operator r ∧
          ∃ v ∈ vs.getLast?, ending n.evaluate s = (.ok v, s')) := by
  cases h with
  | unary hv =>
      obtain ⟨rfl, hk⟩ := hn
      rw [Expr.evaluate, ending_bind_ok hv, ending_blaming, Operator.unary_of_unknown hk]
      exact ⟨fun _ => rfl, fun hno => absurd trivial hno⟩
  | @binary l r op s s₁ s' v w hl hr =>
      obtain ⟨rfl, hk⟩ := hn
      have hchecks : (Expr.binary l op r).ChecksOperator [v, w] ↔ v.IsNumber ∧ w.IsNumber := by
        simp [Expr.ChecksOperator]
      rw [Expr.evaluate, ending_bind_ok hl, ending_bind_ok hr, ending_blaming, hchecks,
        Operator.binary_of_unknown hk]
      refine ⟨?_, fun hno => .inl ⟨l, r, rfl, ?_⟩⟩
      · rintro ⟨⟨x, rfl⟩, ⟨y, rfl⟩⟩
        rfl
      · split
        · exact absurd ⟨⟨_, rfl⟩, ⟨_, rfl⟩⟩ hno
        · rfl
  | @decided l r op s s' v hl hd =>
      obtain ⟨rfl, -⟩ := hn
      refine ⟨False.elim, fun _ => .inr ⟨l, r, rfl, v, rfl, ?_⟩⟩
      rw [Expr.evaluate, ending_bind_ok hl, if_pos hd]
      rfl
  | @deferred l r op s s₁ s' v w hl hd hr =>
      obtain ⟨rfl, -⟩ := hn
      refine ⟨False.elim, fun _ => .inr ⟨l, r, rfl, w, rfl, ?_⟩⟩
      rw [Expr.evaluate, ending_bind_ok hl, hd]
      exact hr

/-! ### Runs -/

/-- **Unknown operators.**  Let a run of statements on a machine come to an operation whose operator
is not one that the language has for it, and let the operands be evaluated without a fault.  If the
operation is one on a single operand, or one on two numbers, then it ends with the fault that the
operator is not known, blamed on the operator, and so does the run.  Otherwise it is an operation on
two operands of which one is no number, and ends with that fault; or it is one that may leave its
right operand alone, and has the value of the last operand that is evaluated. -/
theorem unknown_operator (ss : List Stmt) (m : Machine) (n : Expr) (s s' : Environment)
    (operator : Token) (vs : List Value) (h : Stmt.ComeTo n s ss m) (hn : n.HasUnknown operator)
    (hvs : n.Operands s vs s') :
    (n.ChecksOperator vs → ending n.evaluate s = (.error (.unknown operator), s') ∧
        (ending (Stmt.executeAll ss) m).1 = .error (.unknown operator)) ∧
      (¬ n.ChecksOperator vs →
        (∃ l r, n = .binary l operator r ∧
          ending n.evaluate s = (.error ⟨.operandsMustBeNumbers, operator⟩, s') ∧
          (ending (Stmt.executeAll ss) m).1 = .error ⟨.operandsMustBeNumbers, operator⟩) ∨
        ∃ l r, n = .logical l operator r ∧
          ∃ v ∈ vs.getLast?, ending n.evaluate s = (.ok v, s')) := by
  obtain ⟨hchecks, hnot⟩ := hvs.ending_evaluate hn
  refine ⟨fun hc => ⟨hchecks hc, h.fault (hchecks hc)⟩, fun hc => ?_⟩
  rcases hnot hc with ⟨l, r, hbinary, hend⟩ | hlogical
  · exact .inl ⟨l, r, hbinary, hend, h.fault hend⟩
  · exact .inr hlogical

/-- `"a" . "b"` -/
def dotted : Expr :=
  .binary (.literal (.string "a")) (bare .dot ".") (.literal (.string "b"))

/-- `true + nil`, as an operation that may leave its right operand alone. -/
def plusDecides : Expr := .logical (.literal (.bool true)) (bare .plus "+") (.literal .nil)

/-- In `{ print +(true + nil); }`, the `+` in front is not known, and the one that may leave its
right operand alone passes. -/
theorem unknown_operator_inFront :
    let operator := bare .plus "+"
    let m := Machine.initial .unlimited
    Stmt.ComeTo (.unary operator plusDecides) m.enter.environment
        [.block [.print (bare .kwPrint "print") (.unary operator plusDecides)]] m ∧
      (ending (Stmt.executeAll
        [.block [.print (bare .kwPrint "print") (.unary operator plusDecides)]]) m).1 =
          .error ⟨.unknownOperator "+", operator⟩ := by
  intro operator m
  have h : Stmt.ComeTo (.unary operator plusDecides) m.enter.environment
      [.block [.print (bare .kwPrint "print") (.unary operator plusDecides)]] m :=
    .block (.print .here)
  have hvs : (Expr.unary operator plusDecides).Operands m.enter.environment [.nil]
      m.enter.environment := .unary rfl
  exact ⟨h, ((unknown_operator _ m _ _ _ operator _ h ⟨rfl, rfl⟩ hvs).1 trivial).2⟩

/-- Wherever a run comes to the expression and its operands have values, an operator that is not
known is the fault. -/
def Expr.BlamesUnknown (n : Expr) : Prop :=
  ∀ (ss : List Stmt) (m : Machine) (s s' : Environment) (operator : Token) (vs : List Value),
    Stmt.ComeTo n s ss m → n.HasUnknown operator → n.Operands s vs s' →
      ending n.evaluate s = (.error (.unknown operator), s') ∧
        (ending (Stmt.executeAll ss) m).1 = .error (.unknown operator)

/-- Not all operations blame an operator that is not known: one that may leave its right operand
alone ends without a fault, and one between two strings ends with another one. -/
theorem unknown_operator_unnoticed : ¬ plusDecides.BlamesUnknown ∧ ¬ dotted.BlamesUnknown := by
  let m := Machine.initial .unlimited
  constructor
  · intro h
    have hrun := (h [.expression plusDecides] m m.environment m.environment (bare .plus "+")
      [.bool true, .nil] (.expression .here) ⟨rfl, rfl⟩ (.deferred rfl rfl rfl)).2
    cases hrun
  · intro h
    have hrun := (h [.expression dotted] m m.environment m.environment (bare .dot ".")
      [.string "a", .string "b"] (.expression .here) ⟨rfl, rfl⟩ (.binary rfl rfl)).2
    cases hrun

end Lox
