import Lox.Proofs.Execution.Ending
import Lox.Proofs.Tree.Relocation

/-!
# Proofs — Execution — Running trees whose tokens stand elsewhere

Running a tree looks at the kinds and at the lexemes of its tokens.  So relocated statements do what
the statements do, to the same scopes and to the same sink, and if these end with a fault, they end
with the relocated one (`executeAll_follows`).  Nor do the moves between scopes matter that a
machine remembers, so the two machines need to agree on the rest only (`Machine.Agrees`).
-/

namespace Lox

/-- The machines have the same scopes and the same sink. -/
structure Machine.Agrees (m m' : Machine) : Prop where
  environment : m.environment = m'.environment
  sink : m.sink = m'.sink

theorem Machine.Agrees.refl (m : Machine) : m.Agrees m := ⟨rfl, rfl⟩

theorem Machine.Agrees.trans {m m' m'' : Machine} (h : m.Agrees m') (h' : m'.Agrees m'') :
    m.Agrees m'' :=
  ⟨h.environment.trans h'.environment, h.sink.trans h'.sink⟩

namespace Effect

variable {σ α β : Type} {f : Token → Token} {rel : σ → σ → Prop} {x x' : Effect σ α}

/-- From related states, the effects end alike, but for the relocation of a fault, and leave related
states. -/
def Follows (f : Token → Token) (rel : σ → σ → Prop) (x x' : Effect σ α) : Prop :=
  ∀ s s', rel s s' →
    (ending x' s').1 = (ending x s).1.mapError (·.relocate f) ∧
      rel (ending x s).2 (ending x' s').2

namespace Follows

theorem pure (a : α) : Follows f rel (Pure.pure a) (Pure.pure a) := fun _ _ h => ⟨rfl, h⟩

theorem blaming (token : Token) (a : Except Fault.Cause α) :
    Follows f rel (blaming token a) (Effect.blaming (f token) a) := by
  intro s s' h
  rw [ending_blaming, ending_blaming]
  cases a <;> exact ⟨rfl, h⟩

theorem bind {g g' : α → Effect σ β} (hx : Follows f rel x x')
    (hg : ∀ a, Follows f rel (g a) (g' a)) : Follows f rel (x >>= g) (x' >>= g') := by
  intro s s' h
  obtain ⟨hresult, hstates⟩ := hx s s' h
  cases hr : ending x s with
  | mk r s₁ =>
      cases hr' : ending x' s' with
      | mk r' s₁' =>
          rw [hr, hr'] at hresult hstates
          cases r with
          | error e =>
              cases hresult
              rw [ending_bind_error hr, ending_bind_error hr']
              exact ⟨rfl, hstates⟩
          | ok a =>
              cases hresult
              rw [ending_bind_ok hr, ending_bind_ok hr']
              exact hg a s₁ s₁' hstates

theorem onEnvironment {x x' : Effect Environment α} (h : Follows f Eq x x') :
    Follows f Machine.Agrees (onEnvironment x) (Effect.onEnvironment x') := by
  intro m m' hm
  obtain ⟨hresult, hstates⟩ := h _ _ hm.environment
  rw [ending_onEnvironment (r := (ending x m.environment).1) rfl,
    ending_onEnvironment (r := (ending x' m'.environment).1) rfl]
  exact ⟨hresult, hstates, hm.sink⟩

theorem inScope {x x' : Effect Machine α} (h : Follows f Machine.Agrees x x') :
    Follows f Machine.Agrees (inScope x) (Effect.inScope x') := by
  intro m m' hm
  have henter : m.enter.Agrees m'.enter := ⟨congrArg Environment.enter hm.environment, hm.sink⟩
  obtain ⟨hresult, hstates⟩ := h _ _ henter
  rw [ending_inScope (r := (ending x m.enter).1) rfl,
    ending_inScope (r := (ending x' m'.enter).1) rfl]
  have hleave : (ending x m.enter).2.environment.leaveTo m.environment.current =
      (ending x' m'.enter).2.environment.leaveTo m'.environment.current := by
    rw [hstates.environment, hm.environment]
  exact ⟨hresult, hleave, hstates.sink⟩

theorem writeLine (token : Token) (text : String) :
    Follows f Machine.Agrees (writeLine token text) (Effect.writeLine (f token) text) := by
  intro m m' hm
  simp only [ending, Effect.writeLine, hm.sink]
  cases m'.sink.fits (text ++ "\n").toUTF8 <;> exact ⟨rfl, hm.environment, rfl⟩

end Follows

end Effect

open Effect (Follows)

variable {f : Token → Token}

section Names

variable (hf : Token.Relocation f)

include hf

/-! ### Operators and names -/

theorem unary_relocate (operator : Token) (v : Value) :
    Operator.unary (f operator) v = Operator.unary operator v := by
  rw [Operator.unary.eq_def, Operator.unary.eq_def, hf.kind, hf.lexeme]

theorem binary_relocate (operator : Token) (v w : Value) :
    Operator.binary (f operator) v w = Operator.binary operator v w := by
  have harithmetic : Operator.arithmetic (f operator) = Operator.arithmetic operator := by
    funext x y
    rw [Operator.arithmetic, Operator.arithmetic, hf.kind, hf.lexeme]
  rw [Operator.binary.eq_def, Operator.binary.eq_def, hf.kind, harithmetic]

theorem decides_relocate (operator : Token) (v : Value) :
    Operator.decides (f operator) v = Operator.decides operator v := by
  rw [Operator.decides, Operator.decides, hf.kind]

theorem lookUp_follows (name : Token) : Follows f Eq (Effect.lookUp name) (Effect.lookUp (f name)) := by
  rintro e _ rfl
  cases h : e.value? name.lexeme with
  | none =>
      rw [Effect.ending_lookUp_none h, Effect.ending_lookUp_none (by rw [hf.lexeme, h]), hf.lexeme]
      exact ⟨rfl, rfl⟩
  | some v =>
      rw [Effect.ending_lookUp h, Effect.ending_lookUp (by rw [hf.lexeme, h])]
      exact ⟨rfl, rfl⟩

theorem assign_follows (name : Token) (v : Value) :
    Follows f Eq (Effect.assign name v) (Effect.assign (f name) v) := by
  rintro e _ rfl
  cases h : e.assign? name.lexeme v with
  | none =>
      rw [Effect.ending_assign_none h, Effect.ending_assign_none (by rw [hf.lexeme, h]), hf.lexeme]
      exact ⟨rfl, rfl⟩
  | some e' =>
      rw [Effect.ending_assign h, Effect.ending_assign (by rw [hf.lexeme, h])]
      exact ⟨rfl, rfl⟩

theorem define_follows (name : Token) (v : Value) :
    Follows f Eq (Effect.define name v) (Effect.define (f name) v) := by
  have hdefine : Effect.define (f name) v = Effect.define name v := by
    funext e
    rw [Effect.define, Effect.define, hf.lexeme]
  rintro e _ rfl
  rw [hdefine]
  exact ⟨rfl, rfl⟩

end Names

/-! ### Expressions and statements -/

theorem evaluate_follows (hf : Token.Relocation f) (e : Expr) :
    Follows f Eq e.evaluate (e.relocate f).evaluate := by
  induction e with
  | literal v => exact .pure v
  | «variable» name => exact lookUp_follows hf name
  | grouping e ih => exact ih
  | unary operator e ih =>
      refine .bind ih fun v => ?_
      rw [unary_relocate hf]
      exact .blaming operator _
  | binary l operator r ihl ihr =>
      refine .bind ihl fun v => .bind ihr fun w => ?_
      rw [binary_relocate hf]
      exact .blaming operator _
  | logical l operator r ihl ihr =>
      refine .bind ihl fun v => ?_
      rw [decides_relocate hf]
      split
      · exact .pure v
      · exact ihr
  | assign name e ih => exact .bind ih fun v => .bind (assign_follows hf name v) fun _ => .pure v

theorem initialValue_follows (hf : Token.Relocation f) (initializer? : Option Expr) :
    Follows f Eq (initialValue initializer?) (initialValue (initializer?.map (·.relocate f))) := by
  cases initializer? with
  | none => exact .pure Value.nil
  | some e => exact evaluate_follows hf e

mutual

/-- A relocated statement does what the statement does. -/
theorem execute_follows (hf : Token.Relocation f) :
    ∀ s : Stmt, Follows f Machine.Agrees s.execute (s.relocate f).execute
  | .expression e => by
      rw [Stmt.relocate, Stmt.execute, Stmt.execute]
      exact .bind (.onEnvironment (evaluate_follows hf e)) fun _ => .pure ()
  | .print keyword e => by
      rw [Stmt.relocate, Stmt.execute, Stmt.execute]
      exact .bind (.onEnvironment (evaluate_follows hf e)) fun v => .writeLine keyword _
  | .declare name initializer? => by
      rw [Stmt.relocate, Stmt.execute, Stmt.execute]
      exact .onEnvironment (.bind (initialValue_follows hf initializer?) fun v =>
        define_follows hf name v)
  | .block body => by
      rw [Stmt.relocate, Stmt.execute, Stmt.execute]
      exact .inScope (executeAll_follows hf body)
  | .conditional c s none => by
      rw [Stmt.relocate, Stmt.execute.eq_def, Stmt.execute.eq_def]
      refine .bind (.onEnvironment (evaluate_follows hf c)) fun v => ?_
      split
      · exact execute_follows hf s
      · exact .pure ()
  | .conditional c s (some t) => by
      rw [Stmt.relocate, Stmt.execute.eq_def, Stmt.execute.eq_def]
      refine .bind (.onEnvironment (evaluate_follows hf c)) fun v => ?_
      split
      · exact execute_follows hf s
      · exact execute_follows hf t

/-- Relocated statements do what the statements do. -/
theorem executeAll_follows (hf : Token.Relocation f) : ∀ ss : List Stmt,
    Follows f Machine.Agrees (Stmt.executeAll ss) (Stmt.executeAll (Stmt.relocateAll f ss))
  | [] => .pure ()
  | s :: ss => by
      rw [Stmt.relocateAll, Stmt.executeAll, Stmt.executeAll]
      exact .bind (execute_follows hf s) fun _ => executeAll_follows hf ss

end

end Lox
