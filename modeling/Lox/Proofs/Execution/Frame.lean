import Lox.Proofs.Execution.Ending
import Lox.Proofs.Scope.Frame

/-!
# Proofs — Execution — What statements leave as it was

A list of statements leaves the scopes as it found them, whether it ends with a fault or not: as
many of them, linked as they were, the same one current (`executeAll_frames`).  Only the current
scope may have new names, and only those that the list declares outside of blocks
(`Stmt.declaredAll`); and a name stands for another value only if it is assigned to somewhere in the
list (`Stmt.assignedAll`), or is in the current scope and declared there anew.

Nothing is asked of the statements: they need not come from a text, and a branch may be a
declaration.  Nothing is asked of the sink either, on which the scopes do not depend but for the
fault that ends the list.

`Effect.Frames` carries `Environment.Framed` through the ways in which effects are put together.
-/

namespace Lox

/-! ### Names that are declared and names that are assigned to -/

/-- The names that are assigned to in an expression. -/
def Expr.assigned : Expr → List String
  | .literal _ | .variable _ => []
  | .grouping e | .unary _ e => e.assigned
  | .binary l _ r | .logical l _ r => l.assigned ++ r.assigned
  | .assign name e => name.lexeme :: e.assigned

namespace Stmt

/-- The names that a statement declares outside of blocks. -/
def declared : Stmt → List String
  | .declare name _ => [name.lexeme]
  | .conditional _ s none => s.declared
  | .conditional _ s (some t) => s.declared ++ t.declared
  | .expression _ | .print _ _ | .block _ => []

/-- The names that statements declare outside of blocks. -/
def declaredAll (ss : List Stmt) : List String := ss.flatMap declared

mutual

/-- The names that are assigned to somewhere in a statement. -/
def assigned : Stmt → List String
  | .expression e | .print _ e | .declare _ (some e) => e.assigned
  | .declare _ none => []
  | .block body => assignedAll body
  | .conditional c s none => c.assigned ++ s.assigned
  | .conditional c s (some t) => c.assigned ++ (s.assigned ++ t.assigned)

/-- The names that are assigned to somewhere in a list of statements. -/
def assignedAll : List Stmt → List String
  | [] => []
  | s :: ss => s.assigned ++ assignedAll ss

end

end Stmt

/-! ### Effects -/

namespace Effect

variable {σ α β : Type} {scopes : σ → Environment} {declared declared' assigned assigned' :
  List String} {x : Effect σ α}

/-- Started on nested scopes, the effect leaves them within these bounds, however it ends. -/
def Frames (scopes : σ → Environment) (declared assigned : List String) (x : Effect σ α) : Prop :=
  ∀ s, (scopes s).Nested →
    Environment.Framed declared assigned (scopes s) (scopes (ending x s).2)

namespace Frames

theorem mono (h : Frames scopes declared assigned x) (hd : declared ⊆ declared')
    (ha : assigned ⊆ assigned') : Frames scopes declared' assigned' x :=
  fun s hs => (h s hs).mono hd ha

theorem pure (a : α) : Frames scopes declared assigned (Pure.pure a) :=
  fun s _ => .refl _ _ (scopes s)

theorem blaming (token : Token) (a : Except Fault.Cause α) :
    Frames scopes declared assigned (blaming token a) := by
  intro s _
  rw [ending_blaming]
  exact .refl _ _ (scopes s)

theorem bind {g : α → Effect σ β} (hx : Frames scopes declared assigned x)
    (hg : ∀ a, Frames scopes declared assigned (g a)) :
    Frames scopes declared assigned (x >>= g) := by
  intro s hs
  cases hr : ending x s with
  | mk r s' =>
      have h := hx s hs
      rw [hr] at h
      cases r with
      | error f =>
          rw [ending_bind_error hr]
          exact h
      | ok a =>
          rw [ending_bind_ok hr]
          exact h.trans (hg a s' (h.nested hs))

theorem onEnvironment {x : Effect Environment α} (h : Frames id declared assigned x) :
    Frames Machine.environment declared assigned (onEnvironment x) := by
  intro m hm
  rw [ending_onEnvironment (r := (ending x m.environment).1) rfl]
  exact h m.environment hm

/-- A line is written beside the scopes. -/
theorem writeLine (token : Token) (text : String) :
    Frames Machine.environment declared assigned (writeLine token text) := by
  intro m _
  have : (ending (Effect.writeLine token text) m).2.environment = m.environment := by
    rw [ending, Effect.writeLine]
    split <;> rename_i h <;> split at h <;> cases h <;> rfl
  rw [this]
  exact .refl _ _ m.environment

/-- The scope of a block is gone at its end, with what was declared in it. -/
theorem inScope {x : Effect Machine α} (h : Frames Machine.environment declared assigned x) :
    Frames Machine.environment [] assigned (inScope x) := by
  intro m hm
  rw [ending_inScope (r := (ending x m.enter).1) rfl]
  exact .leave hm (h m.enter hm.enter)

end Frames

end Effect

open Effect (Frames ending)

/-! ### Expressions and statements -/

theorem frames_lookUp (name : Token) : Frames id [] [] (Effect.lookUp name) := by
  intro e _
  have : (ending (Effect.lookUp name) e).2 = e := by
    cases h : e.value? name.lexeme with
    | none => rw [Effect.ending_lookUp_none h]
    | some v => rw [Effect.ending_lookUp h]
  rw [this]
  exact .refl _ _ e

theorem frames_assign (name : Token) (v : Value) :
    Frames id [] [name.lexeme] (Effect.assign name v) := by
  intro e _
  cases h : e.assign? name.lexeme v with
  | none =>
      rw [Effect.ending_assign_none h]
      exact .refl _ _ e
  | some e' =>
      rw [Effect.ending_assign h]
      exact Environment.framed_assign? h

/-- An expression declares nothing. -/
theorem evaluate_frames (e : Expr) : Frames id [] e.assigned e.evaluate := by
  induction e with
  | literal v => exact .pure v
  | «variable» name => exact frames_lookUp name
  | grouping e ih => exact ih
  | unary operator e ih => exact .bind ih fun v => .blaming operator _
  | binary l operator r ihl ihr =>
      refine .bind (ihl.mono (List.Subset.refl _) (List.subset_append_left _ _)) fun v => ?_
      refine .bind (ihr.mono (List.Subset.refl _) (List.subset_append_right _ _)) fun w => ?_
      exact .blaming operator _
  | logical l operator r ihl ihr =>
      refine .bind (ihl.mono (List.Subset.refl _) (List.subset_append_left _ _)) fun v => ?_
      split
      · exact .pure v
      · exact ihr.mono (List.Subset.refl _) (List.subset_append_right _ _)
  | assign name e ih =>
      refine .bind (ih.mono (List.Subset.refl _) (List.subset_cons_self _ _)) fun v => ?_
      exact .bind ((frames_assign name v).mono (List.Subset.refl _) (by simp [Expr.assigned]))
        fun _ => .pure v

theorem frames_define (name : Token) (v : Value) :
    Frames id [name.lexeme] [] (Effect.define name v) :=
  fun e _ => Environment.framed_define e name.lexeme v

/-- Finding the value that a declaration gives declares nothing. -/
theorem initialValue_frames (name : Token) (initializer? : Option Expr) :
    Frames id [] (Stmt.declare name initializer?).assigned (initialValue initializer?) := by
  cases initializer? with
  | none => exact .pure Value.nil
  | some e => exact evaluate_frames e

/-- A value is found for the name, and then it is bound. -/
theorem declare_frames (name : Token) (initializer? : Option Expr) :
    Frames Machine.environment [name.lexeme] (Stmt.declare name initializer?).assigned
      (Stmt.declare name initializer?).execute := by
  rw [Stmt.execute]
  have hx := (initialValue_frames name initializer?).mono (List.nil_subset [name.lexeme])
    (List.Subset.refl _)
  exact .onEnvironment (.bind hx fun v => (frames_define name v).mono (List.Subset.refl _)
    (List.nil_subset _))

mutual

/-- A statement leaves the scopes as it found them, but for what it declares and assigns to. -/
theorem execute_frames : ∀ s : Stmt, Frames Machine.environment s.declared s.assigned s.execute
  | .expression e => by
      rw [Stmt.execute]
      exact .bind (.onEnvironment (evaluate_frames e)) fun _ => .pure ()
  | .print keyword e => by
      rw [Stmt.execute]
      exact .bind (.onEnvironment (evaluate_frames e)) fun v => .writeLine keyword _
  | .declare name initializer? => declare_frames name initializer?
  | .block body => by
      rw [Stmt.execute]
      exact .inScope (executeAll_frames body)
  | .conditional c s none => by
      rw [Stmt.execute.eq_def]
      have hc := (evaluate_frames c).mono (List.nil_subset s.declared)
        (List.subset_append_left _ s.assigned)
      refine .bind (.onEnvironment hc) fun v => ?_
      split
      · exact (execute_frames s).mono (List.Subset.refl _) (List.subset_append_right _ _)
      · exact .pure ()
  | .conditional c s (some t) => by
      rw [Stmt.execute.eq_def]
      have hc := (evaluate_frames c).mono (List.nil_subset (s.declared ++ t.declared))
        (List.subset_append_left _ (s.assigned ++ t.assigned))
      refine .bind (.onEnvironment hc) fun v => ?_
      split
      · exact (execute_frames s).mono (List.subset_append_left _ _)
          (List.Subset.trans (List.subset_append_left _ _) (List.subset_append_right _ _))
      · exact (execute_frames t).mono (List.subset_append_right _ _)
          (List.Subset.trans (List.subset_append_right _ _) (List.subset_append_right _ _))

/-- So does a list of statements. -/
theorem executeAll_frames : ∀ ss : List Stmt,
    Frames Machine.environment (Stmt.declaredAll ss) (Stmt.assignedAll ss) (Stmt.executeAll ss)
  | [] => .pure ()
  | s :: ss => by
      rw [Stmt.executeAll]
      exact .bind ((execute_frames s).mono (List.subset_append_left _ _)
          (List.subset_append_left _ _)) fun _ =>
        (executeAll_frames ss).mono (List.subset_append_right _ _) (List.subset_append_right _ _)

end

end Lox
