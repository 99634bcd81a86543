import Lox.Proofs.Execution.Frame
import Lox.Proofs.Execution.Refinement

/-!
# Proofs — Execution — Scoping is decided by the text

**Scoping** (`never_undefined`).  `Stmt.AllBound visible ss` says of the text of a program that each
variable in it, read or assigned to, is `visible` there: one of the names to begin with, or declared
earlier in the same block or in one around it.  Branches that are not taken count, too.  Run on a
global scope with these names, such a program never meets an undefined variable; and if it ends
without a fault, the global scope has exactly its names of before and those that the program
declares outside of blocks and branches.

While a program runs, the visible names of the text are bound in some scope (`Environment.Ready`).
They stay bound, since no scope loses a name before it is left; and a declaration that is done has
bound its own.  Only for the names at the end does it matter that a branch is no declaration, which
is a matter of the grammar.
-/

namespace Lox

open Effect (Frames ending ending_bind_ok ending_bind_error ending_onEnvironment)
open Grammar (bare)

/-! ### Visible names -/

/-- Every variable of the expression is visible. -/
def Expr.Bound (visible : List String) : Expr → Prop
  | .literal _ => True
  | .variable name => name.lexeme ∈ visible
  | .grouping e | .unary _ e => e.Bound visible
  | .binary l _ r | .logical l _ r => l.Bound visible ∧ r.Bound visible
  | .assign name e => name.lexeme ∈ visible ∧ e.Bound visible

namespace Stmt

/-- The name that a statement makes visible to those behind it. -/
def binds : Stmt → List String
  | .declare name _ => [name.lexeme]
  | _ => []

/-- What is no declaration makes no name visible. -/
theorem binds_of_not_declaration {s : Stmt} (h : s.isDeclaration = false) : s.binds = [] := by
  cases s with
  | declare => cases h
  | _ => rfl

mutual

/-- Every variable of the statement is visible. A name is not yet visible in its own initializer. -/
def Bound (visible : List String) : Stmt → Prop
  | .expression e | .print _ e | .declare _ (some e) => e.Bound visible
  | .declare _ none => True
  | .block body => AllBound visible body
  | .conditional c s none => c.Bound visible ∧ s.Bound visible
  | .conditional c s (some t) => c.Bound visible ∧ s.Bound visible ∧ t.Bound visible

/-- Every variable of the list is visible, those that it declares being so from there on. -/
def AllBound (visible : List String) : List Stmt → Prop
  | [] => True
  | s :: ss => s.Bound visible ∧ AllBound (s.binds ++ visible) ss

end

end Stmt

/-- Whether the variables of an expression are visible can be computed. -/
instance Expr.decidableBound (visible : List String) : (e : Expr) → Decidable (e.Bound visible)
  | .literal _ => .isTrue trivial
  | .variable name => inferInstanceAs (Decidable (name.lexeme ∈ visible))
  | .grouping e | .unary _ e => decidableBound visible e
  | .binary l _ r | .logical l _ r =>
    have := decidableBound visible l
    have := decidableBound visible r
    inferInstanceAs (Decidable (l.Bound visible ∧ r.Bound visible))
  | .assign name e =>
    have := decidableBound visible e
    inferInstanceAs (Decidable (name.lexeme ∈ visible ∧ e.Bound visible))

namespace Stmt

mutual

instance decidableBound (visible : List String) : (s : Stmt) → Decidable (s.Bound visible)
  | .expression e | .print _ e | .declare _ (some e) => inferInstanceAs (Decidable (e.Bound visible))
  | .declare _ none => .isTrue trivial
  | .block body => decidableAllBound visible body
  | .conditional c s none =>
    have := decidableBound visible s
    inferInstanceAs (Decidable (c.Bound visible ∧ s.Bound visible))
  | .conditional c s (some t) =>
    have := decidableBound visible s
    have := decidableBound visible t
    inferInstanceAs (Decidable (c.Bound visible ∧ s.Bound visible ∧ t.Bound visible))

instance decidableAllBound (visible : List String) : (ss : List Stmt) →
    Decidable (AllBound visible ss)
  | [] => .isTrue trivial
  | s :: ss =>
    have := decidableBound visible s
    have := decidableAllBound (s.binds ++ visible) ss
    inferInstanceAs (Decidable (s.Bound visible ∧ AllBound (s.binds ++ visible) ss))

end

end Stmt

/-! ### Bound names -/

/-- The names of a scope are those that it binds. -/
theorem Bindings.mem_names {b : Bindings} {name : String} : name ∈ b.names ↔ b.holds name := by
  obtain ⟨entries⟩ := b
  induction entries with
  | nil => simp [names, holds, value?, valueIn]
  | cons entry rest ih =>
      obtain ⟨other, v⟩ := entry
      simp only [names, holds, value?, List.map_cons, List.mem_cons, valueIn] at ih ⊢
      by_cases h : other = name
      · simp [h]
      · rw [if_neg h, ← ih, or_iff_right (Ne.symm h)]

namespace Environment

variable {e e' : Environment} {name : String} {v : Value} {visible declared assigned : List String}

/-- Some scope binds the name. -/
def Sees (e : Environment) (name : String) : Prop := ∃ s ∈ e.scopes, s.bindings.holds name

/-- The current scope binds the name. -/
def Holds (e : Environment) (name : String) : Prop :=
  ∃ s, e.scopes[e.current]? = some s ∧ s.bindings.holds name

theorem Holds.sees (h : e.Holds name) : e.Sees name := by
  obtain ⟨s, hs, hn⟩ := h
  exact ⟨s, List.mem_of_getElem? hs, hn⟩

/-- What is bound somewhere is found. -/
theorem Sees.exists_holder (h : e.Sees name) (he : e.Nested) :
    ∃ scope s w, e.holder? name = some scope ∧ e.scopes[scope]? = some s ∧
      s.bindings.value? name = some w := by
  rcases holder?_cases he name with ⟨-, hno⟩ | ⟨outer, s, inner, w, hsplit, hsome, hw, -⟩
  · obtain ⟨s, hs, hn⟩ := h
    have : s.frame name = none := hno _ (by simpa [frames] using ⟨s, hs, rfl⟩)
    rw [Bindings.holds, show s.bindings.value? name = none from this] at hn
    cases hn
  · exact ⟨outer.length, s, w, hsome, by simp [hsplit], hw⟩

theorem Sees.exists_value (h : e.Sees name) (he : e.Nested) : ∃ v, e.value? name = some v := by
  obtain ⟨scope, s, w, hscope, hs, hw⟩ := h.exists_holder he
  exact ⟨w, by simp [value?, hscope, hs, hw]⟩

theorem Sees.exists_assign (h : e.Sees name) (he : e.Nested) (v : Value) :
    ∃ e', e.assign? name v = some e' := by
  obtain ⟨scope, s, w, hscope, -⟩ := h.exists_holder he
  exact ⟨_, by rw [assign?, hscope]; rfl⟩

theorem Framed.sees (h : Framed declared assigned e e') (hn : e.Sees name) : e'.Sees name := by
  obtain ⟨s, hs, hn⟩ := hn
  obtain ⟨i, hi⟩ := List.mem_iff_getElem?.1 hs
  obtain ⟨s', hs', hf⟩ := h.scope i s hi
  exact ⟨s', List.mem_of_getElem? hs', hf.kept name hn⟩

theorem Framed.holds (h : Framed declared assigned e e') (hn : e.Holds name) : e'.Holds name := by
  obtain ⟨s, hs, hn⟩ := hn
  obtain ⟨s', hs', hf⟩ := h.scope _ s hs
  exact ⟨s', by rwa [h.current], hf.kept name hn⟩

/-- A name that has been bound is bound in the current scope. -/
theorem holds_define (he : e.Nested) (name : String) (v : Value) : (e.define name v).Holds name := by
  have hlt : e.current < e.scopes.length := Nat.lt_of_lt_of_eq (Nat.lt_succ_self _) he.current_succ
  refine ⟨{ e.scopes[e.current] with bindings := (e.scopes[e.current]).bindings.put name v }, ?_, ?_⟩
  · change (e.scopes.modify e.current _)[e.current]? = _
    rw [List.getElem?_modify, List.getElem?_eq_getElem hlt]
    simp
  · rw [Bindings.holds_put]
    simp

/-- The scopes are nested, and what is visible in the text is bound. -/
structure Ready (visible : List String) (e : Environment) : Prop where
  nested : e.Nested
  sees : ∀ name ∈ visible, e.Sees name

theorem Ready.framed (h : Ready visible e) (hf : Framed declared assigned e e') :
    Ready visible e' where
  nested := hf.nested h.nested
  sees := fun name hn => hf.sees (h.sees name hn)

theorem Ready.enter (h : Ready visible e) : Ready visible e.enter where
  nested := h.nested.enter
  sees := by
    intro name hn
    obtain ⟨s, hs, hn⟩ := h.sees name hn
    exact ⟨s, List.mem_append_left _ hs, hn⟩

end Environment

/-! ### Effects that meet no undefined variable -/

namespace Effect

variable {σ α β : Type} {scopes : σ → Environment} {visible declared assigned : List String}
  {x : Effect σ α} {s : σ}

/-- The effect does not end with an undefined variable. -/
def Defined (x : Effect σ α) (s : σ) : Prop :=
  ∀ f, (ending x s).1 = .error f → ∀ name, f.cause ≠ .undefinedVariable name

namespace Defined

theorem pure (a : α) (s : σ) : Defined (Pure.pure a) s := by
  intro f h
  cases h

theorem blaming {token : Token} {a : Except Fault.Cause α}
    (h : ∀ name, a ≠ .error (.undefinedVariable name)) (s : σ) : Defined (blaming token a) s := by
  intro f hf name hname
  rw [ending_blaming] at hf
  cases a with
  | ok a => cases hf
  | error cause =>
      cases hf
      exact h name (congrArg Except.error hname)

theorem bind {g : α → Effect σ β} (hx : Frames scopes declared assigned x)
    (hs : (scopes s).Ready visible) (hd : Defined x s)
    (hg : ∀ a s', (scopes s').Ready visible → Defined (g a) s') : Defined (x >>= g) s := by
  have hframe := hx s hs.nested
  rw [Defined] at hd ⊢
  cases hr : ending x s with
  | mk r s' =>
      rw [hr] at hframe hd
      cases r with
      | error f =>
          rw [ending_bind_error hr]
          intro f' hf
          cases hf
          exact hd f rfl
      | ok a =>
          rw [ending_bind_ok hr]
          exact hg a s' (hs.framed hframe)

theorem onEnvironment {x : Effect Environment α} {m : Machine} (h : Defined x m.environment) :
    Defined (onEnvironment x) m := by
  rw [Defined, ending_onEnvironment (r := (ending x m.environment).1) rfl]
  exact h

theorem inScope {x : Effect Machine α} {m : Machine} (h : Defined x m.enter) :
    Defined (inScope x) m := by
  rw [Defined, ending_inScope (r := (ending x m.enter).1) rfl]
  exact h

/-- Writing fails for reasons of its own. -/
theorem writeLine (token : Token) (text : String) (m : Machine) :
    Defined (writeLine token text) m := by
  intro f hf name hname
  rw [ending, Effect.writeLine] at hf
  split at hf <;> rename_i h <;> split at h <;> cases h <;> cases hf
  cases hname

end Defined

end Effect

open Effect (Defined)

/-! ### Operators and expressions -/

theorem unary_ne_undefined (operator : Token) (v : Value) (name : String) :
    Operator.unary operator v ≠ .error (.undefinedVariable name) := by
  rw [Operator.unary.eq_def]
  split <;> simp

theorem binary_ne_undefined (operator : Token) (v w : Value) (name : String) :
    Operator.binary operator v w ≠ .error (.undefinedVariable name) := by
  rw [Operator.binary.eq_def]
  split
  · simp
  · simp
  · rw [Operator.plus.eq_def]
    split <;> simp
  · rw [Operator.arithmetic]
    split <;> simp
  · simp

/-- An expression whose variables are visible meets no undefined one. -/
theorem evaluate_defined {visible : List String} {e : Expr} (hb : e.Bound visible)
    {env : Environment} (henv : env.Ready visible) : Defined e.evaluate env := by
  induction e generalizing env with
  | literal v => exact .pure v env
  | «variable» name =>
      obtain ⟨v, hv⟩ := (henv.sees _ hb).exists_value henv.nested
      intro f hf
      rw [Expr.evaluate, Effect.ending_lookUp hv] at hf
      cases hf
  | grouping e ih => exact ih hb henv
  | unary operator e ih =>
      exact .bind (evaluate_frames e) henv (ih hb henv) fun v env' _ =>
        .blaming (unary_ne_undefined operator v) env'
  | binary l operator r ihl ihr =>
      refine .bind (evaluate_frames l) henv (ihl hb.1 henv) fun v env' henv' => ?_
      exact .bind (evaluate_frames r) henv' (ihr hb.2 henv') fun w env'' _ =>
        .blaming (binary_ne_undefined operator v w) env''
  | logical l operator r ihl ihr =>
      refine .bind (evaluate_frames l) henv (ihl hb.1 henv) fun v env' henv' => ?_
      split
      · exact .pure v env'
      · exact ihr hb.2 henv'
  | assign name e ih =>
      refine .bind (evaluate_frames e) henv (ih hb.2 henv) fun v env' henv' => ?_
      refine .bind (frames_assign name v) henv' ?_ fun _ env'' _ => .pure v env''
      obtain ⟨env'', hassign⟩ := (henv'.sees _ hb.1).exists_assign henv'.nested v
      intro f hf
      rw [Effect.ending_assign (e := env') hassign] at hf
      cases hf

/-! ### Statements -/

/-- A declaration that is done has bound its name. -/
theorem holds_of_declare {m m' : Machine} {name : Token} {initializer? : Option Expr}
    (hm : m.environment.Nested)
    (h : ending (Stmt.declare name initializer?).execute m = (.ok (), m')) :
    m'.environment.Holds name.lexeme := by
  rw [Stmt.execute] at h
  cases hr : ending (initialValue initializer?) m.environment with
  | mk r env =>
      have hnested := initialValue_frames name initializer? m.environment hm
      rw [hr] at hnested
      cases r with
      | error f =>
          rw [ending_onEnvironment (ending_bind_error hr)] at h
          cases h
      | ok v =>
          rw [ending_onEnvironment (r := .ok ()) ((ending_bind_ok hr).trans rfl)] at h
          cases h
          exact Environment.holds_define (hnested.nested hm) name.lexeme v

/-- What a statement that is done binds is bound in the current scope. -/
theorem holds_of_binds {m m' : Machine} {s : Stmt} {name : String} (hm : m.environment.Nested)
    (h : ending s.execute m = (.ok (), m')) (hn : name ∈ s.binds) : m'.environment.Holds name := by
  cases s with
  | declare other initializer? =>
      rw [List.mem_singleton.1 hn]
      exact holds_of_declare hm h
  | _ => cases hn

/-- What is visible behind a statement is bound once it is done. -/
theorem ready_of_execute {visible : List String} {m m' : Machine} {s : Stmt}
    (hm : m.environment.Ready visible) (h : ending s.execute m = (.ok (), m')) :
    m'.environment.Ready (s.binds ++ visible) := by
  have hf := execute_frames s m hm.nested
  rw [h] at hf
  have hm' := hm.framed hf
  refine ⟨hm'.nested, fun name hn => ?_⟩
  rcases List.mem_append.1 hn with hn | hn
  · exact (holds_of_binds hm.nested h hn).sees
  · exact hm'.sees name hn

mutual

/-- A statement whose variables are visible meets no undefined one. -/
theorem execute_defined : ∀ (s : Stmt) {visible : List String}, s.Bound visible →
    ∀ {m : Machine}, m.environment.Ready visible → Defined s.execute m
  | .expression e, _, hb, m, hm => by
      rw [Stmt.execute]
      exact .bind (.onEnvironment (evaluate_frames e)) hm (.onEnvironment (evaluate_defined hb hm))
        fun _ m' _ => .pure () m'
  | .print keyword e, _, hb, m, hm => by
      rw [Stmt.execute]
      exact .bind (.onEnvironment (evaluate_frames e)) hm (.onEnvironment (evaluate_defined hb hm))
        fun v m' _ => .writeLine keyword _ m'
  | .declare name none, visible, _, m, hm => by
      rw [Stmt.execute]
      refine .onEnvironment (.bind (initialValue_frames name none) hm (.pure Value.nil _)
        fun v env _ => ?_)
      intro f hf
      cases hf
  | .declare name (some e), visible, hb, m, hm => by
      rw [Stmt.execute]
      refine .onEnvironment (.bind (initialValue_frames name (some e)) hm (evaluate_defined hb hm)
        fun v env _ => ?_)
      intro f hf
      cases hf
  | .block body, _, hb, m, hm => by
      rw [Stmt.execute]
      exact .inScope (executeAll_defined body hb hm.enter)
  | .conditional c s none, _, hb, m, hm => by
      rw [Stmt.execute.eq_def]
      refine .bind (.onEnvironment (evaluate_frames c)) hm
        (.onEnvironment (evaluate_defined hb.1 hm)) fun v m' hm' => ?_
      split
      · exact execute_defined s hb.2 hm'
      · exact .pure () m'
  | .conditional c s (some t), _, hb, m, hm => by
      rw [Stmt.execute.eq_def]
      refine .bind (.onEnvironment (evaluate_frames c)) hm
        (.onEnvironment (evaluate_defined hb.1 hm)) fun v m' hm' => ?_
      split
      · exact execute_defined s hb.2.1 hm'
      · exact execute_defined t hb.2.2 hm'

/-- Nor does a list of statements, whose declarations are visible behind them. -/
theorem executeAll_defined : ∀ (ss : List Stmt) {visible : List String},
    Stmt.AllBound visible ss → ∀ {m : Machine}, m.environment.Ready visible →
      Defined (Stmt.executeAll ss) m
  | [], _, _, m, _ => .pure () m
  | s :: ss, visible, hb, m, hm => by
      have hs := execute_defined s hb.1 hm
      rw [Defined] at hs ⊢
      rw [Stmt.executeAll]
      cases hr : ending s.execute m with
      | mk r m' =>
          rw [hr] at hs
          cases r with
          | error f => rwa [ending_bind_error hr]
          | ok _ =>
              rw [ending_bind_ok hr]
              exact executeAll_defined ss hb.2 (ready_of_execute hm hr)

end

/-! ### Programs -/

/-- What a list of statements that is done binds is bound in the current scope. -/
theorem holds_of_executeAll {ss : List Stmt} {m m' : Machine} {name : String}
    (hm : m.environment.Nested) (h : ending (Stmt.executeAll ss) m = (.ok (), m'))
    (hn : name ∈ ss.flatMap Stmt.binds) : m'.environment.Holds name := by
  induction ss generalizing m with
  | nil => cases hn
  | cons s ss ih =>
      rw [Stmt.executeAll] at h
      cases hr : ending s.execute m with
      | mk r m₁ =>
          have hm₁ := execute_frames s m hm
          rw [hr] at hm₁
          cases r with
          | error f =>
              rw [ending_bind_error hr] at h
              cases h
          | ok _ =>
              rw [ending_bind_ok hr] at h
              rw [List.flatMap_cons, List.mem_append] at hn
              rcases hn with hn | hn
              · have hrest := executeAll_frames ss m₁ (hm₁.nested hm)
                rw [h] at hrest
                exact hrest.holds (holds_of_binds hm hr hn)
              · exact ih (hm₁.nested hm) h hn

/-- A branch declares nothing: it is no declaration, and neither are its own branches. -/
theorem declared_of_shaped : ∀ s : Stmt, s.Shaped → s.declared = s.binds
  | .declare _ _, _ | .expression _, _ | .print _ _, _ | .block _, _ => rfl
  | .conditional c s none, h => by
      rw [Stmt.declared, declared_of_shaped s h.2.1, Stmt.binds_of_not_declaration h.2.2]
      rfl
  | .conditional c s (some t), h => by
      obtain ⟨-, hs, hsd, -, ht, htd⟩ := h
      rw [Stmt.declared, declared_of_shaped s hs, declared_of_shaped t ht,
        Stmt.binds_of_not_declaration hsd, Stmt.binds_of_not_declaration htd]
      rfl

theorem declaredAll_of_shaped {ss : List Stmt} (h : Stmt.AllShaped ss) :
    Stmt.declaredAll ss = ss.flatMap Stmt.binds := by
  induction ss with
  | nil => rfl
  | cons s ss ih =>
      rw [Stmt.declaredAll, List.flatMap_cons, List.flatMap_cons, declared_of_shaped s h.1, ← ih h.2]
      rfl

/-- Run on a global scope, statements leave it alone again, within their frame. -/
theorem executeAll_on_globals (ss : List Stmt) (globals : Bindings) (sink : Sink)
    (moves : List Move) :
    ∃ (r : Except Fault Unit) (globals' : Bindings) (sink' : Sink) (moves' : List Move),
      ending (Stmt.executeAll ss) ⟨⟨[⟨globals, none⟩], Environment.globalScope⟩, sink, moves⟩ =
        (r, ⟨⟨[⟨globals', none⟩], Environment.globalScope⟩, sink', moves'⟩) ∧
      Scope.Framed (Stmt.declaredAll ss) (Stmt.assignedAll ss) ⟨globals, none⟩ ⟨globals', none⟩ := by
  have hn := Environment.nested_singleton globals
  cases hx : ending (Stmt.executeAll ss)
      ⟨⟨[⟨globals, none⟩], Environment.globalScope⟩, sink, moves⟩ with
  | mk r m =>
      have hf := executeAll_frames ss ⟨⟨[⟨globals, none⟩], Environment.globalScope⟩, sink, moves⟩ hn
      rw [hx] at hf
      obtain ⟨env, sink', moves'⟩ := m
      have hlen : env.frames.length = 1 := by rw [Environment.length_frames, hf.depth]; rfl
      obtain ⟨globals', rfl⟩ := BigStep.exists_globals_of_length_frames (hf.nested hn) hlen
      obtain ⟨s, hs, hscope⟩ := hf.scope 0 ⟨globals, none⟩ rfl
      cases hs
      exact ⟨r, globals', sink', moves', rfl, hscope⟩

/-- **Scoping.**  A program that is read without an error, and all of whose variables are visible
where they stand, is run on a global scope that binds the names visible at its start.  Whatever it
ends with, it is no undefined variable, and it leaves a global scope alone.  If it ends without a
fault, this scope binds the names of before and those that the program declares outside of blocks
and branches, whichever branches were taken. -/
theorem never_undefined (ts : List Token) (h : (Parse.ofTokens ts).errors = [])
    (globals : Bindings) (hb : Stmt.AllBound globals.names (Parse.ofTokens ts).statements)
    (sink : Sink) (moves : List Move) :
    ∃ (r : Except Fault Unit) (globals' : Bindings) (sink' : Sink) (moves' : List Move),
      ending (Stmt.executeAll (Parse.ofTokens ts).statements)
          ⟨⟨[⟨globals, none⟩], Environment.globalScope⟩, sink, moves⟩ =
        (r, ⟨⟨[⟨globals', none⟩], Environment.globalScope⟩, sink', moves'⟩) ∧
      (∀ f, r = .error f → ∀ name, f.cause ≠ .undefinedVariable name) ∧
      (r = .ok () → ∀ name, name ∈ globals'.names ↔
        name ∈ globals.names ∨ name ∈ (Parse.ofTokens ts).statements.flatMap Stmt.binds) := by
  have hsh := (Grammar.writes_statements h).2
  generalize (Parse.ofTokens ts).statements = ss at hb hsh
  obtain ⟨r, globals', sink', moves', hx, hf⟩ := executeAll_on_globals ss globals sink moves
  rw [declaredAll_of_shaped hsh] at hf
  have hn := Environment.nested_singleton globals
  have hready : Environment.Ready globals.names ⟨[⟨globals, none⟩], Environment.globalScope⟩ :=
    ⟨hn, fun name hname => ⟨_, List.mem_singleton_self _, Bindings.mem_names.1 hname⟩⟩
  have hd : Defined (Stmt.executeAll ss)
      ⟨⟨[⟨globals, none⟩], Environment.globalScope⟩, sink, moves⟩ := executeAll_defined ss hb hready
  rw [Defined, hx] at hd
  refine ⟨r, globals', sink', moves', hx, hd, ?_⟩
  rintro rfl name
  rw [Bindings.mem_names, Bindings.mem_names]
  constructor
  · exact hf.gained name
  · rintro (hname | hname)
    · exact hf.kept name hname
    · obtain ⟨s, hs, hname⟩ := holds_of_executeAll hn hx hname
      cases hs
      exact hname

/-- `if (a) { var b = a; b = nil; } else a = a; var c = a;`. -/
def eitherTokens : List Token :=
  [bare .kwIf "if", bare .leftParen "(", bare .identifier "a", bare .rightParen ")",
    bare .leftBrace "\x7b", bare .kwVar "var", bare .identifier "b", bare .equal "=",
    bare .identifier "a", bare .semicolon ";", bare .identifier "b", bare .equal "=",
    bare .kwNil "nil", bare .semicolon ";", bare .rightBrace "\x7d", bare .kwElse "else",
    bare .identifier "a", bare .equal "=", bare .identifier "a", bare .semicolon ";",
    bare .kwVar "var", bare .identifier "c", bare .equal "=", bare .identifier "a",
    bare .semicolon ";"]

/-- Either branch leaves `a` and `c`, as the `b` of the first one is in a block. -/
theorem never_undefined_either :
    (Parse.ofTokens eitherTokens).errors = [] ∧
      Stmt.AllBound ["a"] (Parse.ofTokens eitherTokens).statements ∧
      ∀ v : Value, ∃ globals' : Bindings,
        (ending (Stmt.executeAll (Parse.ofTokens eitherTokens).statements)
            ⟨⟨[⟨⟨[("a", v)]⟩, none⟩], Environment.globalScope⟩, .unlimited, []⟩).2.environment =
          ⟨[⟨globals', none⟩], Environment.globalScope⟩ ∧
        ∀ name, name ∈ globals'.names ↔ name = "a" ∨ name = "c" := by
  have hb : Stmt.AllBound ["a"] (Parse.ofTokens eitherTokens).statements := by decide
  refine ⟨rfl, hb, fun v => ?_⟩
  obtain ⟨r, globals', sink', moves', hx, -, hnames⟩ :=
    never_undefined eitherTokens rfl ⟨[("a", v)]⟩ hb .unlimited []
  refine ⟨globals', by rw [hx], ?_⟩
  have hr : r = .ok () := by
    rw [show r = _ from (congrArg Prod.fst hx).symm]
    cases v with
    | nil => rfl
    | bool b => cases b <;> rfl
    | number x => rfl
    | string x => rfl
  have hbinds : (Parse.ofTokens eitherTokens).statements.flatMap Stmt.binds = ["c"] := rfl
  intro name
  rw [hnames hr name, hbinds, List.mem_singleton]
  exact or_congr List.mem_singleton Iff.rfl

end Lox
