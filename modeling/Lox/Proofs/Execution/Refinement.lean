import Lox.Proofs.Execution.BigStep
import Lox.Proofs.Execution.Ending
import Lox.Proofs.Grammar.Soundness

/-!
# Proofs — Execution — The machine obeys the rules

**Refinement** (`executeAll_iff_rules`).  A program that is read without an error, run on a global
scope and with a sink that takes everything, ends as the rules of the language say: with the same
result or the same fault, with the same text written, and with the same names standing for the same
values.  The rules say nothing else of it.

The machine has one list of scopes, which it changes in place; the rules have a new stack at every
step.  What holds between the two at every moment is that the scopes are nested and their frames are
the stack.  `Obeys` carries that through expressions and `Performs` through statements, with one
lemma for each way in which effects are put together.  The converse needs no second simulation,
since the rules give a program one meaning at most.
-/

namespace Lox.BigStep
open Effect (ending ending_bind_ok ending_bind_error ending_onEnvironment)
open Grammar (bare)

/-! ### Operators -/

theorem truthy_iff {v : Value} : v.truthy = true ↔ v.Truthy := by
  cases v with
  | bool b => cases b <;> simp [Value.truthy, Value.Truthy]
  | _ => simp [Value.truthy, Value.Truthy]

theorem not_truthy_iff {v : Value} : v.truthy = false ↔ ¬ v.Truthy := by
  rw [← truthy_iff, Bool.not_eq_true]

theorem beq_iff {v w : Value} : (v == w) = true ↔ v.Equals w := by
  constructor
  · intro h
    change Value.equal v w = true at h
    cases v <;> cases w <;> simp only [Value.equal, beq_iff_eq, reduceCtorEq] at h
    · exact .nil
    · exact h ▸ .bool _
    · exact .number h
    · exact h ▸ .string _
  · intro h
    change Value.equal v w = true
    cases h with
    | nil => rfl
    | number h => exact h
    | bool | string => simp [Value.equal]

theorem beq_eq_false_iff {v w : Value} : (v == w) = false ↔ ¬ v.Equals w := by
  rw [← beq_iff, Bool.not_eq_true]

/-- An operator in front of an operand does what the rules say. -/
theorem unary_operator {operator : Token} (h : operator.kind.isUnary) (v : Value) :
    Unary operator.kind v (Operator.unary operator v) := by
  cases hk : operator.kind <;> rw [hk] at h <;> cases h
  case bang =>
    simp only [Operator.unary, hk]
    cases ht : v.truthy with
    | true => exact .notTruthy (truthy_iff.1 ht)
    | false => exact .notFalsy (not_truthy_iff.1 ht)
  case minus =>
    simp only [Operator.unary, hk]
    cases v with
    | number x => exact .negated x
    | _ => exact .notNumber (by rintro ⟨x, hx⟩; cases hx)

/-- An operator for numbers does what the rules say. -/
theorem arithmetic_operator {operator : Token} (h : takesNumbers operator.kind) (x y : Float) :
    ∃ v, Operator.arithmetic operator x y = .ok v ∧ Arithmetic operator.kind x y v := by
  rw [Operator.arithmetic]
  cases hk : operator.kind <;> rw [hk] at h <;> cases h
  case minus => exact ⟨_, rfl, .difference x y⟩
  case star => exact ⟨_, rfl, .product x y⟩
  case slash => exact ⟨_, rfl, .quotient x y⟩
  case greater => exact ⟨_, rfl, .greater x y⟩
  case greaterEqual => exact ⟨_, rfl, .greaterEqual x y⟩
  case less => exact ⟨_, rfl, .less x y⟩
  case lessEqual => exact ⟨_, rfl, .lessEqual x y⟩

/-- `+` does what the rules say. -/
theorem plus_operator (v w : Value) : Binary .plus v w (Operator.plus v w) := by
  unfold Operator.plus
  split
  · exact .sum _ _
  · exact .joined _ _
  · rename_i hn hs
    refine .mixed ?_ ?_
    · rintro ⟨⟨x, rfl⟩, ⟨y, rfl⟩⟩
      exact hn x y rfl rfl
    · rintro ⟨⟨s, rfl⟩, ⟨t, rfl⟩⟩
      exact hs s t rfl rfl

theorem isBinary_cases {kind : Token.Kind} (h : kind.isBinary) :
    kind = .plus ∨ kind = .equalEqual ∨ kind = .bangEqual ∨ takesNumbers kind := by
  cases kind <;> cases h <;> simp [takesNumbers]

/-- An operator for numbers between two operands. -/
theorem binary_of_takesNumbers {operator : Token} (h : takesNumbers operator.kind) (v w : Value) :
    Operator.binary operator v w =
      match v, w with
      | .number x, .number y => Operator.arithmetic operator x y
      | _, _ => .error .operandsMustBeNumbers := by
  cases hk : operator.kind <;> rw [hk] at h <;> cases h <;>
    cases v <;> cases w <;> simp only [Operator.binary, hk]

/-- An operator between two operands does what the rules say. -/
theorem binary_operator {operator : Token} (h : operator.kind.isBinary) (v w : Value) :
    Binary operator.kind v w (Operator.binary operator v w) := by
  rcases isBinary_cases h with hk | hk | hk | ht
  · simp only [Operator.binary, hk]
    exact plus_operator v w
  · simp only [Operator.binary, hk]
    cases hv : v == w with
    | true => exact .equal (beq_iff.1 hv)
    | false => exact .notEqual (beq_eq_false_iff.1 hv)
  · simp only [Operator.binary, hk, bne]
    cases hv : v == w with
    | true => exact .notDifferent (beq_iff.1 hv)
    | false => exact .different (beq_eq_false_iff.1 hv)
  · rw [binary_of_takesNumbers ht]
    split
    · rename_i x y
      obtain ⟨a, ha, hr⟩ := arithmetic_operator ht x y
      rw [ha]
      exact .numbers hr
    · rename_i hn
      refine .notNumbers ht ?_
      rintro ⟨⟨x, rfl⟩, ⟨y, rfl⟩⟩
      exact hn x y rfl rfl

theorem decides_operator {operator : Token} {v : Value} (h : operator.kind.isLogical)
    (hd : Operator.decides operator v = true) : Decides operator.kind v := by
  cases hk : operator.kind <;> rw [hk] at h <;> cases h <;> simp only [Operator.decides, hk] at hd
  case kwAnd => exact .and (not_truthy_iff.1 (by simpa using hd))
  case kwOr => exact .or (truthy_iff.1 hd)

theorem defers_operator {operator : Token} {v : Value} (h : operator.kind.isLogical)
    (hd : Operator.decides operator v = false) : Defers operator.kind v := by
  cases hk : operator.kind <;> rw [hk] at h <;> cases h <;> simp only [Operator.decides, hk] at hd
  case kwAnd => exact .and (truthy_iff.1 (by simpa using hd))
  case kwOr => exact .or (not_truthy_iff.1 hd)

/-! ### Expressions -/

/-- An effect on nested scopes ends as a rule says of their frames, and leaves them nested. -/
def Obeys {α : Type} (x : Effect Environment α)
    (rule : Stack → Except Fault α → Stack → Prop) : Prop :=
  ∀ env : Environment, env.Nested →
    ∃ r env', ending x env = (r, env') ∧ env'.Nested ∧ rule env.frames r env'.frames

section

variable {α β : Type} {rule : Stack → Except Fault α → Stack → Prop}

theorem Obeys.imp {x : Effect Environment α} {rule' : Stack → Except Fault α → Stack → Prop}
    (h : Obeys x rule) (hrule : ∀ σ r σ', rule σ r σ' → rule' σ r σ') : Obeys x rule' := by
  intro env henv
  obtain ⟨r, env', hx, henv', hr⟩ := h env henv
  exact ⟨r, env', hx, henv', hrule _ _ _ hr⟩

theorem obeys_pure (a : α) : Obeys (pure a) fun σ r σ' => r = .ok a ∧ σ' = σ :=
  fun env henv => ⟨_, env, rfl, henv, rfl, rfl⟩

theorem obeys_blaming (token : Token) (a : Except Fault.Cause Value) :
    Obeys (Effect.blaming token a) fun σ r σ' => r = blame token a ∧ σ' = σ :=
  fun env henv => ⟨_, env, Effect.ending_blaming token a env, henv, rfl, rfl⟩

/-- What follows is about the stack that a result left; a fault is handed on. -/
theorem obeys_bind {x : Effect Environment α} {g : α → Effect Environment β}
    {rule' : Stack → Except Fault β → Stack → Prop} (hx : Obeys x rule)
    (hfault : ∀ σ f σ', rule σ (.error f) σ' → rule' σ (.error f) σ')
    (hg : ∀ a, Obeys (g a) fun σ' r σ'' => ∀ σ, rule σ (.ok a) σ' → rule' σ r σ'') :
    Obeys (x >>= g) rule' := by
  intro env henv
  obtain ⟨r, env', he, henv', hr⟩ := hx env henv
  cases r with
  | error f => exact ⟨_, env', ending_bind_error he, henv', hfault _ _ _ hr⟩
  | ok a =>
      obtain ⟨r, env'', he', henv'', hr'⟩ := hg a env' henv'
      exact ⟨r, env'', (ending_bind_ok he).trans he', henv'', hr' _ hr⟩

end

theorem lookUp_obeys (name : Token) : Obeys (Effect.lookUp name) (Evaluates (.variable name)) := by
  intro env henv
  have heq := Environment.value?_eq henv name.lexeme
  cases hv : env.value? name.lexeme with
  | some v => exact ⟨_, _, Effect.ending_lookUp hv, henv, .variable (heq ▸ hv)⟩
  | none => exact ⟨_, _, Effect.ending_lookUp_none hv, henv, .undefined (heq ▸ hv)⟩

/-- The innermost binding is rewritten, or there is none and nothing changes. -/
theorem assign_obeys (name : Token) (v : Value) :
    Obeys (Effect.assign name v) fun σ r σ' =>
      (r = .ok () ∧ Stack.assign? name.lexeme v σ = some σ') ∨
        (r = .error ⟨.undefinedVariable name.lexeme, name⟩ ∧
          Stack.assign? name.lexeme v σ = none ∧ σ' = σ) := by
  intro env henv
  rcases Environment.assign?_cases henv name.lexeme v with ⟨hnone, hσ⟩ | ⟨env', hsome, henv', hσ⟩
  · exact ⟨_, env, Effect.ending_assign_none hnone, henv, .inr ⟨rfl, hσ, rfl⟩⟩
  · exact ⟨_, env', Effect.ending_assign hsome, henv', .inl ⟨rfl, hσ⟩⟩

/-- An expression obeys the rules. -/
theorem evaluate_obeys : ∀ e : Expr, e.Shaped → Obeys e.evaluate (Evaluates e)
  | .literal v, _ => by
      refine (obeys_pure v).imp ?_
      rintro σ _ _ ⟨rfl, rfl⟩
      exact .literal v _
  | .variable name, _ => lookUp_obeys name
  | .grouping e, h => (evaluate_obeys e h).imp fun _ _ _ hr => .grouping hr
  | .unary operator e, h => by
      refine obeys_bind (evaluate_obeys e h.2.2) (fun _ _ _ hr => .unaryFault hr) fun v => ?_
      refine (obeys_blaming operator _).imp ?_
      rintro σ' _ _ ⟨rfl, rfl⟩ σ hr
      exact .unary hr (unary_operator h.1 v)
  | .binary l operator r, h => by
      refine obeys_bind (evaluate_obeys l h.2.2.1) (fun _ _ _ hl => .binaryLeft hl) fun v => ?_
      refine obeys_bind (evaluate_obeys r h.2.2.2) (fun _ _ _ hr _ hl => .binaryRight hl hr)
        fun w => ?_
      refine (obeys_blaming operator _).imp ?_
      rintro σ'' _ _ ⟨rfl, rfl⟩ σ' hr σ hl
      exact .binary hl hr (binary_operator h.1 v w)
  | .logical l operator r, h => by
      refine obeys_bind (evaluate_obeys l h.2.2.1) (fun _ _ _ hl => .logicalFault hl) fun v => ?_
      cases hd : Operator.decides operator v with
      | true =>
          refine (obeys_pure v).imp ?_
          rintro σ' _ _ ⟨rfl, rfl⟩ σ hl
          exact .decided hl (decides_operator h.1 hd)
      | false =>
          exact (evaluate_obeys r h.2.2.2).imp fun _ _ _ hr _ hl =>
            .deferred hl (defers_operator h.1 hd) hr
  | .assign name e, h => by
      refine obeys_bind (evaluate_obeys e h.2) (fun _ _ _ hr => .assignFault hr) fun v => ?_
      refine obeys_bind (assign_obeys name v) ?_ fun _ => (obeys_pure v).imp ?_
      · rintro σ' f σ'' (⟨hok, -⟩ | ⟨herror, hnone, rfl⟩) σ hr
        · cases hok
        · cases herror
          exact .unbound hr hnone
      · rintro σ'' _ _ ⟨rfl, rfl⟩ σ' (⟨-, hsome⟩ | ⟨herror, -⟩) σ hr
        · exact .assign hr hsome
        · cases herror

/-! ### Statements -/

/-- An effect on a machine with nested scopes, whose sink takes everything, ends and writes as a
rule says of the frames, and leaves the scopes nested. -/
def Performs (x : Effect Machine Unit)
    (rule : Stack → Except Fault Unit → String → Stack → Prop) : Prop :=
  ∀ m : Machine, m.environment.Nested → m.sink.limit? = none →
    ∃ r out env' moves, ending x m = (r, ⟨env', m.sink.write out, moves⟩) ∧ env'.Nested ∧
      rule m.environment.frames r out env'.frames

section

variable {rule rule' : Stack → Except Fault Unit → String → Stack → Prop}

theorem Performs.imp {x : Effect Machine Unit} (h : Performs x rule)
    (hrule : ∀ σ r out σ', rule σ r out σ' → rule' σ r out σ') : Performs x rule' := by
  intro m hm hs
  obtain ⟨r, out, env', moves, hx, henv', hr⟩ := h m hm hs
  exact ⟨r, out, env', moves, hx, henv', hrule _ _ _ _ hr⟩

theorem performs_pure :
    Performs (pure ()) fun σ r out σ' => r = .ok () ∧ out = "" ∧ σ' = σ := by
  intro m hm hs
  refine ⟨_, "", m.environment, m.moves, ?_, hm, rfl, rfl, rfl⟩
  rw [Sink.write_empty hs]
  rfl

theorem performs_writeLine (token : Token) (text : String) :
    Performs (Effect.writeLine token text) fun σ r out σ' =>
      r = .ok () ∧ out = text ++ "\n" ∧ σ' = σ :=
  fun m hm hs =>
    ⟨_, _, m.environment, m.moves, Effect.ending_writeLine hs token text, hm, rfl, rfl, rfl⟩

/-- An effect on the scopes writes nothing. -/
theorem performs_onEnvironment {x : Effect Environment Unit}
    {rule : Stack → Except Fault Unit → Stack → Prop} (h : Obeys x rule) :
    Performs (Effect.onEnvironment x) fun σ r out σ' => out = "" ∧ rule σ r σ' := by
  intro m hm hs
  obtain ⟨r, env', hx, henv', hr⟩ := h m.environment hm
  refine ⟨r, "", env', m.moves, ?_, henv', rfl, hr⟩
  rw [Sink.write_empty hs]
  exact ending_onEnvironment hx

/-- What follows an expression is about the stack that it left; a fault is handed on, and nothing
is written then. -/
theorem performs_bind {e : Expr} {g : Value → Effect Machine Unit}
    (he : Obeys e.evaluate (Evaluates e))
    (hfault : ∀ σ f σ', Evaluates e σ (.error f) σ' → rule σ (.error f) "" σ')
    (hg : ∀ v, Performs (g v) fun σ' r out σ'' => ∀ σ, Evaluates e σ (.ok v) σ' → rule σ r out σ'') :
    Performs (Effect.onEnvironment e.evaluate >>= g) rule := by
  intro m hm hs
  obtain ⟨r, env', hx, henv', hr⟩ := he m.environment hm
  have hx := ending_onEnvironment hx
  cases r with
  | error f =>
      refine ⟨_, "", env', m.moves, (ending_bind_error hx).trans ?_, henv', hfault _ _ _ hr⟩
      rw [Sink.write_empty hs]
  | ok v =>
      obtain ⟨r, out, env'', moves, hx', henv'', hr'⟩ :=
        hg v { m with environment := env' } henv' hs
      exact ⟨r, out, env'', moves, (ending_bind_ok hx).trans hx', henv'', hr' _ hr⟩

end

theorem expression_performs {e : Expr} (he : Obeys e.evaluate (Evaluates e)) :
    Performs (Stmt.expression e).execute (Executes (.expression e)) := by
  rw [Stmt.execute]
  refine performs_bind he (fun _ _ _ hr => .expressionFault hr) fun v => performs_pure.imp ?_
  rintro σ' _ _ _ ⟨rfl, rfl, rfl⟩ σ hr
  exact .expression hr

theorem print_performs {keyword : Token} {e : Expr} (he : Obeys e.evaluate (Evaluates e)) :
    Performs (Stmt.print keyword e).execute (Executes (.print keyword e)) := by
  rw [Stmt.execute]
  refine performs_bind he (fun _ _ _ hr => .printFault hr) fun v =>
    (performs_writeLine keyword v.display).imp ?_
  rintro σ' _ _ _ ⟨rfl, rfl, rfl⟩ σ hr
  exact .print hr

/-- A name is bound in the frame that is innermost behind its initializer. -/
theorem define_obeys (name : Token) (v : Value) :
    Obeys (Effect.define name v) fun σ r σ' =>
      r = .ok () ∧ σ' = Stack.define name.lexeme v σ :=
  fun _ henv => ⟨_, _, rfl, henv.define name.lexeme v, rfl, Environment.frames_define henv ..⟩

theorem declare_performs {name : Token} {initializer? : Option Expr}
    (he : ∀ e, initializer? = some e → Obeys e.evaluate (Evaluates e)) :
    Performs (Stmt.declare name initializer?).execute (Executes (.declare name initializer?)) := by
  rw [Stmt.execute]
  have hdeclare : Obeys (initialValue initializer? >>= Effect.define name) fun σ r σ' =>
      Executes (.declare name initializer?) σ r "" σ' := by
    cases initializer? with
    | none =>
        refine obeys_bind (obeys_pure Value.nil) (by rintro σ f σ' ⟨⟨⟩, -⟩) fun v =>
          (define_obeys name v).imp ?_
        rintro σ' _ _ ⟨rfl, rfl⟩ σ ⟨hv, rfl⟩
        cases hv
        exact .declareNil name _
    | some e =>
        refine obeys_bind (he e rfl) (fun _ _ _ hr => .declareFault hr) fun v =>
          (define_obeys name v).imp ?_
        rintro σ' _ _ ⟨rfl, rfl⟩ σ hr
        exact .declare hr
  refine (performs_onEnvironment hdeclare).imp ?_
  rintro σ r _ σ' ⟨rfl, hr⟩
  exact hr

/-- The scope of a block is the frame on top of the stack, until the block is left. -/
theorem block_performs {body : List Stmt}
    (h : Performs (Stmt.executeAll body) (ExecutesAll body)) :
    Performs (Stmt.block body).execute (Executes (.block body)) := by
  rw [Stmt.execute]
  intro m hm hs
  obtain ⟨r, out, env', moves, hx, henv', hr⟩ := h m.enter hm.enter hs
  replace hr : ExecutesAll body (Frame.empty :: m.environment.frames) r out env'.frames := by
    rw [← Environment.frames_enter]
    exact hr
  -- The block leaves the stack as high as it found it, so the innermost frame is its own.
  have hlen := hr.length_eq
  obtain ⟨inner, σ', hσ'⟩ : ∃ inner σ', env'.frames = inner :: σ' :=
    List.exists_cons_of_length_eq_add_one hlen
  rw [hσ', List.length_cons, List.length_cons, Environment.length_frames] at hlen
  have hdepth : env'.depth = m.environment.current + 2 := by
    rw [← Environment.length_frames, hσ', List.length_cons, hlen, ← hm.current_succ]
  have hleft : (env'.leaveTo m.environment.current).frames = σ' := by
    rw [Environment.frames_leaveTo, Stack.keep, Environment.length_frames, hdepth, hσ']
    simp
  have hlt : m.environment.current < env'.depth :=
    hdepth ▸ Nat.lt_add_of_pos_right Nat.two_pos
  refine ⟨r, out, _, _, Effect.ending_inScope hx, henv'.leaveTo hlt, ?_⟩
  rw [hleft]
  exact .block (hσ' ▸ hr)

/-- One branch is run, or none, behind the condition. -/
theorem conditional_performs {c : Expr} {s : Stmt} {alternative? : Option Stmt}
    (hc : Obeys c.evaluate (Evaluates c)) (hs : Performs s.execute (Executes s))
    (ht : ∀ t, alternative? = some t → Performs t.execute (Executes t)) :
    Performs (Stmt.conditional c s alternative?).execute
      (Executes (.conditional c s alternative?)) := by
  rw [Stmt.execute.eq_def]
  refine performs_bind hc (fun _ _ _ hr => .conditionFault hr) fun v => ?_
  cases hv : v.truthy with
  | true => exact hs.imp fun _ _ _ _ hr _ h => .consequent h (truthy_iff.1 hv) hr
  | false =>
      cases alternative? with
      | none =>
          refine performs_pure.imp ?_
          rintro σ' _ _ _ ⟨rfl, rfl, rfl⟩ σ h
          exact .neither h (not_truthy_iff.1 hv)
      | some t =>
          exact (ht t rfl).imp fun _ _ _ _ hr _ h => .alternative h (not_truthy_iff.1 hv) hr

/-- A list goes on behind a result, and stops behind a fault. -/
theorem cons_performs {s : Stmt} {ss : List Stmt} (hs : Performs s.execute (Executes s))
    (hss : Performs (Stmt.executeAll ss) (ExecutesAll ss)) :
    Performs (Stmt.executeAll (s :: ss)) (ExecutesAll (s :: ss)) := by
  rw [Stmt.executeAll]
  intro m hm hlimit
  obtain ⟨r, out, env', moves, hx, henv', hr⟩ := hs m hm hlimit
  cases r with
  | error f => exact ⟨_, out, env', moves, ending_bind_error hx, henv', .fault hr⟩
  | ok _ =>
      obtain ⟨r, out', env'', moves', hx', henv'', hr'⟩ :=
        hss ⟨env', m.sink.write out, moves⟩ henv' hlimit
      refine ⟨r, out ++ out', env'', moves', (ending_bind_ok hx).trans ?_, henv'', .cons hr hr'⟩
      rw [hx', Sink.write_append hlimit]

mutual

/-- A statement obeys the rules. -/
theorem execute_performs : ∀ s : Stmt, s.Shaped → Performs s.execute (Executes s)
  | .expression e, h => expression_performs (evaluate_obeys e h)
  | .print _ e, h => print_performs (evaluate_obeys e h.2)
  | .declare _ none, _ => declare_performs (by rintro e ⟨⟩)
  | .declare _ (some e), h => declare_performs (by rintro _ ⟨⟩; exact evaluate_obeys e h.2)
  | .block body, h => block_performs (executeAll_performs body h)
  | .conditional c s none, h =>
      conditional_performs (evaluate_obeys c h.1) (execute_performs s h.2.1) (by rintro t ⟨⟩)
  | .conditional c s (some t), h =>
      conditional_performs (evaluate_obeys c h.1) (execute_performs s h.2.1)
        (by rintro _ ⟨⟩; exact execute_performs t h.2.2.2.2.1)

/-- A list of statements obeys the rules. -/
theorem executeAll_performs :
    ∀ ss : List Stmt, Stmt.AllShaped ss → Performs (Stmt.executeAll ss) (ExecutesAll ss)
  | [], _ => by
      refine performs_pure.imp ?_
      rintro σ _ _ _ ⟨rfl, rfl, rfl⟩
      exact .nil _
  | s :: ss, h => cons_performs (execute_performs s h.1) (executeAll_performs ss h.2)

end

/-! ### Programs -/

/-- A stack of one frame is that of a global scope. -/
theorem exists_globals_of_length_frames {env : Environment} (h : env.Nested)
    (hlen : env.frames.length = 1) :
    ∃ globals : Bindings, env = ⟨[⟨globals, none⟩], Environment.globalScope⟩ := by
  rw [Environment.length_frames, Environment.depth] at hlen
  obtain ⟨⟨globals, enclosing?⟩, hs⟩ := List.length_eq_one_iff.1 hlen
  have hnone : enclosing? = none := h.enclosing 0 ⟨globals, enclosing?⟩ (by rw [hs]; rfl)
  have hcurrent : env.current = 0 := by
    have := h.current_succ
    rw [Environment.depth, hlen] at this
    exact Nat.succ.inj this
  obtain ⟨scopes, current⟩ := env
  cases hs
  cases hnone
  cases hcurrent
  exact ⟨globals, rfl⟩

end Lox.BigStep
