import Lox.Proofs.Execution.Ending
import Lox.Proofs.Scope.Stack

/-!
# Proofs — Scope — Histories

**Scopes** (`history_stacked`).  Whatever is done with an environment, its scopes are a stack: as
long as scopes are left only for scopes that are there, no matter how many are left at once, each
action answers what the same action on a stack of frames answers, and leaves the frames that it
leaves there.

An environment looks a name up by going from scope to scope, along links that could lead anywhere,
and stops at the latest when it has looked at as many as there are.  `Finds` is the search without
that bound and without a rule for a scope that is not there.  In a nested environment it has an
answer, which is the one that is looked up (`Nested.finds`), so that the search ends by itself and
meets no such scope.
-/

namespace Lox

open Effect (ending ending_bind_ok ending_bind_error ending_lookUp ending_lookUp_none ending_assign
  ending_assign_none)

namespace Environment

/-! ### Looking up -/

/-- The search for a name that begins at a scope: it ends at the first scope that binds the name, or
at one that is not enclosed. -/
inductive Finds (e : Environment) (name : String) : ScopeId → Option ScopeId → Prop where
  | here {i : ScopeId} {s : Scope} {v : Value} (hs : e.scopes[i]? = some s)
      (hv : s.bindings.value? name = some v) : Finds e name i (some i)
  | outside {i j : ScopeId} {s : Scope} {r : Option ScopeId} (hs : e.scopes[i]? = some s)
      (hv : s.bindings.value? name = none) (hj : s.enclosing? = some j) (h : Finds e name j r) :
      Finds e name i r
  | nowhere {i : ScopeId} {s : Scope} (hs : e.scopes[i]? = some s)
      (hv : s.bindings.value? name = none) (hj : s.enclosing? = none) : Finds e name i none

/-- A search that looks at more scopes than there are in front of it is the one without a bound. -/
theorem Nested.finds_holderFrom? {e : Environment} (h : e.Nested) (name : String) {i budget : Nat}
    (hb : i < budget) (hi : i < e.scopes.length) :
    e.Finds name i (e.holderFrom? name budget i) := by
  induction i generalizing budget with
  | zero =>
      obtain ⟨budget, rfl⟩ := Nat.exists_eq_succ_of_ne_zero (Nat.ne_of_gt hb)
      have hs : e.scopes[0]? = some e.scopes[0] := List.getElem?_eq_getElem hi
      rw [holderFrom?_succ hs, h.enclosing 0 _ hs]
      cases hv : (e.scopes[0]).frame name with
      | some v => exact .here hs hv
      | none => exact .nowhere hs hv (h.enclosing 0 _ hs)
  | succ i ih =>
      obtain ⟨budget, rfl⟩ := Nat.exists_eq_succ_of_ne_zero (Nat.ne_of_gt (Nat.zero_lt_of_lt hb))
      have hs : e.scopes[i + 1]? = some e.scopes[i + 1] := List.getElem?_eq_getElem hi
      rw [holderFrom?_succ hs, h.enclosing (i + 1) _ hs]
      cases hv : (e.scopes[i + 1]).frame name with
      | some v => exact .here hs hv
      | none =>
          have hfinds := ih (Nat.lt_of_succ_lt_succ hb) (Nat.lt_of_succ_lt hi)
          exact .outside hs hv (h.enclosing (i + 1) _ hs) hfinds

theorem Nested.finds {e : Environment} (h : e.Nested) (name : String) :
    e.Finds name e.current (e.holder? name) := by
  have hlt : e.current < e.depth := Nat.lt_of_lt_of_eq (Nat.lt_succ_self _) h.current_succ
  exact h.finds_holderFrom? name hlt hlt

/-! ### Actions -/

/-- What may be done with an environment. -/
inductive Action where
  | define (name : String) (v : Value)
  | get (name : Token)
  | assign (name : Token) (v : Value)
  | enter
  | leaveTo (scope : ScopeId)

/-- What an action answers. -/
inductive Reply where
  | done
  | value (v : Value)
  /-- A scope was entered from this one. -/
  | entered (outer : ScopeId)

/-- An action as an effect. -/
def Action.effect : Action → Effect Environment Reply
  | define name v => fun e => .ok .done (e.define name v)
  | get name => do return .value (← Effect.lookUp name)
  | assign name v => do
    Effect.assign name v
    return .done
  | enter => fun e => .ok (.entered e.current) e.enter
  | leaveTo scope => fun e => .ok .done (e.leaveTo scope)

/-- What an action answers, and the environment that it leaves. -/
def act (e : Environment) (a : Action) : Except Fault Reply × Environment := ending a.effect e

/-- The answers of actions that are done one after the other, each with what it leaves. -/
def history (e : Environment) : List Action → List (Except Fault Reply × Environment)
  | [] => []
  | a :: actions => e.act a :: history (e.act a).2 actions

/-- A scope can be left for another one if there are more scopes than the number of that one. -/
def Action.Possible (depth : Nat) : Action → Prop
  | leaveTo scope => scope < depth
  | _ => True

instance (depth : Nat) : DecidablePred (Action.Possible depth)
  | .leaveTo scope => inferInstanceAs (Decidable (scope < depth))
  | .define _ _ | .get _ | .assign _ _ | .enter => instDecidableTrue

/-- Each action is possible when its turn has come. -/
def Permits (e : Environment) : List Action → Prop
  | [] => True
  | a :: actions => a.Possible e.depth ∧ Permits (e.act a).2 actions

instance decidablePermits (e : Environment) : DecidablePred e.Permits
  | [] => instDecidableTrue
  | a :: actions =>
    have := decidablePermits (e.act a).2 actions
    inferInstanceAs (Decidable (_ ∧ _))

end Environment

open Environment (Action Reply)

namespace Stack

/-- What an action answers on a stack, and the stack that it leaves. -/
def act (σ : Stack) : Action → Except Fault Reply × Stack
  | .define name v => (.ok .done, σ.define name v)
  | .get name =>
    match σ.value? name.lexeme with
    | some v => (.ok (.value v), σ)
    | none => (.error ⟨.undefinedVariable name.lexeme, name⟩, σ)
  | .assign name v =>
    match σ.assign? name.lexeme v with
    | some σ' => (.ok .done, σ')
    | none => (.error ⟨.undefinedVariable name.lexeme, name⟩, σ)
  | .enter => (.ok (.entered (σ.length - 1)), Frame.empty :: σ)
  | .leaveTo scope => (.ok .done, σ.keep (scope + 1))

/-- The answers of actions that are done one after the other, each with the stack that it leaves. -/
def history (σ : Stack) : List Action → List (Except Fault Reply × Stack)
  | [] => []
  | a :: actions => σ.act a :: history (σ.act a).2 actions

end Stack

namespace Environment

variable {e : Environment} {a : Action}

/-- On nested scopes, an action does what it does on their frames, and leaves nested scopes. -/
theorem act_stacked (h : e.Nested) (ha : a.Possible e.depth) :
    (e.act a).2.Nested ∧ ((e.act a).1, (e.act a).2.frames) = e.frames.act a := by
  cases a with
  | define name v => exact ⟨h.define name v, congrArg (Prod.mk _) (frames_define h name v)⟩
  | get name =>
      rw [Stack.act, ← value?_eq h, act, Action.effect]
      cases hv : e.value? name.lexeme with
      | some v =>
          rw [ending_bind_ok (ending_lookUp hv)]
          exact ⟨h, rfl⟩
      | none =>
          rw [ending_bind_error (ending_lookUp_none hv)]
          exact ⟨h, rfl⟩
  | assign name v =>
      rw [Stack.act, act, Action.effect]
      rcases assign?_cases h name.lexeme v with ⟨hnone, hσ⟩ | ⟨e', hsome, hnested, hσ⟩
      · rw [ending_bind_error (ending_assign_none hnone), hσ]
        exact ⟨h, rfl⟩
      · rw [ending_bind_ok (ending_assign hsome), hσ]
        exact ⟨hnested, rfl⟩
  | enter =>
      have houter : e.current = e.frames.length - 1 := by
        rw [length_frames, ← h.current_succ, Nat.add_sub_cancel]
      rw [Stack.act, ← houter, ← frames_enter]
      exact ⟨h.enter, rfl⟩
  | leaveTo scope => exact ⟨h.leaveTo ha, congrArg (Prod.mk _) (frames_leaveTo e scope)⟩

/-- An action that ends with a fault leaves everything as it was. -/
theorem eq_of_act_error {f : Fault} {e' : Environment} (h : e.act a = (.error f, e')) : e' = e := by
  cases a with
  | define | enter | leaveTo => cases h
  | get name =>
      rw [act, Action.effect] at h
      cases hv : e.value? name.lexeme with
      | some v =>
          rw [ending_bind_ok (ending_lookUp hv)] at h
          cases h
      | none =>
          rw [ending_bind_error (ending_lookUp_none hv)] at h
          exact (congrArg Prod.snd h).symm
  | assign name v =>
      rw [act, Action.effect] at h
      cases hv : e.assign? name.lexeme v with
      | some e' =>
          rw [ending_bind_ok (ending_assign hv)] at h
          cases h
      | none =>
          rw [ending_bind_error (ending_assign_none hv)] at h
          exact (congrArg Prod.snd h).symm

/-- So do actions that are done one after the other. -/
theorem history_nested (h : e.Nested) {actions : List Action} (hp : e.Permits actions) :
    (∀ step ∈ e.history actions, step.2.Nested) ∧
      (e.history actions).map (fun step => (step.1, step.2.frames)) =
        e.frames.history actions := by
  induction actions generalizing e with
  | nil => exact ⟨by simp [history], rfl⟩
  | cons a actions ih =>
      obtain ⟨hnested, hstep⟩ := act_stacked h hp.1
      obtain ⟨hall, hmap⟩ := ih hnested hp.2
      rw [history, Stack.history, ← hstep, List.map_cons, hmap]
      exact ⟨List.forall_mem_cons.2 ⟨hnested, hall⟩, rfl⟩

/-- **Scopes.**  Let actions be done on a new environment, one after the other, such that scopes are
left only for scopes that are there at that moment.  Then before and behind each of them the current
scope is the last one, the global scope is not enclosed and each other scope is enclosed by the one
before it; and the search for any name ends, without meeting a scope that is not there.  Each action
answers, and leaves the frames, as on a stack that begins with an empty frame; and one that ends with
a fault changes nothing. -/
theorem history_stacked (actions : List Action) (h : initial.Permits actions) :
    (∀ e ∈ initial :: (initial.history actions).map Prod.snd,
      e.Nested ∧ ∀ name, e.Finds name e.current (e.holder? name)) ∧
    (initial.history actions).map (fun step => (step.1, step.2.frames)) =
      Stack.history [Frame.empty] actions ∧
    ∀ (e e' : Environment) (a : Action) (f : Fault), e.act a = (.error f, e') → e' = e := by
  have hinitial : initial.Nested := nested_singleton .empty
  obtain ⟨hall, hmap⟩ := history_nested hinitial h
  refine ⟨fun e he => ?_, hmap, fun e e' a f => eq_of_act_error⟩
  have hnested : e.Nested := by
    rcases List.mem_cons.1 he with rfl | he
    · exact hinitial
    · obtain ⟨step, hstep, rfl⟩ := List.mem_map.1 he
      exact hall step hstep
  exact ⟨hnested, hnested.finds⟩

/-- A name that stands nowhere in particular. -/
def mention (name : String) : Token := ⟨.identifier, name, none, 1, .point 0⟩

/-- Two scopes are entered and left at once, and a third one is entered then. -/
def skipping : List Action :=
  [.define "a" .nil, .enter, .define "a" (.bool true), .enter, .assign (mention "a") (.bool false),
    .get (mention "a"), .leaveTo 0, .enter, .get (mention "a"), .assign (mention "b") .nil]

/-- The binding in the first of the scopes is gone with it, though the number is in use again. -/
theorem history_stacked_skipping :
    initial.Permits skipping ∧ (initial.history skipping).map Prod.fst =
      [.ok .done, .ok (.entered 0), .ok .done, .ok (.entered 1), .ok .done,
        .ok (.value (.bool false)), .ok .done, .ok (.entered 0), .ok (.value .nil),
        .error ⟨.undefinedVariable "b", mention "b"⟩] := by
  have hpermits : initial.Permits skipping := by decide
  have hmap := congrArg (List.map Prod.fst) (history_stacked skipping hpermits).2.1
  rw [List.map_map] at hmap
  exact ⟨hpermits, hmap⟩

end Environment

end Lox
