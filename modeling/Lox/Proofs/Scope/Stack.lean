import Lox.Scope.Environment

/-!
# Proofs — Scope — The scopes as a stack

An environment numbers its scopes and links each to the one around it.  A `Stack` knows no numbers:
it is a list of frames, the innermost first, and a frame is a function from names to values.

`Environment.frames` is the stack that an environment stands for.  It is one as long as the
environment is `Nested`: the current scope is the last one, and each scope is enclosed by the one
before it.  Every operation keeps an environment nested and does to its frames what the operation
of the stack does (`value?_eq`, `assign?_cases`, `frames_define`, `frames_enter`, `frames_leaveTo`).
-/

namespace Lox

/-! ### Frames and stacks -/

/-- What names stand for in one scope. -/
abbrev Frame := String → Option Value

namespace Frame

/-- No name stands for anything. -/
def empty : Frame := fun _ => none

/-- A name stands for a value, all others for what they stood for. -/
def bind (frame : Frame) (name : String) (v : Value) : Frame :=
  fun other => if name = other then some v else frame other

end Frame

/-- Frames inside one another, the innermost first. -/
abbrev Stack := List Frame

namespace Stack

/-- The value of a name in the innermost frame that binds it. -/
def value? (σ : Stack) (name : String) : Option Value := σ.findSome? fun frame => frame name

/-- Binds a name in the innermost frame. -/
def define (name : String) (v : Value) : Stack → Stack
  | [] => []
  | frame :: σ => frame.bind name v :: σ

/-- Rebinds a name in the innermost frame that binds it, if one does. -/
def assign? (name : String) (v : Value) : Stack → Option Stack
  | [] => none
  | frame :: σ =>
    if (frame name).isSome then some (frame.bind name v :: σ)
    else (assign? name v σ).map (frame :: ·)

/-- Keeps so many of the outermost frames. -/
def keep (count : Nat) (σ : Stack) : Stack := σ.drop (σ.length - count)

variable {inner outer : Stack} {frame : Frame} {name : String} {v w : Value}

/-- A name that no frame binds has no value. -/
theorem value?_eq_none (h : ∀ f ∈ outer, f name = none) : value? outer name = none :=
  List.findSome?_eq_none_iff.2 h

/-- A name has its value in the first frame that binds it. -/
theorem value?_append (h : ∀ f ∈ inner, f name = none) (hf : frame name = some w) :
    value? (inner ++ frame :: outer) name = some w := by
  rw [value?, List.findSome?_append, List.findSome?_eq_none_iff.2 h, List.findSome?_cons, hf]
  rfl

/-- A name that no frame binds cannot be rebound. -/
theorem assign?_eq_none (h : ∀ f ∈ outer, f name = none) : assign? name v outer = none := by
  induction outer with
  | nil => rfl
  | cons frame outer ih =>
      rw [assign?, h frame List.mem_cons_self, ih fun f hf => h f (List.mem_cons_of_mem _ hf)]
      rfl

/-- A name is rebound in the first frame that binds it. -/
theorem assign?_append (h : ∀ f ∈ inner, f name = none) (hf : frame name = some w) :
    assign? name v (inner ++ frame :: outer) = some (inner ++ frame.bind name v :: outer) := by
  induction inner with
  | nil => rw [List.nil_append, assign?, hf]; rfl
  | cons f inner ih =>
      rw [List.cons_append, assign?, h f List.mem_cons_self,
        ih fun g hg => h g (List.mem_cons_of_mem _ hg)]
      rfl

theorem length_define (name : String) (v : Value) (σ : Stack) :
    (define name v σ).length = σ.length := by
  cases σ <;> rfl

theorem length_assign? {σ σ' : Stack} (h : assign? name v σ = some σ') : σ'.length = σ.length := by
  induction σ generalizing σ' with
  | nil => cases h
  | cons frame σ ih =>
      rw [assign?] at h
      split at h
      · cases h
        rfl
      · obtain ⟨σ₁, h₁, rfl⟩ := Option.map_eq_some_iff.1 h
        rw [List.length_cons, List.length_cons, ih h₁]

end Stack

/-! ### The stack of an environment -/

/-- What names stand for in a scope. -/
def Scope.frame (s : Scope) : Frame := s.bindings.value?

theorem Scope.frame_put (s : Scope) (name : String) (v : Value) :
    frame { s with bindings := s.bindings.put name v } = s.frame.bind name v := by
  funext other
  exact s.bindings.value?_put name other v

namespace Environment

/-- The scopes from the last to the first, numbers and links forgotten. -/
def frames (e : Environment) : Stack := (e.scopes.map Scope.frame).reverse

/-- The scope around a scope, when scopes are nested in the order of their numbers. -/
def around? : ScopeId → Option ScopeId
  | 0 => none
  | scope + 1 => some scope

/-- The current scope is the last one, and each scope is enclosed by the one before it. -/
structure Nested (e : Environment) : Prop where
  current_succ : e.current + 1 = e.depth
  enclosing : ∀ i s, e.scopes[i]? = some s → s.enclosing? = around? i

variable {e : Environment} {name : String} {v : Value}

/-- A global scope alone is nested. -/
theorem nested_singleton (globals : Bindings) : Nested ⟨[⟨globals, none⟩], globalScope⟩ where
  current_succ := rfl
  enclosing := by
    intro i s h
    cases i with
    | zero => cases h; rfl
    | succ i => simp at h

theorem length_frames (e : Environment) : e.frames.length = e.depth := by
  rw [frames, List.length_reverse, List.length_map, depth]

/-! ### Reading and rebinding -/

/-- A step of the search for a name. -/
theorem holderFrom?_succ {s : Scope} {i budget : Nat} (hs : e.scopes[i]? = some s) :
    e.holderFrom? name (budget + 1) i =
      if (s.frame name).isSome then some i else s.enclosing?.bind (e.holderFrom? name budget) := by
  rw [holderFrom?, hs]
  rfl

/-- The search for a name looks at a scope and at all before it, from the last to the first. -/
theorem holderFrom?_cases (h : e.Nested) (name : String) {i budget : Nat} (hb : i < budget)
    (hi : i < e.scopes.length) :
    (e.holderFrom? name budget i = none ∧ ∀ s ∈ e.scopes.take (i + 1), s.frame name = none) ∨
      ∃ outer s inner w, e.scopes.take (i + 1) = outer ++ s :: inner ∧
        e.holderFrom? name budget i = some outer.length ∧ s.frame name = some w ∧
        ∀ t ∈ inner, t.frame name = none := by
  induction i using Nat.strongRecOn generalizing budget with
  | ind i ih =>
      obtain ⟨budget, rfl⟩ : ∃ b, budget = b + 1 := ⟨budget - 1, by omega⟩
      -- The scope that is looked at is the last of those up to it, so its frame comes first.
      have hs : e.scopes[i]? = some e.scopes[i] := List.getElem?_eq_getElem hi
      have htake : e.scopes.take (i + 1) = e.scopes.take i ++ [e.scopes[i]] :=
        (List.take_append_getElem hi).symm
      rw [holderFrom?_succ hs, htake]
      cases hf : (e.scopes[i]).frame name with
      | some w =>
          refine .inr ⟨e.scopes.take i, e.scopes[i], [], w, rfl, ?_, hf, by simp⟩
          rw [List.length_take, Nat.min_eq_left (Nat.le_of_lt hi)]
          rfl
      | none =>
          -- Not bound here: the search goes on in the scope before, if there is one.
          rw [h.enclosing i _ hs]
          cases i with
          | zero => exact .inl ⟨rfl, by simp [hf]⟩
          | succ i =>
              rcases ih i (Nat.lt_succ_self i) (Nat.lt_of_succ_lt_succ hb)
                  (Nat.lt_of_succ_lt hi) with
                ⟨hnone, hall⟩ | ⟨outer, s, inner, w, hsplit, hsome, hw, hinner⟩
              · refine .inl ⟨hnone, fun s hmem => ?_⟩
                rcases List.mem_append.1 hmem with hmem | hmem
                · exact hall s hmem
                · rw [List.mem_singleton.1 hmem, hf]
              · refine .inr ⟨outer, s, inner ++ [e.scopes[i + 1]], w, ?_, hsome, hw, fun t ht => ?_⟩
                · rw [hsplit, List.append_assoc, List.cons_append]
                · rcases List.mem_append.1 ht with ht | ht
                  · exact hinner t ht
                  · rw [List.mem_singleton.1 ht, hf]

/-- A name is bound nowhere, or in a last scope that binds it. -/
theorem holder?_cases (h : e.Nested) (name : String) :
    (e.holder? name = none ∧ ∀ f ∈ e.frames, f name = none) ∨
      ∃ outer s inner w, e.scopes = outer ++ s :: inner ∧ e.holder? name = some outer.length ∧
        s.frame name = some w ∧ ∀ f ∈ (inner.map Scope.frame).reverse, f name = none := by
  have hlt : e.current < e.depth := Nat.lt_of_lt_of_eq (Nat.lt_succ_self _) h.current_succ
  have hall : e.scopes.take (e.current + 1) = e.scopes := by
    rw [h.current_succ, depth, List.take_length]
  have hcases := holderFrom?_cases h name hlt hlt
  rw [hall] at hcases
  rcases hcases with ⟨hnone, hno⟩ | ⟨outer, s, inner, w, hsplit, hsome, hw, hinner⟩
  · exact .inl ⟨hnone, by simpa [frames] using hno⟩
  · exact .inr ⟨outer, s, inner, w, hsplit, hsome, hw, by simpa using hinner⟩

/-- The frames of scopes of which one is looked at. -/
theorem frames_eq {outer inner : List Scope} {s : Scope} (h : e.scopes = outer ++ s :: inner) :
    e.frames = (inner.map Scope.frame).reverse ++ s.frame :: (outer.map Scope.frame).reverse := by
  simp [frames, h]

/-- Rebinding a name in that scope changes its frame. -/
theorem frames_putAt {outer inner : List Scope} {s : Scope} (h : e.scopes = outer ++ s :: inner)
    (name : String) (v : Value) :
    (e.putAt outer.length name v).frames =
      (inner.map Scope.frame).reverse ++
        s.frame.bind name v :: (outer.map Scope.frame).reverse := by
  have hscopes : (e.putAt outer.length name v).scopes =
      outer ++ { s with bindings := s.bindings.put name v } :: inner := by
    rw [putAt, h, List.modify_eq_take_cons_drop (by simp)]
    simp
  rw [frames_eq hscopes, Scope.frame_put]

/-- A name is read from the innermost frame that binds it. -/
theorem value?_eq (h : e.Nested) (name : String) : e.value? name = Stack.value? e.frames name := by
  rcases holder?_cases h name with ⟨hnone, hno⟩ | ⟨outer, s, inner, w, hsplit, hsome, hw, hinner⟩
  · rw [value?, hnone, Stack.value?_eq_none hno]
    rfl
  · rw [frames_eq hsplit, Stack.value?_append hinner hw, value?, hsome, ← hw]
    simp only [Option.bind_eq_bind, Option.bind_some, hsplit, List.getElem?_append_right,
      Nat.le_refl, Nat.sub_self, List.getElem?_cons_zero]
    rfl

/-- Rebinding a name somewhere leaves the scopes where they are. -/
theorem Nested.putAt (h : e.Nested) (scope : ScopeId) (name : String) (v : Value) :
    (e.putAt scope name v).Nested where
  current_succ := by
    rw [depth, Environment.putAt, List.length_modify]
    exact h.current_succ
  enclosing := by
    intro i s hs
    rw [Environment.putAt, List.getElem?_modify] at hs
    obtain ⟨t, ht, rfl⟩ := Option.map_eq_some_iff.1 hs
    rw [← h.enclosing i t ht]
    split <;> rfl

/-- A name is rebound in the innermost frame that binds it, if one does. -/
theorem assign?_cases (h : e.Nested) (name : String) (v : Value) :
    (e.assign? name v = none ∧ Stack.assign? name v e.frames = none) ∨
      ∃ e', e.assign? name v = some e' ∧ e'.Nested ∧
        Stack.assign? name v e.frames = some e'.frames := by
  rcases holder?_cases h name with ⟨hnone, hno⟩ | ⟨outer, s, inner, w, hsplit, hsome, hw, hinner⟩
  · refine .inl ⟨?_, Stack.assign?_eq_none hno⟩
    rw [assign?, hnone]
    rfl
  · refine .inr ⟨e.putAt outer.length name v, ?_, h.putAt .., ?_⟩
    · rw [assign?, hsome]
      rfl
    · rw [frames_eq hsplit, frames_putAt hsplit, Stack.assign?_append hinner hw]

/-! ### Binding, entering and leaving -/

/-- The current scope of a nested environment, behind all others. -/
theorem Nested.exists_concat (h : e.Nested) :
    ∃ outer s, e.scopes = outer ++ [s] ∧ e.current = outer.length := by
  rcases List.eq_nil_or_concat e.scopes with hnil | ⟨outer, s, hsplit⟩
  · have := h.current_succ
    simp [depth, hnil] at this
  · rw [List.concat_eq_append] at hsplit
    have := h.current_succ
    simp only [depth, hsplit, List.length_append, List.length_singleton] at this
    exact ⟨outer, s, hsplit, Nat.succ.inj this⟩

theorem Nested.define (h : e.Nested) (name : String) (v : Value) : (e.define name v).Nested :=
  h.putAt e.current name v

theorem frames_define (h : e.Nested) (name : String) (v : Value) :
    (e.define name v).frames = Stack.define name v e.frames := by
  obtain ⟨outer, s, hsplit, hcurrent⟩ := h.exists_concat
  rw [Environment.define, hcurrent, frames_putAt hsplit, frames_eq hsplit]
  rfl

theorem Nested.enter (h : e.Nested) : e.enter.Nested where
  current_succ := by simp [Environment.enter, depth]
  enclosing := by
    intro i s hs
    rw [Environment.enter] at hs
    rcases Nat.lt_trichotomy i e.depth with hlt | rfl | hgt
    · exact h.enclosing i s (by rwa [List.getElem?_append_left hlt] at hs)
    · rw [depth, List.getElem?_concat_length] at hs
      cases hs
      rw [← h.current_succ]
      rfl
    · rw [List.getElem?_eq_none (by simpa [depth] using Nat.succ_le_of_lt hgt)] at hs
      cases hs

theorem frames_enter (e : Environment) : e.enter.frames = Frame.empty :: e.frames := by
  simp only [frames, Environment.enter, List.map_append, List.reverse_append]
  rfl

theorem Nested.leaveTo (h : e.Nested) {scope : ScopeId} (hs : scope < e.depth) :
    (e.leaveTo scope).Nested where
  current_succ := by
    simp only [Environment.leaveTo, depth, List.length_take]
    exact (Nat.min_eq_left hs).symm
  enclosing := by
    intro i s hi
    rw [Environment.leaveTo, List.getElem?_take] at hi
    split at hi
    · exact h.enclosing i s hi
    · cases hi

theorem frames_leaveTo (e : Environment) (scope : ScopeId) :
    (e.leaveTo scope).frames = Stack.keep (scope + 1) e.frames := by
  simp only [frames, Environment.leaveTo, Stack.keep, List.map_take, List.length_reverse]
  rw [List.reverse_take]

end Environment

end Lox
