import Lox.Proofs.Scope.Stack

/-!
# Proofs — Scope — What stays of an environment

`Environment.Framed declared assigned e e'` bounds what may have become of the scopes `e` by the
time they are `e'`.  No scope came or went, none was linked anew, and the same one is current.  No
scope lost a name; the current one may have gained names in `declared`, all others gained none; and a
name stands for another value only if it is in `assigned`, or is one of `declared` and stands in the
current scope.

Binding and rebinding a name are such changes (`framed_define`, `framed_assign?`), such changes add
up (`Framed.trans`), and what happens in a scope of its own is one, of which the declarations are
forgotten (`Framed.leave`).
-/

namespace Lox

/-- A name is bound once it has been bound, and all others are bound if they were. -/
theorem Bindings.holds_put (b : Bindings) (name other : String) (v : Value) :
    (b.put name v).holds other = (decide (name = other) || b.holds other) := by
  rw [holds, value?_put]
  by_cases h : name = other
  · simp [h]
  · simp [h, holds]

/-! ### One scope -/

/-- A scope has lost no name and gained none but `declared`; and its names stand for what they stood
for, but for `declared` and `assigned`. -/
structure Scope.Framed (declared assigned : List String) (s s' : Scope) : Prop where
  enclosing : s'.enclosing? = s.enclosing?
  kept : ∀ name, s.bindings.holds name → s'.bindings.holds name
  gained : ∀ name, s'.bindings.holds name → s.bindings.holds name ∨ name ∈ declared
  unchanged : ∀ name, name ∉ declared → name ∉ assigned →
    s'.bindings.value? name = s.bindings.value? name

namespace Scope.Framed

variable {declared declared' assigned assigned' : List String} {s s' s'' : Scope}

theorem refl (declared assigned : List String) (s : Scope) : Framed declared assigned s s where
  enclosing := rfl
  kept := fun _ h => h
  gained := fun _ h => .inl h
  unchanged := fun _ _ _ => rfl

theorem trans (h : Framed declared assigned s s') (h' : Framed declared assigned s' s'') :
    Framed declared assigned s s'' where
  enclosing := h'.enclosing.trans h.enclosing
  kept := fun name hn => h'.kept name (h.kept name hn)
  gained := by
    intro name hn
    rcases h'.gained name hn with hn | hn
    · exact h.gained name hn
    · exact .inr hn
  unchanged := fun name hd ha => (h'.unchanged name hd ha).trans (h.unchanged name hd ha)

theorem mono (h : Framed declared assigned s s') (hd : declared ⊆ declared')
    (ha : assigned ⊆ assigned') : Framed declared' assigned' s s' where
  enclosing := h.enclosing
  kept := h.kept
  gained := fun name hn => (h.gained name hn).imp_right fun hn => hd hn
  unchanged := fun name hnd hna => h.unchanged name (fun h => hnd (hd h)) fun h => hna (ha h)

/-- A name is bound that may be declared, or rebound that may be assigned. -/
theorem put {name : String} (v : Value)
    (h : name ∈ declared ∨ name ∈ assigned ∧ s.bindings.holds name) :
    Framed declared assigned s { s with bindings := s.bindings.put name v } where
  enclosing := rfl
  kept := by
    intro other ho
    rw [Bindings.holds_put, ho, Bool.or_true]
  gained := by
    intro other ho
    rw [Bindings.holds_put, Bool.or_eq_true, decide_eq_true_eq] at ho
    rcases ho with rfl | ho
    · exact h.symm.imp_left And.right
    · exact .inl ho
  unchanged := by
    intro other hd ha
    have hne : name ≠ other := by
      rintro rfl
      exact h.elim hd fun h => ha h.1
    rw [Bindings.value?_put, if_neg hne]

end Scope.Framed

/-! ### All scopes -/

namespace Environment

/-- No scope came or went, the same one is current, and each has changed within its bounds: the
current scope may have gained names, the others may not. -/
structure Framed (declared assigned : List String) (e e' : Environment) : Prop where
  current : e'.current = e.current
  depth : e'.depth = e.depth
  scope : ∀ (i : ScopeId) (s : Scope), e.scopes[i]? = some s → ∃ s' : Scope,
    e'.scopes[i]? = some s' ∧ Scope.Framed (if i = e.current then declared else []) assigned s s'

namespace Framed

variable {declared declared' assigned assigned' : List String} {e e' e'' : Environment}

theorem refl (declared assigned : List String) (e : Environment) :
    Framed declared assigned e e where
  current := rfl
  depth := rfl
  scope := fun _ s hs => ⟨s, hs, .refl _ _ s⟩

theorem trans (h : Framed declared assigned e e') (h' : Framed declared assigned e' e'') :
    Framed declared assigned e e'' where
  current := h'.current.trans h.current
  depth := h'.depth.trans h.depth
  scope := by
    intro i s hs
    obtain ⟨s', hs', hf⟩ := h.scope i s hs
    obtain ⟨s'', hs'', hf'⟩ := h'.scope i s' hs'
    rw [h.current] at hf'
    exact ⟨s'', hs'', hf.trans hf'⟩

theorem mono (h : Framed declared assigned e e') (hd : declared ⊆ declared')
    (ha : assigned ⊆ assigned') : Framed declared' assigned' e e' where
  current := h.current
  depth := h.depth
  scope := by
    intro i s hs
    obtain ⟨s', hs', hf⟩ := h.scope i s hs
    refine ⟨s', hs', hf.mono ?_ ha⟩
    split
    · exact hd
    · exact List.Subset.refl []

/-- A scope of the later environment was there before. -/
theorem exists_scope (h : Framed declared assigned e e') {i : ScopeId} {s' : Scope}
    (hs' : e'.scopes[i]? = some s') : ∃ s : Scope, e.scopes[i]? = some s ∧
      Scope.Framed (if i = e.current then declared else []) assigned s s' := by
  have hi : i < e.scopes.length := by
    have := (List.getElem?_eq_some_iff.1 hs').1
    rwa [show e'.scopes.length = e.scopes.length from h.depth] at this
  obtain ⟨s'', hs'', hf⟩ := h.scope i _ (List.getElem?_eq_getElem hi)
  rw [hs'] at hs''
  cases hs''
  exact ⟨_, List.getElem?_eq_getElem hi, hf⟩

theorem nested (h : Framed declared assigned e e') (he : e.Nested) : e'.Nested where
  current_succ := by rw [h.current, h.depth, he.current_succ]
  enclosing := by
    intro i s' hs'
    obtain ⟨s, hs, hf⟩ := h.exists_scope hs'
    rw [hf.enclosing, he.enclosing i s hs]

end Framed

variable {e e' : Environment} {name : String} {v : Value}

/-- A scope that is found to bind a name does. -/
theorem holds_of_holderFrom? {i scope : ScopeId} {budget : Nat}
    (h : e.holderFrom? name budget i = some scope) :
    ∃ s, e.scopes[scope]? = some s ∧ s.bindings.holds name := by
  induction budget generalizing i with
  | zero => cases h
  | succ budget ih =>
      rw [holderFrom?] at h
      obtain ⟨s, hs, h⟩ := Option.bind_eq_some_iff.1 h
      split at h
      · rename_i hn
        cases h
        exact ⟨s, hs, hn⟩
      · obtain ⟨outer, -, h⟩ := Option.bind_eq_some_iff.1 h
        exact ih h

/-- Binding a name in a scope changes no other scope. -/
theorem framed_putAt {declared assigned : List String} {scope : ScopeId} (v : Value)
    (h : ∀ s, e.scopes[scope]? = some s →
      name ∈ (if scope = e.current then declared else []) ∨
        name ∈ assigned ∧ s.bindings.holds name) :
    Framed declared assigned e (e.putAt scope name v) where
  current := rfl
  depth := List.length_modify ..
  scope := by
    intro i s hs
    rw [putAt, List.getElem?_modify, hs]
    refine ⟨_, rfl, ?_⟩
    by_cases hi : scope = i
    · subst hi
      simpa using Scope.Framed.put v (h s hs)
    · simpa [hi] using Scope.Framed.refl _ _ s

theorem framed_define (e : Environment) (name : String) (v : Value) :
    Framed [name] [] e (e.define name v) :=
  framed_putAt v fun _ _ => .inl (by simp)

/-- A name is rebound where it is bound. -/
theorem framed_assign? (h : e.assign? name v = some e') : Framed [] [name] e e' := by
  obtain ⟨scope, hscope, h⟩ := Option.bind_eq_some_iff.1 h
  cases h
  obtain ⟨s, hs, hn⟩ := holds_of_holderFrom? hscope
  refine framed_putAt v fun s' hs' => .inr ⟨List.mem_singleton_self name, ?_⟩
  rw [hs] at hs'
  cases hs'
  exact hn

/-- What was declared in a scope of its own is gone when it is left. -/
theorem Framed.leave {declared assigned : List String} (he : e.Nested)
    (h : Framed declared assigned e.enter e') : Framed [] assigned e (e'.leaveTo e.current) where
  current := rfl
  depth := by
    have hlen : e'.scopes.length = e.scopes.length + 1 := by
      simpa [Environment.depth, Environment.enter] using h.depth
    rw [Environment.depth, Environment.leaveTo, List.length_take, hlen, he.current_succ]
    exact Nat.min_eq_left (Nat.le_succ _)
  scope := by
    intro i s hs
    have hi : i < e.depth := (List.getElem?_eq_some_iff.1 hs).1
    obtain ⟨s', hs', hf⟩ := h.scope i s (by rwa [Environment.enter, List.getElem?_append_left hi])
    refine ⟨s', ?_, ?_⟩
    · rwa [Environment.leaveTo, List.getElem?_take_of_lt (he.current_succ ▸ hi)]
    · rw [if_neg (show i ≠ e.enter.current from Nat.ne_of_lt hi)] at hf
      rwa [ite_self]

end Environment

end Lox
