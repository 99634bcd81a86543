import Lox.Scope.Bindings

/-!
# Scopes — Environments

The scopes of a running program. Scopes are numbered in the order in which they were opened, the
global one being number zero; each but that one knows the scope that encloses it. One scope is
current. A name means the binding in the nearest scope that has one, seen from the current scope
outwards.

Leaving to a scope drops every scope opened after it. As long as one leaves only to scopes that are
there, the current scope is the last one and each scope is enclosed by the one before it.
-/

namespace Lox

/-- The number of a scope. -/
abbrev ScopeId := Nat

/-- A scope: what it binds, and the scope around it. -/
structure Scope where
  bindings : Bindings
  enclosing? : Option ScopeId

/-- The scopes, the global one first, and the current one. -/
structure Environment where
  scopes : List Scope
  current : ScopeId

namespace Environment

/-- The number of the global scope. -/
def globalScope : ScopeId := 0

/-- The global scope alone, without names. -/
def initial : Environment := ⟨[⟨.empty, none⟩], globalScope⟩

/-- The number of scopes. -/
def depth (e : Environment) : Nat := e.scopes.length

/-- Whether the current scope is there; it is not after leaving to a scope that had been dropped. -/
def isLive (e : Environment) : Bool := e.current < e.depth

/-- Opens a scope enclosed by the current one and makes it current. -/
def enter (e : Environment) : Environment :=
  ⟨e.scopes ++ [⟨.empty, some e.current⟩], e.depth⟩

/-- Drops every scope behind this one and makes it current. -/
def leaveTo (e : Environment) (scope : ScopeId) : Environment :=
  ⟨e.scopes.take (scope + 1), scope⟩

/-- Binds a name in a given scope. -/
def putAt (e : Environment) (scope : ScopeId) (name : String) (v : Value) : Environment :=
  { e with scopes := e.scopes.modify scope fun s => { s with bindings := s.bindings.put name v } }

/-- Binds a name in the current scope. -/
def define (e : Environment) (name : String) (v : Value) : Environment := e.putAt e.current name v

/-- The nearest scope that binds a name, from a given scope outwards, at most `budget` scopes being
looked at. -/
def holderFrom? (e : Environment) (name : String) : Nat → ScopeId → Option ScopeId
  | 0, _ => none
  | budget + 1, scope => do
    let s ← e.scopes[scope]?
    if s.bindings.holds name then some scope
    else holderFrom? e name budget (← s.enclosing?)

/-- The nearest scope that binds a name. -/
def holder? (e : Environment) (name : String) : Option ScopeId :=
  e.holderFrom? name e.depth e.current

/-- The value of a name. -/
def value? (e : Environment) (name : String) : Option Value := do
  let scope ← e.holder? name
  (← e.scopes[scope]?).bindings.value? name

/-- Rebinds a name in the nearest scope that binds it. A name that is not bound stays so. -/
def assign? (e : Environment) (name : String) (v : Value) : Option Environment := do
  return e.putAt (← e.holder? name) name v

/-- Whether two scopes have the same surroundings and the same bindings. -/
def sameScope (s t : Scope) : Bool := s.enclosing? == t.enclosing? && s.bindings.same t.bindings

/-- Whether two environments agree scope by scope and have the same current scope. -/
def same (d e : Environment) : Bool :=
  d.current == e.current && d.depth == e.depth &&
    (d.scopes.zip e.scopes).all fun (s, t) => sameScope s t

end Environment

end Lox
