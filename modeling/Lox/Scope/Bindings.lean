import Lox.Value

/-!
# Scopes — Bindings

The names that one scope binds. A name is bound at most once; binding it again replaces its value
and leaves its place.
-/

namespace Lox

/-- Names with their values. -/
structure Bindings where
  entries : List (String × Value)

namespace Bindings

/-- No names. -/
def empty : Bindings := ⟨[]⟩

/-- Entries in which a name stands for a value. -/
def putIn (name : String) (v : Value) : List (String × Value) → List (String × Value)
  | [] => [(name, v)]
  | (n, w) :: rest => if n = name then (name, v) :: rest else (n, w) :: putIn name v rest

/-- The value of a name among entries. -/
def valueIn (name : String) : List (String × Value) → Option Value
  | [] => none
  | (n, w) :: rest => if n = name then some w else valueIn name rest

/-- Binds a name, be it new or bound before. -/
def put (b : Bindings) (name : String) (v : Value) : Bindings := ⟨putIn name v b.entries⟩

/-- The value of a name. -/
def value? (b : Bindings) (name : String) : Option Value := valueIn name b.entries

/-- Whether a name is bound. -/
def holds (b : Bindings) (name : String) : Bool := (b.value? name).isSome

/-- The bound names. -/
def names (b : Bindings) : List String := b.entries.map (·.1)

/-- Whether two scopes bind the same names to equal values. The order in which they were bound does
not count, and a name that stands for NaN is the same as none. -/
def same (a b : Bindings) : Bool :=
  a.entries.length == b.entries.length &&
    a.entries.all fun (name, v) => (b.value? name).any (v == ·)

theorem valueIn_putIn (name other : String) (v : Value) (l : List (String × Value)) :
    valueIn other (putIn name v l) = if name = other then some v else valueIn other l := by
  induction l with
  | nil => rfl
  | cons entry rest ih =>
    obtain ⟨n, w⟩ := entry
    by_cases h : n = name
    · subst h
      by_cases ho : n = other <;> simp [putIn, valueIn, ho]
    · by_cases ho : n = other
      · subst ho
        simp [putIn, valueIn, h, Ne.symm h]
      · simp [putIn, valueIn, h, ho, ih]

/-- A bound name stands for its value, and all other names stand for what they stood for. -/
theorem value?_put (b : Bindings) (name other : String) (v : Value) :
    (b.put name v).value? other = if name = other then some v else b.value? other :=
  valueIn_putIn name other v b.entries

end Bindings

end Lox
