import Lox.Number.Numeral

/-!
# Values

The values of the language, which are also what a literal token stands for: nil, truth values,
doubles and strings. A value has three texts: `display` is what `print` writes, `listing` is how a
literal stands in a token list, and `form` is how it stands in a printed tree.
-/

namespace Lox

/-- A value. -/
inductive Value where
  | nil
  | bool (b : Bool)
  | number (x : Float)
  | string (s : String)

namespace Value

/-- Equality without coercion: values of two kinds are never equal, and numbers compare as doubles
do, so that NaN differs from itself and the two zeros are equal. -/
def equal : Value → Value → Bool
  | nil, nil => true
  | bool a, bool b => a == b
  | number x, number y => x == y
  | string s, string t => s == t
  | _, _ => false

instance : BEq Value := ⟨equal⟩

/-- Everything but nil and `false` is truthy. -/
def truthy : Value → Bool
  | nil => false
  | bool b => b
  | _ => true

/-- The text of a value whose numbers are written in a given layout. -/
def textWith (layout : Number.Layout) : Value → String
  | nil => "nil"
  | bool true => "true"
  | bool false => "false"
  | number x => layout.text x
  | string s => s

/-- The text that `print` writes for a value. -/
def display (v : Value) : String := v.textWith .display

/-- The text of a literal in a token list. -/
def listing (v : Value) : String := v.textWith .listing

/-- The text of a literal in a printed tree, where strings stand between quotes. -/
def form : Value → String
  | string s => "\"" ++ s ++ "\""
  | v => v.textWith .plain

end Value

end Lox
