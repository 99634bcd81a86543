import Lox.Problem.Fault
import Lox.Proofs.Scope.Stack
import Lox.Tree.Basic

/-!
# Proofs — Execution — The rules of the language

The meaning of a program, without a machine: big-step rules over an immutable stack of frames.

`Evaluates e σ r σ'`: from the stack `σ`, the expression `e` ends with the value or the fault `r`
and leaves the stack `σ'`.  `Executes s σ r out σ'` says the same of a statement, which moreover
writes the text `out`, and `ExecutesAll` of a list of statements.

Each rule that needs a value has a second one beside it that hands on a fault in its place, together
with whatever was changed and written until then.  A tree with an operator that the language does
not have is given no meaning.

A program has one meaning at most (`Evaluates.unique`, `Executes.unique`), and it leaves the stack
as high as it found it (`Evaluates.length_eq`, `Executes.length_eq`).
-/

namespace Lox

/-! ### Values -/

namespace Value

/-- Everything but nil and `false` counts as true. -/
def Truthy (v : Value) : Prop := v ≠ .nil ∧ v ≠ .bool false

/-- Only values of one kind are equal; numbers are compared as doubles. -/
inductive Equals : Value → Value → Prop where
  | nil : Equals .nil .nil
  | bool (b : Bool) : Equals (.bool b) (.bool b)
  | number {x y : Float} (h : x == y) : Equals (.number x) (.number y)
  | string (s : String) : Equals (.string s) (.string s)

/-- A value is a number. -/
def IsNumber (v : Value) : Prop := ∃ x, v = .number x

/-- A value is a string. -/
def IsString (v : Value) : Prop := ∃ s, v = .string s

end Value

namespace BigStep

/-! ### Operators -/

/-- What an operator in front of an operand makes of its value. -/
inductive Unary : Token.Kind → Value → Except Fault.Cause Value → Prop where
  | notTruthy {v : Value} (h : v.Truthy) : Unary .bang v (.ok (.bool false))
  | notFalsy {v : Value} (h : ¬ v.Truthy) : Unary .bang v (.ok (.bool true))
  | negated (x : Float) : Unary .minus (.number x) (.ok (.number (-x)))
  | notNumber {v : Value} (h : ¬ v.IsNumber) : Unary .minus v (.error .operandMustBeNumber)

/-- What an operator for numbers makes of two numbers. -/
inductive Arithmetic : Token.Kind → Float → Float → Value → Prop where
  | difference (x y : Float) : Arithmetic .minus x y (.number (x - y))
  | product (x y : Float) : Arithmetic .star x y (.number (x * y))
  | quotient (x y : Float) : Arithmetic .slash x y (.number (x / y))
  | greater (x y : Float) : Arithmetic .greater x y (.bool (x > y))
  | greaterEqual (x y : Float) : Arithmetic .greaterEqual x y (.bool (x ≥ y))
  | less (x y : Float) : Arithmetic .less x y (.bool (x < y))
  | lessEqual (x y : Float) : Arithmetic .lessEqual x y (.bool (x ≤ y))

/-- The operators that take two numbers and nothing else. -/
def takesNumbers : Token.Kind → Bool
  | .minus | .star | .slash | .greater | .greaterEqual | .less | .lessEqual => true
  | _ => false

/-- What an operator between two operands makes of their values. -/
inductive Binary : Token.Kind → Value → Value → Except Fault.Cause Value → Prop where
  | equal {v w : Value} (h : v.Equals w) : Binary .equalEqual v w (.ok (.bool true))
  | notEqual {v w : Value} (h : ¬ v.Equals w) : Binary .equalEqual v w (.ok (.bool false))
  | different {v w : Value} (h : ¬ v.Equals w) : Binary .bangEqual v w (.ok (.bool true))
  | notDifferent {v w : Value} (h : v.Equals w) : Binary .bangEqual v w (.ok (.bool false))
  | sum (x y : Float) : Binary .plus (.number x) (.number y) (.ok (.number (x + y)))
  | joined (s t : String) : Binary .plus (.string s) (.string t) (.ok (.string (s ++ t)))
  | mixed {v w : Value} (hn : ¬ (v.IsNumber ∧ w.IsNumber)) (hs : ¬ (v.IsString ∧ w.IsString)) :
      Binary .plus v w (.error .operandsMustBeNumbersOrStrings)
  | numbers {kind : Token.Kind} {x y : Float} {v : Value} (h : Arithmetic kind x y v) :
      Binary kind (.number x) (.number y) (.ok v)
  | notNumbers {kind : Token.Kind} {v w : Value} (hk : takesNumbers kind)
      (h : ¬ (v.IsNumber ∧ w.IsNumber)) : Binary kind v w (.error .operandsMustBeNumbers)

/-- The left operand is the answer. -/
inductive Decides : Token.Kind → Value → Prop where
  | and {v : Value} (h : ¬ v.Truthy) : Decides .kwAnd v
  | or {v : Value} (h : v.Truthy) : Decides .kwOr v

/-- The right operand is the answer. -/
inductive Defers : Token.Kind → Value → Prop where
  | and {v : Value} (h : v.Truthy) : Defers .kwAnd v
  | or {v : Value} (h : ¬ v.Truthy) : Defers .kwOr v

/-- An answer for which a token is to be blamed, if it is none. -/
def blame (token : Token) : Except Fault.Cause Value → Except Fault Value :=
  Except.mapError fun cause => ⟨cause, token⟩

/-! ### Expressions -/

/-- What an expression ends with, and the stack that it leaves. -/
inductive Evaluates : Expr → Stack → Except Fault Value → Stack → Prop where
  | literal (v : Value) (σ : Stack) : Evaluates (.literal v) σ (.ok v) σ
  | variable {name : Token} {σ : Stack} {v : Value} (h : σ.value? name.lexeme = some v) :
      Evaluates (.variable name) σ (.ok v) σ
  | undefined {name : Token} {σ : Stack} (h : σ.value? name.lexeme = none) :
      Evaluates (.variable name) σ (.error ⟨.undefinedVariable name.lexeme, name⟩) σ
  | grouping {e : Expr} {σ σ' : Stack} {r : Except Fault Value} (h : Evaluates e σ r σ') :
      Evaluates (.grouping e) σ r σ'
  | unary {operator : Token} {e : Expr} {σ σ' : Stack} {v : Value} {a : Except Fault.Cause Value}
      (h : Evaluates e σ (.ok v) σ') (ha : Unary operator.kind v a) :
      Evaluates (.unary operator e) σ (blame operator a) σ'
  | unaryFault {operator : Token} {e : Expr} {σ σ' : Stack} {f : Fault}
      (h : Evaluates e σ (.error f) σ') : Evaluates (.unary operator e) σ (.error f) σ'
  | binary {l r : Expr} {operator : Token} {σ σ' σ'' : Stack} {v w : Value}
      {a : Except Fault.Cause Value} (hl : Evaluates l σ (.ok v) σ')
      (hr : Evaluates r σ' (.ok w) σ'') (ha : Binary operator.kind v w a) :
      Evaluates (.binary l operator r) σ (blame operator a) σ''
  | binaryLeft {l r : Expr} {operator : Token} {σ σ' : Stack} {f : Fault}
      (hl : Evaluates l σ (.error f) σ') : Evaluates (.binary l operator r) σ (.error f) σ'
  | binaryRight {l r : Expr} {operator : Token} {σ σ' σ'' : Stack} {v : Value} {f : Fault}
      (hl : Evaluates l σ (.ok v) σ') (hr : Evaluates r σ' (.error f) σ'') :
      Evaluates (.binary l operator r) σ (.error f) σ''
  | decided {l r : Expr} {operator : Token} {σ σ' : Stack} {v : Value}
      (hl : Evaluates l σ (.ok v) σ') (hd : Decides operator.kind v) :
      Evaluates (.logical l operator r) σ (.ok v) σ'
  | deferred {l r : Expr} {operator : Token} {σ σ' σ'' : Stack} {v : Value}
      {a : Except Fault Value} (hl : Evaluates l σ (.ok v) σ') (hd : Defers operator.kind v)
      (hr : Evaluates r σ' a σ'') : Evaluates (.logical l operator r) σ a σ''
  | logicalFault {l r : Expr} {operator : Token} {σ σ' : Stack} {f : Fault}
      (hl : Evaluates l σ (.error f) σ') : Evaluates (.logical l operator r) σ (.error f) σ'
  | assign {name : Token} {e : Expr} {σ σ' σ'' : Stack} {v : Value}
      (h : Evaluates e σ (.ok v) σ') (hv : Stack.assign? name.lexeme v σ' = some σ'') :
      Evaluates (.assign name e) σ (.ok v) σ''
  | unbound {name : Token} {e : Expr} {σ σ' : Stack} {v : Value} (h : Evaluates e σ (.ok v) σ')
      (hv : Stack.assign? name.lexeme v σ' = none) :
      Evaluates (.assign name e) σ (.error ⟨.undefinedVariable name.lexeme, name⟩) σ'
  | assignFault {name : Token} {e : Expr} {σ σ' : Stack} {f : Fault}
      (h : Evaluates e σ (.error f) σ') : Evaluates (.assign name e) σ (.error f) σ'

/-! ### Statements -/

mutual

/-- What a statement ends with and writes, and the stack that it leaves. -/
inductive Executes : Stmt → Stack → Except Fault Unit → String → Stack → Prop where
  | expression {e : Expr} {σ σ' : Stack} {v : Value} (h : Evaluates e σ (.ok v) σ') :
      Executes (.expression e) σ (.ok ()) "" σ'
  | expressionFault {e : Expr} {σ σ' : Stack} {f : Fault} (h : Evaluates e σ (.error f) σ') :
      Executes (.expression e) σ (.error f) "" σ'
  | print {keyword : Token} {e : Expr} {σ σ' : Stack} {v : Value}
      (h : Evaluates e σ (.ok v) σ') :
      Executes (.print keyword e) σ (.ok ()) (v.display ++ "\n") σ'
  | printFault {keyword : Token} {e : Expr} {σ σ' : Stack} {f : Fault}
      (h : Evaluates e σ (.error f) σ') : Executes (.print keyword e) σ (.error f) "" σ'
  | declareNil (name : Token) (σ : Stack) :
      Executes (.declare name none) σ (.ok ()) "" (Stack.define name.lexeme .nil σ)
  | declare {name : Token} {e : Expr} {σ σ' : Stack} {v : Value}
      (h : Evaluates e σ (.ok v) σ') :
      Executes (.declare name (some e)) σ (.ok ()) "" (Stack.define name.lexeme v σ')
  | declareFault {name : Token} {e : Expr} {σ σ' : Stack} {f : Fault}
      (h : Evaluates e σ (.error f) σ') : Executes (.declare name (some e)) σ (.error f) "" σ'
  | block {body : List Stmt} {σ σ' : Stack} {inner : Frame} {r : Except Fault Unit}
      {out : String} (h : ExecutesAll body (Frame.empty :: σ) r out (inner :: σ')) :
      Executes (.block body) σ r out σ'
  | consequent {c : Expr} {s : Stmt} {alternative? : Option Stmt} {σ σ' σ'' : Stack} {v : Value}
      {r : Except Fault Unit} {out : String} (hc : Evaluates c σ (.ok v) σ') (hv : v.Truthy)
      (hs : Executes s σ' r out σ'') : Executes (.conditional c s alternative?) σ r out σ''
  | alternative {c : Expr} {s t : Stmt} {σ σ' σ'' : Stack} {v : Value} {r : Except Fault Unit}
      {out : String} (hc : Evaluates c σ (.ok v) σ') (hv : ¬ v.Truthy)
      (ht : Executes t σ' r out σ'') : Executes (.conditional c s (some t)) σ r out σ''
  | neither {c : Expr} {s : Stmt} {σ σ' : Stack} {v : Value} (hc : Evaluates c σ (.ok v) σ')
      (hv : ¬ v.Truthy) : Executes (.conditional c s none) σ (.ok ()) "" σ'
  | conditionFault {c : Expr} {s : Stmt} {alternative? : Option Stmt} {σ σ' : Stack} {f : Fault}
      (hc : Evaluates c σ (.error f) σ') :
      Executes (.conditional c s alternative?) σ (.error f) "" σ'

/-- What a list of statements ends with and writes, and the stack that it leaves. -/
inductive ExecutesAll : List Stmt → Stack → Except Fault Unit → String → Stack → Prop where
  | nil (σ : Stack) : ExecutesAll [] σ (.ok ()) "" σ
  | cons {s : Stmt} {ss : List Stmt} {σ σ' σ'' : Stack} {r : Except Fault Unit}
      {out out' : String} (h : Executes s σ (.ok ()) out σ')
      (hs : ExecutesAll ss σ' r out' σ'') : ExecutesAll (s :: ss) σ r (out ++ out') σ''
  | fault {s : Stmt} {ss : List Stmt} {σ σ' : Stack} {f : Fault} {out : String}
      (h : Executes s σ (.error f) out σ') : ExecutesAll (s :: ss) σ (.error f) out σ'

end

/-! ### One meaning at most -/

theorem Unary.unique {kind : Token.Kind} {v : Value} {a b : Except Fault.Cause Value}
    (h : Unary kind v a) (h' : Unary kind v b) : b = a := by
  cases h with
  | notTruthy hv =>
      cases h' with
      | notTruthy => rfl
      | notFalsy hv' => exact absurd hv hv'
  | notFalsy hv =>
      cases h' with
      | notTruthy hv' => exact absurd hv' hv
      | notFalsy => rfl
  | negated x =>
      cases h' with
      | negated => rfl
      | notNumber hv => exact absurd ⟨x, rfl⟩ hv
  | notNumber hv =>
      cases h' with
      | negated x => exact absurd ⟨x, rfl⟩ hv
      | notNumber => rfl

theorem Arithmetic.unique {kind : Token.Kind} {x y : Float} {v w : Value}
    (h : Arithmetic kind x y v) (h' : Arithmetic kind x y w) : w = v := by
  cases h <;> cases h' <;> rfl

theorem Binary.unique {kind : Token.Kind} {v w : Value} {a b : Except Fault.Cause Value}
    (h : Binary kind v w a) (h' : Binary kind v w b) : b = a := by
  cases h with
  | equal hv =>
      cases h' with
      | equal => rfl
      | notEqual hv' => exact absurd hv hv'
      | numbers ha => cases ha
      | notNumbers hk => cases hk
  | notEqual hv =>
      cases h' with
      | equal hv' => exact absurd hv' hv
      | notEqual => rfl
      | numbers ha => cases ha
      | notNumbers hk => cases hk
  | different hv =>
      cases h' with
      | different => rfl
      | notDifferent hv' => exact absurd hv' hv
      | numbers ha => cases ha
      | notNumbers hk => cases hk
  | notDifferent hv =>
      cases h' with
      | different hv' => exact absurd hv hv'
      | notDifferent => rfl
      | numbers ha => cases ha
      | notNumbers hk => cases hk
  | sum x y =>
      cases h' with
      | sum => rfl
      | mixed hn => exact absurd ⟨⟨x, rfl⟩, ⟨y, rfl⟩⟩ hn
      | numbers ha => cases ha
      | notNumbers hk => cases hk
  | joined s t =>
      cases h' with
      | joined => rfl
      | mixed _ hs => exact absurd ⟨⟨s, rfl⟩, ⟨t, rfl⟩⟩ hs
      | notNumbers hk => cases hk
  | mixed hn hs =>
      cases h' with
      | sum x y => exact absurd ⟨⟨x, rfl⟩, ⟨y, rfl⟩⟩ hn
      | joined s t => exact absurd ⟨⟨s, rfl⟩, ⟨t, rfl⟩⟩ hs
      | mixed => rfl
      | numbers ha => cases ha
      | notNumbers hk => cases hk
  | numbers ha =>
      -- No rule but this one is for two numbers and an operator that takes nothing else.
      cases h' with
      | numbers ha' => rw [ha.unique ha']
      | notNumbers _ hn => exact absurd ⟨⟨_, rfl⟩, ⟨_, rfl⟩⟩ hn
      | _ => cases ha
  | notNumbers hk hn =>
      cases h' with
      | numbers => exact absurd ⟨⟨_, rfl⟩, ⟨_, rfl⟩⟩ hn
      | notNumbers => rfl
      | _ => cases hk

theorem not_decides_defers {kind : Token.Kind} {v : Value} (h : Decides kind v) :
    ¬ Defers kind v := by
  intro h'
  cases h with
  | and hv => cases h' with | and hv' => exact hv hv'
  | or hv => cases h' with | or hv' => exact hv' hv

/-- An expression has one meaning at most. -/
theorem Evaluates.unique {e : Expr} {σ σ₁ σ₂ : Stack} {r₁ r₂ : Except Fault Value}
    (h : Evaluates e σ r₁ σ₁) (h' : Evaluates e σ r₂ σ₂) : r₂ = r₁ ∧ σ₂ = σ₁ := by
  induction h generalizing r₂ σ₂ with
  | literal => cases h'; exact ⟨rfl, rfl⟩
  | «variable» hv =>
      cases h' with
      | «variable» hv' => rw [hv] at hv'; cases hv'; exact ⟨rfl, rfl⟩
      | undefined hv' => rw [hv] at hv'; cases hv'
  | undefined hv =>
      cases h' with
      | «variable» hv' => rw [hv] at hv'; cases hv'
      | undefined => exact ⟨rfl, rfl⟩
  | grouping _ ih => cases h' with | grouping h' => exact ih h'
  -- From here on two rules about one operand exclude each other: it has a value or a fault.
  | unary _ ha ih =>
      cases h' with
      | unary h' ha' =>
          obtain ⟨hv, rfl⟩ := ih h'
          cases hv
          rw [ha.unique ha']
          exact ⟨rfl, rfl⟩
      | unaryFault h' => cases (ih h').1
  | unaryFault _ ih =>
      cases h' with
      | unary h' => cases (ih h').1
      | unaryFault h' => exact ih h'
  | binary _ _ ha ihl ihr =>
      cases h' with
      | binary hl hr ha' =>
          obtain ⟨hv, rfl⟩ := ihl hl
          cases hv
          obtain ⟨hw, rfl⟩ := ihr hr
          cases hw
          rw [ha.unique ha']
          exact ⟨rfl, rfl⟩
      | binaryLeft hl => cases (ihl hl).1
      | binaryRight hl hr =>
          obtain ⟨-, rfl⟩ := ihl hl
          cases (ihr hr).1
  | binaryLeft _ ih =>
      cases h' with
      | binary hl => cases (ih hl).1
      | binaryLeft hl => exact ih hl
      | binaryRight hl => cases (ih hl).1
  | binaryRight _ _ ihl ihr =>
      cases h' with
      | binary hl hr =>
          obtain ⟨-, rfl⟩ := ihl hl
          cases (ihr hr).1
      | binaryLeft hl => cases (ihl hl).1
      | binaryRight hl hr =>
          obtain ⟨-, rfl⟩ := ihl hl
          exact ihr hr
  | decided _ hd ih =>
      cases h' with
      | decided hl => exact ih hl
      | deferred hl hd' =>
          cases (ih hl).1
          exact absurd hd' (not_decides_defers hd)
      | logicalFault hl => cases (ih hl).1
  | deferred _ hd _ ihl ihr =>
      cases h' with
      | decided hl hd' =>
          cases (ihl hl).1
          exact absurd hd (not_decides_defers hd')
      | deferred hl _ hr =>
          obtain ⟨-, rfl⟩ := ihl hl
          exact ihr hr
      | logicalFault hl => cases (ihl hl).1
  | logicalFault _ ih =>
      cases h' with
      | decided hl => cases (ih hl).1
      | deferred hl => cases (ih hl).1
      | logicalFault hl => exact ih hl
  | assign _ hv ih =>
      cases h' with
      | assign h' hv' =>
          obtain ⟨hw, rfl⟩ := ih h'
          cases hw
          rw [hv] at hv'
          cases hv'
          exact ⟨rfl, rfl⟩
      | unbound h' hv' =>
          obtain ⟨hw, rfl⟩ := ih h'
          cases hw
          rw [hv] at hv'
          cases hv'
      | assignFault h' => cases (ih h').1
  | unbound _ hv ih =>
      cases h' with
      | assign h' hv' =>
          obtain ⟨hw, rfl⟩ := ih h'
          cases hw
          rw [hv] at hv'
          cases hv'
      | unbound h' =>
          obtain ⟨-, rfl⟩ := ih h'
          exact ⟨rfl, rfl⟩
      | assignFault h' => cases (ih h').1
  | assignFault _ ih =>
      cases h' with
      | assign h' => cases (ih h').1
      | unbound h' => cases (ih h').1
      | assignFault h' => exact ih h'

section

variable {e : Expr} {σ σ₁ σ₂ : Stack} {v w : Value} {f g : Fault}

theorem Evaluates.ok_unique (h : Evaluates e σ (.ok v) σ₁) (h' : Evaluates e σ (.ok w) σ₂) :
    w = v ∧ σ₂ = σ₁ := by
  obtain ⟨hv, hσ⟩ := h.unique h'
  exact ⟨Except.ok.inj hv, hσ⟩

theorem Evaluates.error_unique (h : Evaluates e σ (.error f) σ₁)
    (h' : Evaluates e σ (.error g) σ₂) : g = f ∧ σ₂ = σ₁ := by
  obtain ⟨hf, hσ⟩ := h.unique h'
  exact ⟨Except.error.inj hf, hσ⟩

/-- No expression has both a value and a fault. -/
theorem Evaluates.not_error (h : Evaluates e σ (.ok v) σ₁) : ¬ Evaluates e σ (.error f) σ₂ := by
  intro h'
  cases (h.unique h').1

end

mutual

/-- A statement has one meaning at most. -/
theorem Executes.unique {s : Stmt} {σ σ₁ σ₂ : Stack} {r₁ r₂ : Except Fault Unit}
    {out₁ out₂ : String} (h : Executes s σ r₁ out₁ σ₁) (h' : Executes s σ r₂ out₂ σ₂) :
    r₂ = r₁ ∧ out₂ = out₁ ∧ σ₂ = σ₁ := by
  cases h with
  | expression h =>
      cases h' with
      | expression h' => exact ⟨rfl, rfl, (h.ok_unique h').2⟩
      | expressionFault h' => exact absurd h' h.not_error
  | expressionFault h =>
      cases h' with
      | expression h' => exact absurd h h'.not_error
      | expressionFault h' =>
          obtain ⟨rfl, rfl⟩ := h.error_unique h'
          exact ⟨rfl, rfl, rfl⟩
  | print h =>
      cases h' with
      | print h' =>
          obtain ⟨rfl, rfl⟩ := h.ok_unique h'
          exact ⟨rfl, rfl, rfl⟩
      | printFault h' => exact absurd h' h.not_error
  | printFault h =>
      cases h' with
      | print h' => exact absurd h h'.not_error
      | printFault h' =>
          obtain ⟨rfl, rfl⟩ := h.error_unique h'
          exact ⟨rfl, rfl, rfl⟩
  | declareNil => cases h'; exact ⟨rfl, rfl, rfl⟩
  | declare h =>
      cases h' with
      | declare h' =>
          obtain ⟨rfl, rfl⟩ := h.ok_unique h'
          exact ⟨rfl, rfl, rfl⟩
      | declareFault h' => exact absurd h' h.not_error
  | declareFault h =>
      cases h' with
      | declare h' => exact absurd h h'.not_error
      | declareFault h' =>
          obtain ⟨rfl, rfl⟩ := h.error_unique h'
          exact ⟨rfl, rfl, rfl⟩
  | block h =>
      cases h' with
      | block h' =>
          obtain ⟨hr, hout, hσ⟩ := h.unique h'
          exact ⟨hr, hout, (List.cons.inj hσ).2⟩
  -- The condition has one value, and that is truthy or not: one of the next three rules applies.
  | consequent hc hv hs =>
      cases h' with
      | consequent hc' _ hs' =>
          obtain ⟨-, rfl⟩ := hc.ok_unique hc'
          exact hs.unique hs'
      | alternative hc' hv' | neither hc' hv' => exact absurd ((hc.ok_unique hc').1 ▸ hv) hv'
      | conditionFault hc' => exact absurd hc' hc.not_error
  | alternative hc hv ht =>
      cases h' with
      | consequent hc' hv' => exact absurd ((hc.ok_unique hc').1 ▸ hv') hv
      | alternative hc' _ ht' =>
          obtain ⟨-, rfl⟩ := hc.ok_unique hc'
          exact ht.unique ht'
      | conditionFault hc' => exact absurd hc' hc.not_error
  | neither hc hv =>
      cases h' with
      | consequent hc' hv' => exact absurd ((hc.ok_unique hc').1 ▸ hv') hv
      | neither hc' => exact ⟨rfl, rfl, (hc.ok_unique hc').2⟩
      | conditionFault hc' => exact absurd hc' hc.not_error
  | conditionFault hc =>
      cases h' with
      | consequent hc' | alternative hc' | neither hc' => exact absurd hc hc'.not_error
      | conditionFault hc' =>
          obtain ⟨rfl, rfl⟩ := hc.error_unique hc'
          exact ⟨rfl, rfl, rfl⟩

/-- A list of statements has one meaning at most. -/
theorem ExecutesAll.unique {ss : List Stmt} {σ σ₁ σ₂ : Stack} {r₁ r₂ : Except Fault Unit}
    {out₁ out₂ : String} (h : ExecutesAll ss σ r₁ out₁ σ₁) (h' : ExecutesAll ss σ r₂ out₂ σ₂) :
    r₂ = r₁ ∧ out₂ = out₁ ∧ σ₂ = σ₁ := by
  cases h with
  | nil => cases h'; exact ⟨rfl, rfl, rfl⟩
  | cons h hs =>
      cases h' with
      | cons h' hs' =>
          obtain ⟨-, rfl, rfl⟩ := h.unique h'
          obtain ⟨hr, rfl, hσ⟩ := hs.unique hs'
          exact ⟨hr, rfl, hσ⟩
      | fault h' => cases (h.unique h').1
  | fault h =>
      cases h' with
      | cons h' => cases (h.unique h').1
      | fault h' => exact h.unique h'

end

/-! ### The height of the stack -/

theorem Evaluates.length_eq {e : Expr} {σ σ' : Stack} {r : Except Fault Value}
    (h : Evaluates e σ r σ') : σ'.length = σ.length := by
  induction h with
  | literal | «variable» | undefined => rfl
  | grouping _ ih | unary _ _ ih | unaryFault _ ih | binaryLeft _ ih | decided _ _ ih
  | logicalFault _ ih | unbound _ _ ih | assignFault _ ih => exact ih
  | binary _ _ _ ihl ihr | binaryRight _ _ ihl ihr | deferred _ _ _ ihl ihr => exact ihr.trans ihl
  | assign _ hv ih => exact (Stack.length_assign? hv).trans ih

mutual

theorem Executes.length_eq {s : Stmt} {σ σ' : Stack} {r : Except Fault Unit} {out : String}
    (h : Executes s σ r out σ') : σ'.length = σ.length := by
  cases h with
  | expression h | expressionFault h | print h | printFault h | declareFault h | neither h
  | conditionFault h => exact h.length_eq
  | declareNil => exact Stack.length_define ..
  | declare h => exact (Stack.length_define ..).trans h.length_eq
  | block h => exact Nat.succ.inj h.length_eq
  | consequent hc _ hs => exact hs.length_eq.trans hc.length_eq
  | alternative hc _ ht => exact ht.length_eq.trans hc.length_eq

theorem ExecutesAll.length_eq {ss : List Stmt} {σ σ' : Stack} {r : Except Fault Unit}
    {out : String} (h : ExecutesAll ss σ r out σ') : σ'.length = σ.length := by
  cases h with
  | nil => rfl
  | cons h hs => exact hs.length_eq.trans h.length_eq
  | fault h => exact h.length_eq

end

end BigStep

end Lox
