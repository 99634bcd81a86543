import Lox.Execution.Statement

/-!
# Proofs — Execution — How an effect ends

`Effect.ending x s` is what the effect `x` ends with on the state `s`, a result or a fault, paired
with the state that it leaves in either case.  The equations compute it for each way in which
effects are built.
-/

namespace Lox.Effect

variable {σ α β : Type} {s s' : σ} {x : Effect σ α} {a : α} {f : Fault}

/-- The result or the fault that an effect ends with, and the state that it leaves. -/
def ending (x : Effect σ α) (s : σ) : Except Fault α × σ :=
  match x s with
  | .ok a s' => (.ok a, s')
  | .error f s' => (.error f, s')

theorem ending_eq_ok : ending x s = (.ok a, s') ↔ x s = .ok a s' := by
  rw [ending]
  cases x s <;> simp

theorem ending_eq_error : ending x s = (.error f, s') ↔ x s = .error f s' := by
  rw [ending]
  cases x s <;> simp

theorem ending_blaming (token : Token) (a : Except Fault.Cause α) (s : σ) :
    ending (blaming token a) s = (a.mapError fun cause => ⟨cause, token⟩, s) := by
  cases a <;> rfl

/-- What follows a result goes on from it. -/
theorem ending_bind_ok {g : α → Effect σ β} (h : ending x s = (.ok a, s')) :
    ending (x >>= g) s = ending (g a) s' := by
  change ending (EStateM.bind x g) s = _
  rw [ending, EStateM.bind, ending_eq_ok.1 h]
  rfl

/-- What follows a fault is left out. -/
theorem ending_bind_error {g : α → Effect σ β} (h : ending x s = (.error f, s')) :
    ending (x >>= g) s = (.error f, s') := by
  change ending (EStateM.bind x g) s = _
  rw [ending, EStateM.bind, ending_eq_error.1 h]

/-! ### Effects on the scopes -/

theorem ending_lookUp {e : Environment} {name : Token} {v : Value}
    (h : e.value? name.lexeme = some v) : ending (lookUp name) e = (.ok v, e) := by
  rw [ending, lookUp, h]

theorem ending_lookUp_none {e : Environment} {name : Token} (h : e.value? name.lexeme = none) :
    ending (lookUp name) e = (.error ⟨.undefinedVariable name.lexeme, name⟩, e) := by
  rw [ending, lookUp, h]

theorem ending_assign {e e' : Environment} {name : Token} {v : Value}
    (h : e.assign? name.lexeme v = some e') : ending (assign name v) e = (.ok (), e') := by
  rw [ending, assign, h]

theorem ending_assign_none {e : Environment} {name : Token} {v : Value}
    (h : e.assign? name.lexeme v = none) :
    ending (assign name v) e = (.error ⟨.undefinedVariable name.lexeme, name⟩, e) := by
  rw [ending, assign, h]

/-! ### Effects on the machine -/

/-- The scopes are all that an effect on them changes. -/
theorem ending_onEnvironment {m : Machine} {x : Effect Environment α} {r : Except Fault α}
    {e : Environment} (h : ending x m.environment = (r, e)) :
    ending (onEnvironment x) m = (r, { m with environment := e }) := by
  cases r with
  | ok a => rw [ending, onEnvironment, ending_eq_ok.1 h]
  | error f => rw [ending, onEnvironment, ending_eq_error.1 h]

/-- However an effect ends inside a scope, the scope is left. -/
theorem ending_inScope {m m' : Machine} {x : Effect Machine α} {r : Except Fault α}
    (h : ending x m.enter = (r, m')) :
    ending (inScope x) m = (r, m'.leaveTo m.environment.current) := by
  cases r with
  | ok a => rw [ending, inScope, ending_eq_ok.1 h]
  | error f => rw [ending, inScope, ending_eq_error.1 h]

/-- A sink without a limit takes a line. -/
theorem ending_writeLine {m : Machine} (h : m.sink.limit? = none) (token : Token) (text : String) :
    ending (writeLine token text) m =
      (.ok (), { m with sink := m.sink.write (text ++ "\n") }) := by
  have hfits : m.sink.fits (text ++ "\n").toUTF8 = true := by
    rw [Sink.fits, h]
  rw [ending, writeLine]
  simp only [hfits, if_true]

end Lox.Effect

namespace Lox.Sink

variable {s : Sink}

theorem written_write (h : s.limit? = none) (text : String) :
    s.write text = { s with written := s.written ++ text.toUTF8 } := by
  rw [write, accepted, h]

theorem write_empty (h : s.limit? = none) : s.write "" = s := by
  rw [written_write h]
  simp

theorem write_append (h : s.limit? = none) (text text' : String) :
    (s.write text).write text' = s.write (text ++ text') := by
  rw [written_write (by exact h), written_write h, written_write h]
  simp [ByteArray.append_assoc]

end Lox.Sink
