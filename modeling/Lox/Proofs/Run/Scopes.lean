import Lox.Proofs.Execution.Frame
import Lox.Proofs.Grammar.Soundness
import Lox.Proofs.Run.Ending

/-!
# Proofs — Run — The scopes in a session

**Frame** (`framed_of_visited`).  Between the runs of a session there is one scope, the global one;
and wherever in a run a list of statements comes to be executed, it leaves the scopes as it found
them, but for the names that it declares and those that it assigns to.

A session is whatever a new one becomes by runs of texts and of hand-made statements
(`Session.Reachable`), and the points of a run are those between which expressions are evaluated,
statements executed and blocks entered (`Machine.Visited`).  At all of them the scopes are nested,
which is all that the frame of a list of statements asks for.
-/

namespace Lox

open Effect (Frames ending)
open Grammar (bare)

/-- The sessions that a new one becomes by runs of whatever kind, be they reported to one reporter or
to several. -/
inductive Session.Reachable : Session → Prop where
  | initial (sink : Sink) (discards : Bool) : Reachable (.initial sink discards)
  | run {s : Session} (h : Reachable s) (source : String) : Reachable (s.run source).2
  | interpret {s : Session} (h : Reachable s) (ss : List Stmt) : Reachable (s.interpret ss)
  | execute {s : Session} (h : Reachable s) (ss : List Stmt) : Reachable (s.execute ss).2
  | reporting {s : Session} (h : Reachable s) (reporter : Reporter) :
      Reachable { s with reporter := reporter }

/-- The machine in the course of a run: at its start, and whenever an expression has got a value, a
statement is done, or a block is entered. -/
inductive Machine.Visited : Machine → Prop where
  | started {s : Session} (h : s.Reachable) : Visited { s.machine with moves := [] }
  | evaluated {m m' : Machine} {e : Expr} {v : Value} (h : Visited m)
      (he : ending (Effect.onEnvironment e.evaluate) m = (.ok v, m')) : Visited m'
  | executed {m m' : Machine} {s : Stmt} (h : Visited m)
      (hs : ending s.execute m = (.ok (), m')) : Visited m'
  | entered {m : Machine} (h : Visited m) : Visited m.enter

/-- A run of statements leaves as many scopes as it found, nested as they were. -/
theorem Machine.global_interpret {m : Machine} (h : m.environment.Nested)
    (hdepth : m.environment.depth = 1) (ss : List Stmt) :
    (m.interpret ss).machine.environment.Nested ∧
      (m.interpret ss).machine.environment.depth = 1 := by
  rw [machine_interpret]
  have hf := executeAll_frames ss { m with moves := [] } h
  exact ⟨hf.nested h, hf.depth.trans hdepth⟩

/-- Between its runs, the scopes of a session are the global one alone. -/
theorem Session.Reachable.global {s : Session} (h : s.Reachable) :
    s.machine.environment.Nested ∧ s.machine.environment.depth = 1 := by
  induction h with
  | initial => exact ⟨Environment.nested_singleton .empty, rfl⟩
  | run _ source ih =>
      rw [Session.machine_run]
      by_cases hclean : (Reading.ofString source).problems = []
      · rw [(Machine.run_of_clean hclean).2.1]
        exact Machine.global_interpret ih.1 ih.2 _
      · rwa [(Machine.run_of_problem hclean).2]
  | interpret _ ss ih => exact Machine.global_interpret ih.1 ih.2 ss
  | execute _ ss ih =>
      rw [Session.machine_execute]
      exact Machine.global_interpret ih.1 ih.2 ss
  | reporting _ _ ih => exact ih

theorem Machine.Visited.nested {m : Machine} (h : m.Visited) : m.environment.Nested := by
  induction h with
  | started h => exact h.global.1
  | @evaluated m m' e v _ he ih =>
      have hf := Frames.onEnvironment (evaluate_frames e) m ih
      rw [he] at hf
      exact hf.nested ih
  | @executed m m' s _ hs ih =>
      have hf := execute_frames s m ih
      rw [hs] at hf
      exact hf.nested ih
  | entered _ ih => exact ih.enter

/-- **Frame.**  Between the runs of a session the global scope is the only one, and current.
Wherever in a run a list of statements is executed, no scope comes or goes, none is linked anew and
the same one is current afterwards; no scope but the current one has other names than before, that
one has lost none and gained only what the list declares outside of blocks; and a name stands for
what it stood for unless the list assigns to it, or declares it in the current scope. -/
theorem framed_of_visited :
    (∀ s : Session, s.Reachable →
      s.machine.environment.depth = 1 ∧ s.machine.environment.current = Environment.globalScope) ∧
    ∀ m : Machine, m.Visited → ∀ ss : List Stmt,
      Environment.Framed (Stmt.declaredAll ss) (Stmt.assignedAll ss) m.environment
        (ending (Stmt.executeAll ss) m).2.environment := by
  refine ⟨fun s h => ?_, fun m h ss => executeAll_frames ss m h.nested⟩
  obtain ⟨hnested, hdepth⟩ := h.global
  exact ⟨hdepth, Nat.succ.inj (hnested.current_succ.trans hdepth)⟩

/-- A name that stands nowhere in particular. -/
def bareName (name : String) : Token := bare .identifier name

/-- `{ var a; print a; }`, run with a sink that takes one byte. -/
def cutShort : Session :=
  ((Session.initial ⟨.empty, some 1, .brokenPipe⟩ false).execute
    [.block [.declare (bareName "a") none,
      .print (bare .kwPrint "print") (.variable (bareName "a"))]]).2

/-- `if (true) var b;`, which no text can be read as, and `{ var c = b = d; }`, in which `d` is
undefined. -/
def branchDeclares : List Stmt :=
  [.conditional (.literal (.bool true)) (.declare (bareName "b") none) none,
    .block [.declare (bareName "c")
      (some (.assign (bareName "b") (.variable (bareName "d"))))]]

/-- The fault of the sink leaves the global scope alone; and in a block entered then, the hand-made
list ends with a fault, too, and leaves a new name `b` in the block. -/
theorem framed_of_visited_cutShort :
    cutShort.machine.environment.depth = 1 ∧
      cutShort.machine.environment.current = Environment.globalScope ∧
      (ending (Stmt.executeAll branchDeclares)
        (Machine.enter { cutShort.machine with moves := [] })).1 =
          .error ⟨.undefinedVariable "d", bareName "d"⟩ ∧
      Environment.Framed ["b"] ["b"] ⟨[⟨.empty, none⟩, ⟨.empty, some 0⟩], 1⟩
        ⟨[⟨.empty, none⟩, ⟨⟨[("b", .nil)]⟩, some 0⟩], 1⟩ := by
  have hreach : cutShort.Reachable := .execute (.initial _ false) _
  obtain ⟨hdepth, hcurrent⟩ := framed_of_visited.1 cutShort hreach
  exact ⟨hdepth, hcurrent, rfl, framed_of_visited.2 _ (.entered (.started hreach)) branchDeclares⟩

end Lox
