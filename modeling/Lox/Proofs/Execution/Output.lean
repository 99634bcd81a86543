import Lox.Proofs.Run.Ending

/-!
# Proofs — Execution — Output that is there already

A program never looks at what it has written.  So what a sink holds at the start of a run stays in
front of what the run writes, and makes no other difference (`executeAll_continues`,
`Machine.run_prefixed`).  This is said of sinks without a limit, which hold whatever is put in front
of what they hold.
-/

namespace Lox

open Effect (ending)

/-- The machine with other output in front of its own. -/
def Machine.prefixed (m : Machine) (front : ByteArray) : Machine :=
  { m with sink := { m.sink with written := front ++ m.sink.written } }

theorem Sink.write_prefixed {s : Sink} (h : s.limit? = none) (front : ByteArray) (text : String) :
    Sink.write { s with written := front ++ s.written } text =
      { s.write text with written := front ++ (s.write text).written } := by
  rw [written_write h, written_write (by exact h), ByteArray.append_assoc]

namespace Effect

variable {α β : Type} {x : Effect Machine α}

/-- Other output makes no difference to the effect, and stays in front of what it writes. -/
def Continues (x : Effect Machine α) : Prop :=
  ∀ m front, m.sink.limit? = none → (ending x m).2.sink.limit? = none ∧
    ending x (m.prefixed front) = ((ending x m).1, (ending x m).2.prefixed front)

namespace Continues

theorem pure (a : α) : Continues (Pure.pure a) := fun _ _ hm => ⟨hm, rfl⟩

theorem onEnvironment (x : Effect Environment α) : Continues (onEnvironment x) := by
  intro m front hm
  have hends (m : Machine) := ending_onEnvironment (m := m) (r := (ending x m.environment).1) rfl
  rw [hends, hends]
  exact ⟨hm, rfl⟩

theorem bind {g : α → Effect Machine β} (hx : Continues x) (hg : ∀ a, Continues (g a)) :
    Continues (x >>= g) := by
  intro m front hm
  obtain ⟨hlimit, hends⟩ := hx m front hm
  cases hr : ending x m with
  | mk r m₁ =>
      rw [hr] at hlimit hends
      cases r with
      | ok a =>
          rw [ending_bind_ok hr, ending_bind_ok hends]
          exact hg a m₁ front hlimit
      | error f =>
          rw [ending_bind_error hr, ending_bind_error hends]
          exact ⟨hlimit, rfl⟩

theorem inScope (hx : Continues x) : Continues (inScope x) := by
  intro m front hm
  obtain ⟨hlimit, hends⟩ := hx m.enter front hm
  have hprefixed : ending x (m.prefixed front).enter = _ := hends
  rw [ending_inScope hprefixed, ending_inScope (r := (ending x m.enter).1) rfl]
  exact ⟨hlimit, rfl⟩

theorem writeLine (token : Token) (text : String) : Continues (writeLine token text) := by
  intro m front hm
  have hprefixed : (m.prefixed front).sink.limit? = none := hm
  rw [ending_writeLine hm, ending_writeLine hprefixed]
  refine ⟨hm, ?_⟩
  rw [Machine.prefixed, Machine.prefixed, Sink.write_prefixed hm]

end Continues

end Effect

open Effect (Continues)

/-! ### Statements -/

mutual

theorem execute_continues : ∀ s : Stmt, Continues s.execute
  | .expression e => by
      rw [Stmt.execute]
      exact .bind (.onEnvironment _) fun _ => .pure ()
  | .print keyword e => by
      rw [Stmt.execute]
      exact .bind (.onEnvironment _) fun v => .writeLine keyword v.display
  | .declare name initializer? => by
      rw [Stmt.execute]
      exact .onEnvironment _
  | .block body => by
      rw [Stmt.execute]
      exact .inScope (executeAll_continues body)
  | .conditional c s none => by
      rw [Stmt.execute.eq_def]
      refine .bind (.onEnvironment _) fun v => ?_
      split
      · exact execute_continues s
      · exact .pure ()
  | .conditional c s (some t) => by
      rw [Stmt.execute.eq_def]
      refine .bind (.onEnvironment _) fun v => ?_
      split
      · exact execute_continues s
      · exact execute_continues t

/-- Statements do not look at what was written before. -/
theorem executeAll_continues : ∀ ss : List Stmt, Continues (Stmt.executeAll ss)
  | [] => .pure ()
  | s :: ss => by
      rw [Stmt.executeAll]
      exact .bind (execute_continues s) fun _ => executeAll_continues ss

end

/-! ### Runs -/

namespace Machine

variable {m : Machine}

theorem interpret_prefixed (h : m.sink.limit? = none) (front : ByteArray) (ss : List Stmt) :
    (m.prefixed front).interpret ss = { m.interpret ss with
      machine := (m.interpret ss).machine.prefixed front } := by
  obtain ⟨-, hends⟩ := executeAll_continues ss { m with moves := [] } front h
  have hprefixed : ending (Stmt.executeAll ss) { m.prefixed front with moves := [] } = _ := hends
  cases hr : ending (Stmt.executeAll ss) { m with moves := [] } with
  | mk r m' =>
      rw [hr] at hprefixed
      cases r with
      | ok =>
          rw [interpret, interpret, Effect.ending_eq_ok.1 hr, Effect.ending_eq_ok.1 hprefixed]
          rfl
      | error f =>
          rw [interpret, interpret, Effect.ending_eq_error.1 hr, Effect.ending_eq_error.1 hprefixed]
          rfl

/-- A run does not depend on what was written before, which stays in front of what it writes. -/
theorem run_prefixed (h : m.sink.limit? = none) (front : ByteArray) (source : String) :
    (m.prefixed front).run source = { m.run source with
      machine := (m.run source).machine.prefixed front } := by
  by_cases hclean : (Reading.ofString source).problems = []
  · rw [run_eq_interpret hclean, run_eq_interpret hclean, interpret_prefixed h]
  · rw [run_eq_rejected hclean, run_eq_rejected hclean]

/-- A run leaves a sink without a limit. -/
theorem limit?_run (h : m.sink.limit? = none) (source : String) :
    (m.run source).machine.sink.limit? = none := by
  by_cases hclean : (Reading.ofString source).problems = []
  · rw [(run_of_clean hclean).2.1, machine_interpret]
    exact (executeAll_continues _ { m with moves := [] } .empty h).1
  · rw [(run_of_problem hclean).2]
    exact h

end Machine

end Lox
