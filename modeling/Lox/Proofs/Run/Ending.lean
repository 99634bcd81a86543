import Lox.Proofs.Execution.Ending
import Lox.Run.Session

/-!
# Proofs — Run — How a run ends

A run is told by its outcome, by the machine that it leaves and by the faults among its events.  For
statements, all three are those of the effect that they have (`interpret_ok`, `interpret_error`); a
source text with a problem has none, and any other is run as its statements (`run_of_clean`,
`run_of_problem`).
-/

namespace Lox

open Effect (ending)

/-- The faults that a run tells of. -/
def Run.faults (r : Run) : List Fault := r.events.filterMap Event.fault?

/-- The problems that a run tells of. -/
def Run.problems (r : Run) : List Problem := r.events.filterMap Event.problem?

/-- Moves between scopes are no faults. -/
theorem filterMap_fault?_moved (moves : List Move) :
    (moves.map fun move => Event.note (.moved move)).filterMap Event.fault? = [] := by
  rw [List.filterMap_eq_nil_iff]
  intro event hevent
  obtain ⟨move, -, rfl⟩ := List.mem_map.1 hevent
  rfl

namespace Machine

variable {m m' : Machine} {ss : List Stmt} {f : Fault} {source : String}

theorem interpret_ok (h : ending (Stmt.executeAll ss) { m with moves := [] } = (.ok (), m')) :
    (m.interpret ss).outcome = .ok ∧ (m.interpret ss).machine = m' ∧
      (m.interpret ss).faults = [] := by
  rw [interpret, Effect.ending_eq_ok.1 h]
  exact ⟨rfl, rfl, filterMap_fault?_moved _⟩

theorem interpret_error
    (h : ending (Stmt.executeAll ss) { m with moves := [] } = (.error f, m')) :
    (m.interpret ss).outcome = .runtimeError ∧ (m.interpret ss).machine = m' ∧
      (m.interpret ss).faults = [f] := by
  rw [interpret, Effect.ending_eq_error.1 h]
  refine ⟨rfl, rfl, ?_⟩
  rw [Run.faults, List.filterMap_append, filterMap_fault?_moved]
  rfl

/-- The machine behind a run of statements. -/
theorem machine_interpret (m : Machine) (ss : List Stmt) :
    (m.interpret ss).machine = (ending (Stmt.executeAll ss) { m with moves := [] }).2 := by
  cases h : ending (Stmt.executeAll ss) { m with moves := [] } with
  | mk r m' =>
      cases r with
      | ok => exact (interpret_ok h).2.1
      | error => exact (interpret_error h).2.1

/-- What is told of while a source is read is a problem or a note. -/
theorem filterMap_fault?_events (source : String) :
    (Reading.ofString source).events.filterMap Event.fault? = [] := by
  rw [List.filterMap_eq_nil_iff]
  intro event hevent
  simp only [Reading.ofString, List.mem_append, List.mem_map, List.mem_cons, List.not_mem_nil,
    or_false] at hevent
  rcases hevent with (⟨e, -, rfl⟩ | rfl | ⟨n, -, rfl⟩) | rfl
  · rfl
  · rfl
  · cases n <;> rfl
  · rfl

/-- A source without a problem is run as its statements. -/
theorem run_eq_interpret (h : (Reading.ofString source).problems = []) :
    m.run source = { m.interpret (Reading.ofString source).statements with
      events := (Reading.ofString source).events ++
        (m.interpret (Reading.ofString source).statements).events } := by
  rw [run]
  simp only [h, List.isEmpty_nil, if_true]

theorem run_of_clean (h : (Reading.ofString source).problems = []) :
    (m.run source).outcome = (m.interpret (Reading.ofString source).statements).outcome ∧
      (m.run source).machine = (m.interpret (Reading.ofString source).statements).machine ∧
      (m.run source).faults = (m.interpret (Reading.ofString source).statements).faults := by
  rw [run_eq_interpret h]
  generalize m.interpret (Reading.ofString source).statements = run
  refine ⟨rfl, rfl, ?_⟩
  rw [Run.faults, List.filterMap_append, filterMap_fault?_events, List.nil_append, Run.faults]

/-- A source with a problem is not run. -/
theorem run_eq_rejected (h : (Reading.ofString source).problems ≠ []) :
    m.run source = ⟨.syntaxError, m, (Reading.ofString source).events⟩ := by
  have hne : (Reading.ofString source).problems.isEmpty = false := by
    rwa [← Bool.not_eq_true, List.isEmpty_iff]
  rw [run]
  simp only [hne, Bool.false_eq_true, if_false]

theorem run_of_problem (h : (Reading.ofString source).problems ≠ []) :
    (m.run source).outcome = .syntaxError ∧ (m.run source).machine = m := by
  rw [run_eq_rejected h]
  exact ⟨rfl, rfl⟩

theorem faults_of_problem (h : (Reading.ofString source).problems ≠ []) :
    (m.run source).faults = [] := by
  rw [Run.faults, run_eq_rejected h, filterMap_fault?_events]

/-- Running statements tells of no problem. -/
theorem problems_interpret (m : Machine) (ss : List Stmt) : (m.interpret ss).problems = [] := by
  rw [Run.problems, interpret]
  cases Stmt.executeAll ss { m with moves := [] } <;>
    simp [List.filterMap_eq_nil_iff, Event.problem?]

/-- A run tells of the problems of its source. -/
theorem problems_run (m : Machine) (source : String) :
    (m.run source).problems = (Reading.ofString source).problems := by
  rw [run]
  split
  · rw [Run.problems, List.filterMap_append, ← Run.problems, problems_interpret, List.append_nil,
      Reading.problems]
  · rfl

end Machine

/-! ### Reporters -/

namespace Reporter

/-- A reporter that was told of problems and of faults. -/
def told (r : Reporter) (problems : List Problem) (faults : List Fault) : Reporter :=
  { r with
    problemCount := r.problemCount + problems.length
    faultCount := r.faultCount + faults.length
    problems := if r.discards then r.problems else r.problems ++ problems
    faults := if r.discards then r.faults else r.faults ++ faults }

theorem told_nil (r : Reporter) : r.told [] [] = r := by
  simp [told]

theorem told_told (r : Reporter) (ps ps' : List Problem) (fs fs' : List Fault) :
    (r.told ps fs).told ps' fs' = r.told (ps ++ ps') (fs ++ fs') := by
  cases hdiscards : r.discards <;> simp [told, hdiscards, Nat.add_assoc]

theorem tell_eq (r : Reporter) (event : Event) :
    r.tell event = r.told event.problem?.toList event.fault?.toList := by
  cases event <;> simp [tell, tellProblem, tellFault, told, Event.problem?, Event.fault?]

/-- Of events, a reporter gets the problems and the faults. -/
theorem foldl_tell (events : List Event) (r : Reporter) :
    events.foldl tell r =
      r.told (events.filterMap Event.problem?) (events.filterMap Event.fault?) := by
  induction events generalizing r with
  | nil => exact r.told_nil.symm
  | cons event events ih =>
      rw [List.foldl_cons, ih, tell_eq, told_told]
      cases event <;> rfl

end Reporter

/-! ### Sessions -/

namespace Session

theorem tellAll_eq (s : Session) (events : List Event) :
    s.tellAll events = { s with
      reporter := s.reporter.told (events.filterMap Event.problem?)
        (events.filterMap Event.fault?) } := by
  rw [tellAll, Reporter.foldl_tell]

theorem after_eq (s : Session) (r : Run) :
    s.after r = ⟨r.machine, s.reporter.told r.problems r.faults⟩ := by
  rw [after, tellAll_eq, Run.problems, Run.faults]

/-- Reading a text tells of its problems only. -/
theorem read_eq (s : Session) (source : String) :
    s.read source = ((Reading.ofString source).statements,
      { s with reporter := s.reporter.told (Reading.ofString source).problems [] }) := by
  rw [read, tellAll_eq, Machine.filterMap_fault?_events, ← Reading.problems]

theorem interpret_eq (s : Session) (ss : List Stmt) :
    s.interpret ss = ⟨(s.machine.interpret ss).machine,
      s.reporter.told [] (s.machine.interpret ss).faults⟩ := by
  rw [interpret, after_eq, Machine.problems_interpret]

/-- The counts tell how a run ended: the outcome and the machine are those of the source text on the
machine alone, and the reporter is told of what happened. -/
theorem run_eq (s : Session) (source : String) :
    s.run source = ((s.machine.run source).outcome, s.after (s.machine.run source)) := by
  rw [run, read_eq, after_eq, Machine.problems_run]
  by_cases hclean : (Reading.ofString source).problems = []
  · -- nothing is told of the reading, so a fault is all that is counted
    obtain ⟨houtcome, hmachine, hfaults⟩ := Machine.run_of_clean (m := s.machine) hclean
    rw [houtcome, hmachine, hfaults, hclean, Reporter.told_nil]
    simp only [Nat.lt_irrefl, if_false, interpret_eq]
    cases h : ending (Stmt.executeAll (Reading.ofString source).statements)
        { s.machine with moves := [] } with
    | mk r m' =>
        cases r with
        | ok =>
            obtain ⟨houtcome, -, hfaults⟩ := Machine.interpret_ok h
            simp [houtcome, hfaults, Reporter.told]
        | error f =>
            obtain ⟨houtcome, -, hfaults⟩ := Machine.interpret_error h
            simp [houtcome, hfaults, Reporter.told]
  · obtain ⟨houtcome, hmachine⟩ := Machine.run_of_problem (m := s.machine) hclean
    have hcount : s.reporter.problemCount <
        (s.reporter.told (Reading.ofString source).problems []).problemCount :=
      Nat.lt_add_of_pos_right (List.length_pos_iff.2 hclean)
    simp only [hcount, if_true, houtcome, hmachine, Machine.faults_of_problem hclean]

theorem machine_run (s : Session) (source : String) :
    (s.run source).2.machine = (s.machine.run source).machine := by
  rw [run_eq]
  rfl

/-- The machine behind statements whose fault is not told of. -/
theorem machine_execute (s : Session) (ss : List Stmt) :
    (s.execute ss).2.machine = (s.machine.interpret ss).machine := by
  rw [Machine.machine_interpret, ending, execute]
  cases Stmt.executeAll ss { s.machine with moves := [] } <;> rfl

end Session

end Lox
