import Lox.Proofs.Run.Chunks

/-!
# Proofs — Run — Whose errors count

**Judging** (`run_judged`).  A run is judged by its own errors, although what it compares are the
counts of a reporter that it shares with all that came before.  A text with a problem leaves the
machine alone; any other is run, and ends with a fault or well; and what comes of it depends on the
machine and the text only.  So in a session, the runs that found a problem may be left out.

Between two sessions that differ in their problems only (`Session.Alike`), no action can tell
(`Session.act_alike`), and the step that is left out leads from a session to such another one.
-/

namespace Lox

open Effect (ending)
open Token (Scan)

namespace Session

/-! ### Actions -/

/-- What may be done with a session. -/
inductive Action where
  | run (source : String)
  | read (source : String)
  | interpret (statements : List Stmt)
  | execute (statements : List Stmt)
  /-- Tells the reporter of an event that is none of a run. -/
  | tell (event : Event)
  | reset
  | drain

/-- What an action answers. -/
inductive Reply where
  | ran (outcome : Outcome)
  | read (statements : List Stmt)
  | executed (result : Except Fault Unit)
  | done

/-- Does something with a session. -/
def act (s : Session) : Action → Reply × Session
  | .run source => (.ran (s.run source).1, (s.run source).2)
  | .read source => (.read (s.read source).1, (s.read source).2)
  | .interpret statements => (.done, s.interpret statements)
  | .execute statements => (.executed (s.execute statements).1, (s.execute statements).2)
  | .tell event => (.done, s.tellAll [event])
  | .reset => (.done, { s with reporter := s.reporter.reset })
  | .drain => (.done, { s with reporter := s.reporter.drained })

/-- An action, its answer and what it leaves: the machine, the count of faults and the faults that
were collected. -/
structure Entry where
  action : Action
  reply : Reply
  machine : Machine
  faultCount : Nat
  faults : List Fault

/-- Whether an action was the run of a text with a problem. -/
def Entry.isRejected (entry : Entry) : Bool :=
  entry.reply matches .ran .syntaxError

/-- The entry of an action. -/
def entry (s : Session) (a : Action) : Entry :=
  let (reply, s') := s.act a
  ⟨a, reply, s'.machine, s'.reporter.faultCount, s'.reporter.faults⟩

/-- The entries of actions that are done one after the other. -/
def history (s : Session) : List Action → List Entry
  | [] => []
  | a :: actions => s.entry a :: (s.act a).2.history actions

/-! ### Runs -/

section

variable {s : Session} {source : String}

theorem run_rejected (h : (Reading.ofString source).problems ≠ []) :
    s.run source = (.syntaxError,
      ⟨s.machine, s.reporter.told (Reading.ofString source).problems []⟩) := by
  obtain ⟨houtcome, hmachine⟩ := Machine.run_of_problem (m := s.machine) h
  rw [run_eq, after_eq, houtcome, hmachine, Machine.problems_run, Machine.faults_of_problem h]

theorem run_accepted (h : (Reading.ofString source).problems = []) :
    s.run source = ((s.machine.interpret (Reading.ofString source).statements).outcome,
      s.interpret (Reading.ofString source).statements) := by
  obtain ⟨houtcome, hmachine, hfaults⟩ := Machine.run_of_clean (m := s.machine) h
  rw [run_eq, after_eq, interpret_eq, houtcome, hmachine, hfaults, Machine.problems_run, h]

theorem run_faulted (h : (Reading.ofString source).problems = []) {f : Fault} {m : Machine}
    (hend : ending (Stmt.executeAll (Reading.ofString source).statements)
      { s.machine with moves := [] } = (.error f, m)) :
    s.run source = (.runtimeError, ⟨m, s.reporter.told [] [f]⟩) := by
  obtain ⟨houtcome, hmachine, hfaults⟩ := Machine.interpret_error hend
  rw [run_accepted h, interpret_eq, houtcome, hmachine, hfaults]

theorem run_completed (h : (Reading.ofString source).problems = []) {m : Machine}
    (hend : ending (Stmt.executeAll (Reading.ofString source).statements)
      { s.machine with moves := [] } = (.ok (), m)) :
    s.run source = (.ok, ⟨m, s.reporter⟩) := by
  obtain ⟨houtcome, hmachine, hfaults⟩ := Machine.interpret_ok hend
  rw [run_accepted h, interpret_eq, houtcome, hmachine, hfaults, Reporter.told_nil]

/-- A run of a text without a problem ends with a fault if its statements do, and well if not. -/
theorem outcome_of_accepted (h : (Reading.ofString source).problems = []) :
    (s.run source).1 ≠ .syntaxError ∧ ((s.run source).1 = .runtimeError ↔
      ∃ f m, ending (Stmt.executeAll (Reading.ofString source).statements)
        { s.machine with moves := [] } = (.error f, m)) := by
  cases hend : ending (Stmt.executeAll (Reading.ofString source).statements)
      { s.machine with moves := [] } with
  | mk r m =>
      cases r with
      | ok => simp [run_completed h hend]
      | error f => simp [run_faulted h hend]

theorem syntaxError_iff :
    (s.run source).1 = .syntaxError ↔ (Reading.ofString source).problems ≠ [] := by
  constructor
  · intro hrun hclean
    exact (outcome_of_accepted hclean).1 hrun
  · intro h
    rw [run_rejected h]

end

/-- Whatever a reporter was told of before, a run tells it of the same. -/
theorem run_reporter (m : Machine) (source : String) (r : Reporter) :
    Session.run ⟨m, r⟩ source = ((m.run source).outcome, ⟨(m.run source).machine,
      r.told (m.run source).problems (m.run source).faults⟩) := by
  rw [run_eq, after_eq]

/-! ### Sessions -/

/-- Sessions that differ in their problems only. -/
structure Alike (s t : Session) : Prop where
  machine : s.machine = t.machine
  discards : s.reporter.discards = t.reporter.discards
  faultCount : s.reporter.faultCount = t.reporter.faultCount
  faults : s.reporter.faults = t.reporter.faults

variable {s t : Session}

/-- Sessions stay alike when the same faults are told of, whatever the problems. -/
theorem Alike.told (h : Alike s t) (m : Machine) (ps ps' : List Problem) (fs : List Fault) :
    Alike ⟨m, s.reporter.told ps fs⟩ ⟨m, t.reporter.told ps' fs⟩ := by
  refine ⟨rfl, h.discards, ?_, ?_⟩
  · simp only [Reporter.told, h.faultCount]
  · simp only [Reporter.told, h.discards, h.faults]

/-- What is done with two sessions that are alike is answered alike and leaves them alike. -/
theorem act_alike (h : Alike s t) (a : Action) :
    (s.act a).1 = (t.act a).1 ∧ Alike (s.act a).2 (t.act a).2 := by
  cases a with
  | run source =>
      rw [act, act, run_eq, run_eq, after_eq, after_eq, h.machine]
      exact ⟨rfl, h.told _ _ _ _⟩
  | read source =>
      rw [act, act, read_eq, read_eq, h.machine]
      exact ⟨rfl, h.told _ _ _ _⟩
  | interpret ss =>
      rw [act, act, interpret_eq, interpret_eq, h.machine]
      exact ⟨rfl, h.told _ _ _ _⟩
  | execute ss =>
      rw [act, act, execute, execute, h.machine]
      cases Stmt.executeAll ss { t.machine with moves := [] } <;>
        exact ⟨rfl, rfl, h.discards, h.faultCount, h.faults⟩
  | tell event =>
      rw [act, act, tellAll_eq, tellAll_eq, h.machine]
      exact ⟨rfl, h.told _ _ _ _⟩
  | reset => exact ⟨rfl, h.machine, h.discards, rfl, h.faults⟩
  | drain => exact ⟨rfl, h.machine, h.discards, h.faultCount, rfl⟩

theorem entry_alike (h : Alike s t) (a : Action) : s.entry a = t.entry a := by
  obtain ⟨hreply, halike⟩ := act_alike h a
  simp only [entry, hreply, halike.machine, halike.faultCount, halike.faults]

/-- Sessions that are alike have the same history. -/
theorem history_alike (h : Alike s t) (actions : List Action) :
    s.history actions = t.history actions := by
  induction actions generalizing s t with
  | nil => rfl
  | cons a actions ih => rw [history, history, entry_alike h a, ih (act_alike h a).2]

/-- The run of a text with a problem leaves a session that is like the one it began with. -/
theorem alike_of_isRejected {a : Action} (h : (s.entry a).isRejected = true) :
    Alike (s.act a).2 s := by
  cases a with
  | run source =>
      have hrun : (s.run source).1 = .syntaxError := by
        revert h
        rw [Entry.isRejected, entry, act]
        cases (s.run source).1 <;> simp
      rw [act, run_rejected (syntaxError_iff.1 hrun)]
      -- Told of problems only, the session differs from itself told of nothing in problems only.
      have hself : Alike s s := ⟨rfl, rfl, rfl, rfl⟩
      have htold := hself.told s.machine (Reading.ofString source).problems [] []
      rwa [Reporter.told_nil] at htold
  | read | interpret | execute | tell | reset | drain => cases h

/-- Without the runs of texts with a problem, a session has the rest of its history. -/
theorem history_accepted (s : Session) (actions : List Action) :
    s.history (((s.history actions).filter (!·.isRejected)).map (·.action)) =
      (s.history actions).filter (!·.isRejected) := by
  induction actions generalizing s with
  | nil => rfl
  | cons a actions ih =>
      rw [history]
      cases h : (s.entry a).isRejected with
      | true =>
          -- The rest of the history does not depend on whether the run took place.
          rw [List.filter_cons_of_neg (by simp [h]), ← history_alike (alike_of_isRejected h)]
          exact ih _
      | false =>
          rw [List.filter_cons_of_pos (by simp [h]), List.map_cons]
          change s.entry a :: (s.act a).2.history _ = _
          rw [ih]

/-- **Judging.**  The outcome of a run is that of the text itself.  There are errors in the scan of
the text or in its tokens just if the outcome is `syntaxError`; then they are reported, and the
machine is what it was.  Otherwise the statements are run; if they end with a fault, the outcome is
`runtimeError` and that fault is reported, and nothing else; if they do not, the outcome is `ok`, and
nothing is.  Whatever the reporter was told of before and whether or not it collects what it is told
of, the outcome, the machine and what is reported are the same.  And in a session of runs and other
actions, the runs that ended with `syntaxError` may be left out: what else was done is answered as
before, and leaves the same machine and the same faults. -/
theorem run_judged :
    (∀ (s : Session) (source : String),
      ((s.run source).1 = .syntaxError ↔ (Scan.ofString source).errors ≠ [] ∨
        (Parse.ofTokens (Scan.ofString source).tokens).errors ≠ []) ∧
      ((s.run source).1 = .syntaxError →
        (s.run source).2 = ⟨s.machine, s.reporter.told
          ((Scan.ofString source).errors.map Problem.lexical ++
            (Parse.ofTokens (Scan.ofString source).tokens).errors.map Problem.grammar) []⟩) ∧
      ((s.run source).1 ≠ .syntaxError →
        let ended := ending (Stmt.executeAll (Parse.ofTokens (Scan.ofString source).tokens).statements)
          { s.machine with moves := [] }
        ((s.run source).1 = .runtimeError ↔ ∃ f m, ended = (.error f, m)) ∧
        (∀ f m, ended = (.error f, m) →
          (s.run source).2 = ⟨m, s.reporter.told [] [f]⟩) ∧
        (∀ m, ended = (.ok (), m) → s.run source = (.ok, ⟨m, s.reporter⟩)))) ∧
    (∀ (m : Machine) (source : String), ∃ outcome m' problems faults, ∀ r : Reporter,
      Session.run ⟨m, r⟩ source = (outcome, ⟨m', r.told problems faults⟩)) ∧
    (∀ (s : Session) (actions : List Action),
      let kept := (s.history actions).filter (!·.isRejected)
      s.history (kept.map (·.action)) = kept) := by
  refine ⟨fun s source => ⟨?_, fun h => ?_, fun h => ?_⟩,
    fun m source => ⟨(m.run source).outcome, (m.run source).machine, (m.run source).problems,
      (m.run source).faults, run_reporter m source⟩, history_accepted⟩
  · rw [syntaxError_iff, ne_eq, problems_eq_nil_iff, not_and_or]
  · rw [run_rejected (syntaxError_iff.1 h), problems_ofString]
  · have hclean : (Reading.ofString source).problems = [] :=
      Classical.not_not.1 fun hproblems => h (syntaxError_iff.2 hproblems)
    rw [← statements_ofString]
    refine ⟨(outcome_of_accepted hclean).2, fun f m hend => ?_, fun m hend => ?_⟩
    · rw [run_faulted hclean hend]
    · exact run_completed hclean hend

/-- A session that found a problem and met a fault, which were counted but not collected. -/
def counted : Session :=
  (((initial .unlimited true).run "print ;").2.run "print nope;").2

/-- What is done next. -/
def furtherActions : List Action := [.run "print nil", .reset, .run "print nope;", .run "nil;"]

/-- Behind a problem and a fault, a text with a problem, one with a fault and one with neither are
told apart. -/
theorem run_judged_counted :
    (counted.run "print nil").2 = ⟨counted.machine, counted.reporter.told
      [.grammar ⟨.expectSemicolon "value", ⟨.eof, "", none, 1, ⟨9, 9⟩⟩⟩] []⟩ ∧
    (∃ m, (counted.run "print nope;").2 = ⟨m, counted.reporter.told []
      [⟨.undefinedVariable "nope", ⟨.identifier, "nope", none, 1, ⟨6, 10⟩⟩⟩]⟩) ∧
    (∃ m, counted.run "nil;" = (.ok, ⟨m, counted.reporter⟩)) ∧
    (∃ (m : Machine) (told : Reporter → Reporter), ∀ reporter,
      Session.run ⟨counted.machine, reporter⟩ "print nope;" =
        (.runtimeError, ⟨m, told reporter⟩)) ∧
    (counted.history [.reset, .run "print nope;", .run "nil;"] =
      (counted.history furtherActions).filter (!·.isRejected)) := by
  refine ⟨?_, ?_, ?_, ?_, ?_⟩
  · exact (run_judged.1 counted "print nil").2.1 (by rfl)
  · exact ⟨_, ((run_judged.1 counted "print nope;").2.2 (by decide)).2.1 _ _ rfl⟩
  · exact ⟨_, ((run_judged.1 counted "nil;").2.2 (by decide)).2.2 _ rfl⟩
  · obtain ⟨o, m, ps, fs, h⟩ := run_judged.2.1 counted.machine "print nope;"
    have ho : o = .runtimeError := (congrArg Prod.fst (h (.initial true))).symm.trans (by rfl)
    exact ⟨m, (·.told ps fs), ho ▸ h⟩
  · exact run_judged.2.2 counted furtherActions

end Session

end Lox
