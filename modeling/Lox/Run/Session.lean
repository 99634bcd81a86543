import Lox.Run.Source

/-!
# Runs — Sessions

A machine that runs one source after the other, and a reporter that is told of all problems and
faults. The reporter counts them, and collects them unless it discards them.
-/

namespace Lox

/-- What was reported. -/
structure Reporter where
  problemCount : Nat
  faultCount : Nat
  problems : List Problem
  faults : List Fault
  /-- Whether problems and faults are counted only. -/
  discards : Bool

namespace Reporter

/-- A reporter that was told of nothing. -/
def initial (discards : Bool) : Reporter := ⟨0, 0, [], [], discards⟩

/-- Tells of a problem. -/
def tellProblem (r : Reporter) (p : Problem) : Reporter :=
  { r with
    problemCount := r.problemCount + 1
    problems := if r.discards then r.problems else r.problems ++ [p] }

/-- Tells of a fault. -/
def tellFault (r : Reporter) (f : Fault) : Reporter :=
  { r with
    faultCount := r.faultCount + 1
    faults := if r.discards then r.faults else r.faults ++ [f] }

/-- Tells of an event. Notes are not reported. -/
def tell (r : Reporter) : Event → Reporter
  | .problem p => r.tellProblem p
  | .fault f => r.tellFault f
  | .note _ => r

/-- Counts from zero again. What was collected stays. -/
def reset (r : Reporter) : Reporter := { r with problemCount := 0, faultCount := 0 }

/-- Drops what was collected. The counts stay. -/
def drained (r : Reporter) : Reporter := { r with problems := [], faults := [] }

end Reporter

/-- A session. -/
structure Session where
  machine : Machine
  reporter : Reporter

namespace Session

/-- A session in which nothing was run. -/
def initial (sink : Sink) (discards : Bool) : Session := ⟨.initial sink, .initial discards⟩

/-- Tells the reporter of events. -/
def tellAll (s : Session) (events : List Event) : Session :=
  { s with reporter := events.foldl Reporter.tell s.reporter }

/-- Goes on after a run. -/
def after (s : Session) (run : Run) : Session :=
  Session.tellAll { s with machine := run.machine } run.events

/-- Reads a source text without running it. -/
def read (s : Session) (source : String) : List Stmt × Session :=
  let reading := Reading.ofString source
  (reading.statements, s.tellAll reading.events)

/-- Runs statements. -/
def interpret (s : Session) (statements : List Stmt) : Session :=
  s.after (s.machine.interpret statements)

/-- Runs a source text. What was reported in the course of it tells how it ended: with a problem, with
a fault, or well. What was reported before does not count. -/
def run (s : Session) (source : String) : Outcome × Session :=
  let (statements, s₁) := s.read source
  if s.reporter.problemCount < s₁.reporter.problemCount then
    (.syntaxError, s₁)
  else
    let s₂ := s₁.interpret statements
    (if s.reporter.faultCount < s₂.reporter.faultCount then .runtimeError else .ok, s₂)

/-- Runs statements and answers with the fault that ended them, which is not reported. -/
def execute (s : Session) (statements : List Stmt) : Except Fault Unit × Session :=
  match Stmt.executeAll statements { s.machine with moves := [] } with
  | .ok _ m => (.ok (), { s with machine := m })
  | .error f m => (.error f, { s with machine := m })

end Session

end Lox
