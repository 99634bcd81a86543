import Lox.Console.Script
import Lox.Proofs.Execution.Limit
import Lox.Proofs.Run.Judging

/-!
# Proofs — Run — Files

**Files** (`File.passes_agree`).  Scanning, parsing and running a file that can be read agree: on
whether there are problems with its text and on which ones, and, if there are none, on the
statements that are run.

Each pass can be judged by a reporter of its own, which is told of that pass alone and collects
everything: reading by the count of problems (`Reporter.judge`), running by the outcome, for which the
counts are compared (`Reporter.judgeRun`).  That comes to what the problems of the text come to
(`Reporter.judge_told`), and to how its statements end (`File.run_accepted`).
-/

namespace Lox

open Effect (ending)
open Token (Scan Item Located located)

/-! ### Verdicts -/

namespace Reporter

/-- What reading a text comes to, judged by a reporter that was told of nothing else: there is an
answer unless a problem was counted. -/
def judge {α : Type} (r : Reporter) (path source : String) (a : α) : Except Failure α :=
  if 0 < r.problemCount then .error (.rejected path source r.problems) else .ok a

/-- What running a text comes to, judged by the outcome and by a reporter that was told of nothing
else. -/
def judgeRun (r : Reporter) (path source : String) : Outcome → Except Failure Unit
  | .ok => .ok ()
  | .syntaxError => .error (.rejected path source r.problems)
  | .runtimeError =>
    match r.faults with
    | [] => .ok ()
    | f :: _ => .error (.stopped path source f)

/-- A reporter that collects has what it was told of. -/
theorem told_initial (ps : List Problem) (fs : List Fault) :
    (initial false).told ps fs = ⟨ps.length, fs.length, ps, fs, false⟩ := by
  simp [told, initial]

/-- A reporter that was told of problems judges by these. -/
theorem judge_told {α : Type} (file : File) (source : String) (ps : List Problem) (a : α) :
    ((initial false).told ps []).judge file.path source a = file.unlessRejected source ps a := by
  cases ps <;> simp [judge, told_initial, File.unlessRejected]

end Reporter

/-- The exit code for a result. -/
def Failure.codeOf {α : Type} : Except Failure α → Nat
  | .ok _ => 0
  | .error (.rejected ..) => 65
  | .error (.stopped ..) => 70
  | .error (.unreadable _) => 74

namespace File

variable {α : Type} {file : File} {source : String}

/-- A pass over a file comes to `a` just if there are no problems with its text, and rejects the file
with all of them just if there are some. -/
structure Decides (file : File) (source : String) (problems : List Problem) (a : α)
    (result : Except Failure α) : Prop where
  ok : result = .ok a ↔ problems = []
  rejected : result = .error (.rejected file.path source problems) ↔ problems ≠ []

theorem decides_unlessRejected (problems : List Problem) (a : α) :
    file.Decides source problems a (file.unlessRejected source problems a) := by
  cases problems <;> constructor <;> simp [unlessRejected]

/-- What the result of a pass that decides can be. -/
theorem Decides.cases {problems : List Problem} {a : α} {result : Except Failure α}
    (h : file.Decides source problems a result) :
    problems = [] ∧ result = .ok a ∨
      problems ≠ [] ∧ result = .error (.rejected file.path source problems) := by
  by_cases hnil : problems = []
  · exact .inl ⟨hnil, h.ok.2 hnil⟩
  · exact .inr ⟨hnil, h.rejected.2 hnil⟩

end File

/-! ### The order of lexical errors -/

/-- The error that a located piece amounts to, if it is one. -/
def Token.Located.error? (l : Located) : Option LexicalError :=
  match l.item? with
  | some (.error e) => some e
  | _ => none

/-- Lexical errors in the order of a text.  Each is that of a piece of the text, and each of these
pieces lies in front of those of later errors. -/
def InSourceOrder (source : String) (errors : List LexicalError) : Prop :=
  ∃ ls : List Located, ls.Sublist (located source) ∧ ls.Pairwise (·.after <+: ·.before) ∧
    List.Forall₂ (fun l e => l.error? = some e) ls errors

/-- What a function picks from a list, it picks from elements of the list, in order. -/
theorem exists_sublist_filterMap {α β : Type} (f : α → Option β) (l : List α) :
    ∃ picked : List α, picked.Sublist l ∧
      List.Forall₂ (fun a b => f a = some b) picked (l.filterMap f) := by
  induction l with
  | nil => exact ⟨[], .slnil, .nil⟩
  | cons a l ih =>
      obtain ⟨picked, hsub, hall⟩ := ih
      cases h : f a with
      | none => exact ⟨picked, hsub.cons a, by rwa [List.filterMap_cons_none h]⟩
      | some b => exact ⟨a :: picked, hsub.cons_cons a, by
          rw [List.filterMap_cons_some h]
          exact .cons h hall⟩

theorem inSourceOrder_errors (source : String) :
    InSourceOrder source (Scan.ofString source).errors := by
  have herrors : (Scan.ofString source).errors = (located source).filterMap Located.error? := by
    rw [Token.scan_ofString, Scan.errors, List.filterMap_filterMap]
    congr 1
    funext l
    rw [Located.error?]
    rcases l.item? with - | t | e <;> rfl
  obtain ⟨ls, hsub, hall⟩ := exists_sublist_filterMap Located.error? (located source)
  rw [← herrors] at hall
  exact ⟨ls, hsub, (Token.pairwise_locate [] _).sublist hsub, hall⟩

/-! ### Passes -/

/-- A pass that goes on with a file that can be read. -/
theorem Pass.result_andThen {α β : Type} {p : Pass α} {a : α} (h : p.result = .ok a)
    (f : α → Pass β) : (p.andThen f).result = (f a).result := by
  rw [Pass.andThen, h]

theorem filterMap_fault?_lexical (errors : List LexicalError) :
    (errors.map fun e => Event.problem (.lexical e)).filterMap Event.fault? = [] := by
  rw [List.filterMap_map]
  exact List.filterMap_eq_nil_iff.2 fun _ _ => rfl

namespace File

variable {file : File} {source : String}

theorem result_tokens (h : file.text.result = .ok source) :
    file.tokens.result = file.unlessRejected source
      ((Scan.ofString source).errors.map Problem.lexical) (Scan.ofString source).tokens := by
  rw [tokens, Pass.result_andThen h]

theorem result_statements (h : file.text.result = .ok source) :
    file.statements.result = file.unlessRejected source (Reading.ofString source).problems
      (Reading.ofString source).statements := by
  rw [statements, Pass.result_andThen h]

/-- A run is a failure just if it is judged to be one by what it tells. -/
theorem judgeRun_told (file : File) (source : String) (r : Run) :
    ((Reporter.initial false).told r.problems r.faults).judgeRun file.path source r.outcome =
      match file.failure? source r with
      | some failure => .error failure
      | none => .ok () := by
  rw [Reporter.told_initial, failure?]
  cases r.outcome with
  | ok => rfl
  | syntaxError => rfl
  | runtimeError =>
      rw [← List.head?_filterMap, ← Run.faults]
      simp only [Reporter.judgeRun]
      cases r.faults <;> rfl

/-- A file that can be read is run as its text is, and judged by what that tells. -/
theorem run_eq (h : file.text.result = .ok source) (m : Machine) :
    (file.run m).1.result = ((Reporter.initial false).told (m.run source).problems
        (m.run source).faults).judgeRun file.path source (m.run source).outcome ∧
      (file.run m).2 = (m.run source).machine := by
  cases htext : file.text with
  | mk result notes =>
      rw [htext] at h
      cases h
      rw [run, htext, judgeRun_told]
      dsimp only
      cases file.failure? source (m.run source) <;> exact ⟨rfl, rfl⟩

/-- A text with a problem is not run. -/
theorem run_rejected (h : file.text.result = .ok source)
    (hproblems : (Reading.ofString source).problems ≠ []) (m : Machine) :
    (file.run m).1.result =
        .error (.rejected file.path source (Reading.ofString source).problems) ∧
      (file.run m).2 = m := by
  obtain ⟨hresult, hmachine⟩ := run_eq h m
  obtain ⟨houtcome, hsame⟩ := Machine.run_of_problem (m := m) hproblems
  refine ⟨?_, hmachine.trans hsame⟩
  rw [hresult, Reporter.told_initial, houtcome, Machine.problems_run]
  rfl

/-- A text without a problem is run as its statements, and a fault of theirs stops it. -/
theorem run_accepted (h : file.text.result = .ok source)
    (hclean : (Reading.ofString source).problems = []) (m : Machine) :
    let ended := ending (Stmt.executeAll (Reading.ofString source).statements)
      { m with moves := [] }
    (file.run m).1.result = ended.1.mapError (.stopped file.path source) ∧
      (file.run m).2 = ended.2 := by
  intro ended
  obtain ⟨hresult, hmachine⟩ := run_eq h m
  obtain ⟨hends, hm⟩ := Machine.run_endsWith hclean (Prod.eta ended).symm
  refine ⟨?_, hmachine.trans hm⟩
  rw [hresult, Reporter.told_initial]
  cases hr : ended.1 with
  | ok =>
      rw [hr] at hends
      rw [hends.1]
      rfl
  | error f =>
      rw [hr] at hends
      rw [hends.1, hends.2]
      rfl

/-- A fault that the outcome of a run tells of is there. -/
theorem stopped_of_outcome (h : file.text.result = .ok source) {m : Machine}
    (houtcome : (m.run source).outcome = .runtimeError) :
    ∃ f, (file.run m).1.result = .error (.stopped file.path source f) := by
  by_cases hclean : (Reading.ofString source).problems = []
  · obtain ⟨r, hends⟩ := Machine.exists_endsWith hclean m
    cases r with
    | ok => cases hends.1.symm.trans houtcome
    | error f =>
        refine ⟨f, ?_⟩
        rw [(run_eq h m).1, houtcome, hends.2]
        rfl
  · cases (Machine.run_of_problem hclean).1.symm.trans houtcome

theorem decides_tokens (h : file.text.result = .ok source) :
    file.Decides source ((Scan.ofString source).errors.map Problem.lexical)
      (Scan.ofString source).tokens file.tokens.result := by
  rw [result_tokens h]
  exact decides_unlessRejected _ _

theorem decides_statements (h : file.text.result = .ok source) :
    file.Decides source
      ((Scan.ofString source).errors.map Problem.lexical ++
        (Parse.ofTokens (Scan.ofString source).tokens).errors.map Problem.grammar)
      (Parse.ofTokens (Scan.ofString source).tokens).statements file.statements.result := by
  rw [result_statements h, ← problems_ofString, ← statements_ofString]
  exact decides_unlessRejected _ _

/-- A file that does not parse is not run either. -/
theorem run_of_failure (h : file.text.result = .ok source) (m : Machine) {failure : Failure}
    (hresult : file.statements.result = .error failure) :
    (file.run m).1.result = .error failure ∧ (file.run m).2 = m := by
  rcases (decides_statements h).cases with ⟨-, hok⟩ | ⟨hne, hrejected⟩
  · rw [hok] at hresult
    cases hresult
  · rw [hrejected, ← problems_ofString] at hresult
    rw [← problems_ofString] at hne
    rw [← Except.error.inj hresult]
    exact run_rejected h hne m

/-- A file that parses is run as the statements that it parses to. -/
theorem run_of_statements (h : file.text.result = .ok source) (m : Machine) {ss : List Stmt}
    (hresult : file.statements.result = .ok ss) :
    (file.run m).1.result = (ending (Stmt.executeAll ss) { m with moves := [] }).1.mapError
        (.stopped file.path source) ∧
      (file.run m).2 = (ending (Stmt.executeAll ss) { m with moves := [] }).2 := by
  rcases (decides_statements h).cases with ⟨hnil, hok⟩ | ⟨-, hrejected⟩
  · rw [hok, ← statements_ofString] at hresult
    rw [← problems_ofString] at hnil
    rw [← Except.ok.inj hresult]
    exact run_accepted h hnil m
  · rw [hrejected] at hresult
    cases hresult

end File

/-! ### Exit codes -/

namespace Console.Settings

variable {α : Type} (s : Settings)

theorem code_listed (text : α → String) (p : Pass (List α)) :
    (s.listed text p).code = Failure.codeOf p.result := by
  rw [listed]
  rcases p.result with f | l
  · cases f <;> rfl
  · rfl

theorem code_ran (path : String) (pretty : Bool) (elapsed : String) (run : Pass Unit × Machine) :
    (s.ran path pretty elapsed run).code = Failure.codeOf run.1.result := by
  obtain ⟨pass, machine⟩ := run
  rw [ran]
  dsimp only
  rcases pass.result with f | l
  · cases f <;> rfl
  · rfl

end Console.Settings

/-! ### Files -/

/-- The passes over a file, of which this is the text, agree. -/
structure File.PassesAgree (file : File) (source : String) : Prop where
  /-- Scanning fails just if there are lexical errors. -/
  tokens : file.Decides source ((Scan.ofString source).errors.map Problem.lexical)
    (Scan.ofString source).tokens file.tokens.result
  /-- Parsing fails just if there are lexical errors or grammar errors. -/
  statements : file.Decides source
    ((Scan.ofString source).errors.map Problem.lexical ++
      (Parse.ofTokens (Scan.ofString source).tokens).errors.map Problem.grammar)
    (Parse.ofTokens (Scan.ofString source).tokens).statements file.statements.result
  inSourceOrder : InSourceOrder source (Scan.ofString source).errors
  /-- The problems that scanning fails with are the first ones of those that parsing fails with. -/
  beginning : ∀ path text problems, file.tokens.result = .error (.rejected path text problems) →
    ∃ more, file.statements.result = .error (.rejected path text (problems ++ more))
  /-- A run rejects the file just if parsing does, with the same problems. -/
  rejected : ∀ m path text problems,
    (file.run m).1.result = .error (.rejected path text problems) ↔
      file.statements.result = .error (.rejected path text problems)
  /-- What is rejected is not run. -/
  untouched : ∀ m failure, file.statements.result = .error failure → (file.run m).2 = m
  /-- Otherwise the statements are run: the file is run well if they are, and stopped by their fault
  if they have one. -/
  ended : ∀ m ss, file.statements.result = .ok ss →
    let ended := ending (Stmt.executeAll ss) { m with moves := [] }
    (file.run m).1.result = ended.1.mapError (.stopped file.path source) ∧
      (file.run m).2 = ended.2
  /-- What was printed before a fault stays printed. -/
  output : ∀ m ss, file.statements.result = .ok ss → m.sink.limit? = none →
    (file.run m).2.sink.written = m.sink.written ++
      Printing.bytes (Stmt.printingsAll ss { m with moves := [] })
  codes : ∀ s : Console.Settings, (s.tokenize file).code = Failure.codeOf file.tokens.result ∧
    (s.parse file).code = Failure.codeOf file.statements.result ∧
    ∀ m pretty elapsed, (s.ran file.path pretty elapsed (file.run m)).code =
      Failure.codeOf (file.run m).1.result
  /-- A reporter that is told of the lexical errors judges scanning. -/
  tokensJudged : file.tokens.result =
    (((Scan.ofString source).errors.map fun e => Event.problem (.lexical e)).foldl Reporter.tell
      (.initial false)).judge file.path source (Scan.ofString source).tokens
  /-- A reporter that is told of what happens when the text is read judges parsing. -/
  statementsJudged : ∀ m, file.statements.result =
    (Session.read ⟨m, .initial false⟩ source).2.reporter.judge file.path source
      (Session.read ⟨m, .initial false⟩ source).1
  /-- A reporter that is told of what happens when the text is run judges the run.  It has a fault to
  tell of when the counts say so. -/
  runJudged : ∀ m, let run := Session.run ⟨m, .initial false⟩ source
    (file.run m).1.result = run.2.reporter.judgeRun file.path source run.1 ∧
      (file.run m).2 = run.2.machine ∧
      (run.1 = .runtimeError →
        ∃ f, (file.run m).1.result = .error (.stopped file.path source f))

/-- **Files.**  Let a file be readable as this text.  Scanning it fails just if the text has lexical
errors, and parsing it just if it has lexical errors or grammar errors; a run rejects it just if
parsing does, with the same problems, of which there are some, the lexical errors first and in their
order, and leaves the machine alone.  If parsing does not fail, the run does what the statements do:
it ends well if they do, and is stopped by their fault if they end with one, which is never lost; and
it keeps what was printed until then.  The exit code is 65 for a file that is rejected, 70 for one
that is stopped, and 0 otherwise. -/
theorem File.passes_agree (file : File) (source : String) (h : file.text.result = .ok source) :
    file.PassesAgree source where
  tokens := decides_tokens h
  statements := decides_statements h
  inSourceOrder := inSourceOrder_errors source
  beginning := by
    intro path text problems hresult
    rcases (decides_tokens h).cases with ⟨-, hok⟩ | ⟨hne, hrejected⟩
    · rw [hok] at hresult
      cases hresult
    · rw [hrejected] at hresult
      cases hresult
      exact ⟨_, (decides_statements h).rejected.2 (List.append_ne_nil_of_left_ne_nil hne _)⟩
  rejected := by
    intro m path text problems
    cases hresult : file.statements.result with
    | ok ss =>
        rw [(run_of_statements h m hresult).1]
        cases (ending _ _).1 <;> simp [Except.mapError]
    | error failure =>
        rw [(run_of_failure h m hresult).1]
        simp
  untouched := fun m failure hresult => (run_of_failure h m hresult).2
  ended := fun m ss hresult => run_of_statements h m hresult
  output := by
    intro m ss hresult hm
    rw [(run_of_statements h m hresult).2]
    exact ((executeAll_limits ss).unlimited { m with moves := [] } hm).2
  codes := fun s => ⟨s.code_listed _ _, s.code_listed _ _, fun m _ _ => s.code_ran _ _ _ (file.run m)⟩
  tokensJudged := by
    rw [result_tokens h, Reporter.foldl_tell, filterMap_problem?_lexical, filterMap_fault?_lexical]
    exact (Reporter.judge_told file source _ _).symm
  statementsJudged := by
    intro m
    rw [Session.read_eq, result_statements h]
    dsimp only
    rw [Reporter.judge_told]
  runJudged := by
    intro m
    obtain ⟨hresult, hmachine⟩ := run_eq h m
    rw [Session.run_reporter]
    dsimp only
    exact ⟨hresult, hmachine, stopped_of_outcome h⟩

namespace File

/-- A text with a character that starts no token, a missing operand, a value that is assigned to, and
a missing semicolon. -/
def mixedText : String := "print @;\n1 = 2;\nprint nil"

def mixed : File := ⟨"mixed", .ok mixedText.toUTF8⟩

/-- A text that is run up to its second line. -/
def stoppingText : String := "print nil;\n{ print -nil; }\nprint true;"

def stopping : File := ⟨"stopping", .ok stoppingText.toUTF8⟩

/-- A new machine. -/
def fresh : Machine := .initial .unlimited

/-- The lexical error of the one file comes first, and no machine is changed; the fault of the other
one ends its run, behind one line. -/
theorem passes_agree_mixed :
    (mixed.text.result = .ok mixedText ∧ stopping.text.result = .ok stoppingText) ∧
      (∃ first more, mixed.tokens.result = .error (.rejected "mixed" mixedText [first]) ∧
        mixed.statements.result = .error (.rejected "mixed" mixedText ([first] ++ more)) ∧
        first.text = "[line 1] Error: Unexpected character." ∧
        more.map Problem.text = ["[line 1] Error at ';': Expect expression.",
          "[line 2] Error at '=': Invalid assignment target.",
          "[line 3] Error at end: Expect ';' after value."] ∧
        ∀ m, (mixed.run m).1.result = .error (.rejected "mixed" mixedText ([first] ++ more)) ∧
          (mixed.run m).2 = m) ∧
      ∃ f, (stopping.run fresh).1.result = .error (.stopped "stopping" stoppingText f) ∧
        f.text = "Operand must be a number.\n[line 2]" ∧
        (stopping.run fresh).2.sink.written = "nil\n".toUTF8 := by
  have hmixed : mixed.text.result = .ok mixedText := by rfl
  have hstopping : stopping.text.result = .ok stoppingText := by rfl
  have hfirst : (Scan.ofString mixedText).errors = [⟨.unexpectedCharacter '@', 1, ⟨6, 7⟩⟩] := by
    rfl
  have hagree := passes_agree mixed mixedText hmixed
  have htokens := hagree.tokens.rejected.2 (by rw [hfirst]; simp)
  have hstatements := hagree.statements.rejected.2 (by rw [hfirst]; simp)
  rw [hfirst] at htokens hstatements
  refine ⟨⟨hmixed, hstopping⟩, ⟨_, _, htokens, hstatements, rfl, by decide +kernel, fun m => ?_⟩, ?_⟩
  · exact ⟨(hagree.rejected m _ _ _).2 hstatements, hagree.untouched m _ hstatements⟩
  · obtain ⟨hresult, hmachine⟩ := (passes_agree stopping stoppingText hstopping).ended fresh _ rfl
    exact ⟨_, hresult, rfl, congrArg (·.sink.written) hmachine⟩

end File

end Lox
