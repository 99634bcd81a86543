import Lox.Proofs.Execution.Relocation
import Lox.Proofs.Grammar.Joining
import Lox.Proofs.Grammar.Relocation
import Lox.Proofs.Run.Ending
import Lox.Proofs.Token.Joining

/-!
# Proofs — Run — A program in chunks

Texts without a problem, joined by line breaks and run at once, do what they do when they are run
one after the other, up to the first that ends with a fault (`Machine.run_intercalate`): to the
sink, to the scopes, and with the same fault, of which only the place is another.

Two texts are enough to see why.  Joined, they scan to the tokens of the first one and to those of
the second one, moved (`Token.tokens_join`); these are read as the statements of the first one and,
relocated, those of the second one (`reading_join`); and relocated statements, run where the first
ones ended, do what the second text does there (`Machine.run_join`).
-/

namespace Lox

open Effect (ending ending_bind_ok ending_bind_error)
open Token (lineBreaks)

/-! ### Reading joined texts -/

/-- How far a text moves what stands behind it and a line break. -/
def movedBehind (s : String) : Token → Token :=
  Token.movedBy (lineBreaks s.toList + 1) (s.utf8ByteSize + 1).toUInt32

theorem relocation_movedBehind (s : String) : Token.Relocation (movedBehind s) :=
  ⟨fun _ => rfl, fun _ => rfl, fun _ => rfl⟩

theorem statements_ofString (s : String) : (Reading.ofString s).statements =
    (Parse.ofTokens (Token.Scan.ofString s).tokens).statements := by
  rw [Reading.ofString]

theorem filterMap_problem?_lexical (errors : List LexicalError) :
    (errors.map fun e => Event.problem (.lexical e)).filterMap Event.problem? =
      errors.map Problem.lexical := by
  rw [List.filterMap_map, ← List.filterMap_eq_map]
  rfl

/-- The problems of a text are the errors of its scan and of its tokens. -/
theorem problems_ofString (s : String) :
    (Reading.ofString s).problems = (Token.Scan.ofString s).errors.map Problem.lexical ++
      (Parse.ofTokens (Token.Scan.ofString s).tokens).errors.map Problem.grammar := by
  have hgrammar (p : Parse) : (p.notices.map Event.ofNotice).filterMap Event.problem? =
      p.errors.map Problem.grammar := by
    rw [Parse.errors, List.filterMap_map, List.map_filterMap]
    congr 1
    funext notice
    cases notice <;> rfl
  rw [Reading.problems, Reading.ofString]
  simp only [List.filterMap_append, List.filterMap_cons, filterMap_problem?_lexical, hgrammar]
  simp [Event.problem?]

theorem problems_eq_nil_iff {s : String} :
    (Reading.ofString s).problems = [] ↔ (Token.Scan.ofString s).errors = [] ∧
      (Parse.ofTokens (Token.Scan.ofString s).tokens).errors = [] := by
  rw [problems_ofString, List.append_eq_nil_iff, List.map_eq_nil_iff, List.map_eq_nil_iff]

/-- A scan ends with an end of input, and has no other. -/
theorem isEof_last (s : String) : (Token.Scan.ofString s).last.isEof := by
  rw [Token.scan_ofString]
  rfl

/-- Two texts without a problem are, joined, read without one, as the statements of both. -/
theorem reading_join {s s' : String} (hs : (Reading.ofString s).problems = [])
    (hs' : (Reading.ofString s').problems = []) :
    (Reading.ofString (s ++ "\n" ++ s')).problems = [] ∧
      (Reading.ofString (s ++ "\n" ++ s')).statements = (Reading.ofString s).statements ++
        Stmt.relocateAll (movedBehind s) (Reading.ofString s').statements := by
  obtain ⟨hscan, hparse⟩ := problems_eq_nil_iff.1 hs
  obtain ⟨hscan', hparse'⟩ := problems_eq_nil_iff.1 hs'
  have hclosed : ∀ e ∈ (Token.Scan.ofString s).errors, e.cause ≠ .unterminatedString := by
    rw [hscan]
    simp
  have htokens : (Token.Scan.ofString (s ++ "\n" ++ s')).tokens =
      (Token.Scan.ofString s).items.filterMap Except.toOption ++
        (Token.Scan.ofString s').tokens.map (movedBehind s) := Token.tokens_join hclosed s'
  have heof : ∃ t ∈ (Token.Scan.ofString s').tokens, t.isEof :=
    ⟨_, List.mem_append_right _ (List.mem_singleton_self _), isEof_last s'⟩
  obtain ⟨hstatements, herrors⟩ := Grammar.parse_map (relocation_movedBehind s) heof
  rw [hparse', List.map_nil] at herrors
  have hclosing : Grammar.Closing [(Token.Scan.ofString s).last] := by
    intro t ht
    cases ht
    exact isEof_last s
  obtain ⟨hnone, hboth⟩ :=
    Grammar.parse_append (fun t ht => Token.kind_ne_eof ht) hclosing hparse herrors
  rw [hstatements] at hboth
  rw [← htokens] at hnone hboth
  refine ⟨problems_eq_nil_iff.2 ⟨?_, hnone⟩, ?_⟩
  · rw [Token.errors_join hclosed, hscan, hscan']
    rfl
  · rw [statements_ofString, statements_ofString, statements_ofString]
    exact hboth

theorem problems_intercalate : ∀ chunks : List String,
    (∀ s ∈ chunks, (Reading.ofString s).problems = []) →
      (Reading.ofString ("\n".intercalate chunks)).problems = []
  | [], _ => rfl
  | [s], h => by
      rw [String.intercalate_singleton]
      exact h s List.mem_cons_self
  | s :: s' :: chunks, h => by
      rw [String.intercalate_cons_cons]
      exact (reading_join (h s List.mem_cons_self)
        (problems_intercalate (s' :: chunks) fun t ht => h t (List.mem_cons_of_mem s ht))).1

/-! ### Running joined texts -/

/-- The run ended without a fault, or with this one. -/
def Run.EndsWith (run : Run) : Except Fault Unit → Prop
  | .ok _ => run.outcome = .ok ∧ run.faults = []
  | .error f => run.outcome = .runtimeError ∧ run.faults = [f]

/-- Statements behind others are what follows these. -/
theorem Stmt.executeAll_append (ss ss' : List Stmt) :
    executeAll (ss ++ ss') = executeAll ss >>= fun _ => executeAll ss' := by
  induction ss with
  | nil => exact (pure_bind () fun _ => executeAll ss').symm
  | cons s ss ih => rw [List.cons_append, executeAll, executeAll, ih, bind_assoc]

namespace Machine

variable {m : Machine} {s s' : String}

/-- A text without a problem ends as its statements do. -/
theorem run_endsWith (hs : (Reading.ofString s).problems = []) {r : Except Fault Unit} {m' : Machine}
    (h : ending (Stmt.executeAll (Reading.ofString s).statements) { m with moves := [] } = (r, m')) :
    (m.run s).EndsWith r ∧ (m.run s).machine = m' := by
  obtain ⟨houtcome, hmachine, hfaults⟩ := run_of_clean (m := m) hs
  cases r with
  | ok =>
      obtain ⟨ho, hm, hf⟩ := interpret_ok h
      exact ⟨⟨houtcome.trans ho, hfaults.trans hf⟩, hmachine.trans hm⟩
  | error f =>
      obtain ⟨ho, hm, hf⟩ := interpret_error h
      exact ⟨⟨houtcome.trans ho, hfaults.trans hf⟩, hmachine.trans hm⟩

/-- A text without a problem is run to its end or to a fault. -/
theorem exists_endsWith (hs : (Reading.ofString s).problems = []) (m : Machine) :
    ∃ r, (m.run s).EndsWith r := by
  cases h : ending (Stmt.executeAll (Reading.ofString s).statements) { m with moves := [] } with
  | mk r m' => exact ⟨r, (run_endsWith hs h).1⟩

/-- Two texts, joined, do what the first one does and, unless it ends with a fault, what the second
one does then. -/
theorem run_join (hs : (Reading.ofString s).problems = [])
    (hs' : (Reading.ofString s').problems = []) (m : Machine) :
    (∃ f, (m.run s).EndsWith (.error f) ∧ (m.run (s ++ "\n" ++ s')).EndsWith (.error f) ∧
      (m.run (s ++ "\n" ++ s')).machine = (m.run s).machine) ∨
    ∃ r : Except Fault Unit, (m.run s).EndsWith (.ok ()) ∧ ((m.run s).machine.run s').EndsWith r ∧
      (m.run (s ++ "\n" ++ s')).EndsWith (r.mapError (·.relocate (movedBehind s))) ∧
      ((m.run s).machine.run s').machine.Agrees (m.run (s ++ "\n" ++ s')).machine := by
  obtain ⟨hclean, hstatements⟩ := reading_join hs hs'
  have hwhole : ending (Stmt.executeAll (Reading.ofString (s ++ "\n" ++ s')).statements)
        { m with moves := [] } =
      ending (Stmt.executeAll (Reading.ofString s).statements >>= fun _ =>
        Stmt.executeAll (Stmt.relocateAll (movedBehind s) (Reading.ofString s').statements))
        { m with moves := [] } := by
    rw [hstatements, Stmt.executeAll_append]
  cases h : ending (Stmt.executeAll (Reading.ofString s).statements) { m with moves := [] } with
  | mk r m₁ =>
      obtain ⟨hend, hm₁⟩ := run_endsWith hs h
      cases r with
      | error f =>
          obtain ⟨hend', hm'⟩ := run_endsWith hclean (hwhole.trans (ending_bind_error h))
          exact .inl ⟨f, hend, hend', hm'.trans hm₁.symm⟩
      | ok =>
          -- The second text is run with no moves to remember, the second half of the joined one
          -- with those of the first half.
          obtain ⟨hresult, hagrees⟩ := executeAll_follows (relocation_movedBehind s)
            (Reading.ofString s').statements { m₁ with moves := [] } m₁ ⟨rfl, rfl⟩
          rw [ending_bind_ok h] at hwhole
          rw [← hwhole] at hresult hagrees
          cases h₂ : ending (Stmt.executeAll (Reading.ofString s').statements)
              { m₁ with moves := [] } with
          | mk r m₂ =>
              cases h₃ : ending (Stmt.executeAll (Reading.ofString (s ++ "\n" ++ s')).statements)
                  { m with moves := [] } with
              | mk r' m₃ =>
                  rw [h₂, h₃] at hresult hagrees
                  cases hresult
                  obtain ⟨hend₂, hm₂⟩ := run_endsWith hs' h₂
                  obtain ⟨hend₃, hm₃⟩ := run_endsWith hclean h₃
                  rw [hm₁, hm₂, hm₃]
                  exact .inr ⟨r, hend, hend₂, hend₃, hagrees⟩

end Machine

/-! ### Chunks one after the other -/

namespace Machine

/-- The runs of texts one after the other, up to the first one that ends with a fault. -/
def runAll (m : Machine) : List String → List Run
  | [] => []
  | s :: ss =>
    let run := m.run s
    if run.outcome = .runtimeError then [run] else run :: run.machine.runAll ss

/-- The machine behind runs one after the other: that of the last one, if there is one. -/
def behind (m : Machine) : List Run → Machine
  | [] => m
  | run :: runs => run.machine.behind runs

variable {m : Machine} {s : String}

theorem runAll_of_ok (h : (m.run s).EndsWith (.ok ())) (ss : List String) :
    m.runAll (s :: ss) = m.run s :: (m.run s).machine.runAll ss := by
  rw [runAll, h.1]
  rfl

theorem runAll_of_error {f : Fault} (h : (m.run s).EndsWith (.error f)) (ss : List String) :
    m.runAll (s :: ss) = [m.run s] := by
  rw [runAll, h.1]
  rfl

end Machine

/-- What stands in front of a chunk: the chunks before it, each with a line break behind it. -/
def textBefore : List String → String
  | [] => ""
  | s :: ss => s ++ "\n" ++ textBefore ss

/-- The runs of the chunks and the run of the joined text end alike. -/
inductive Run.SameEnd (chunks : List String) (runs : List Run) (whole : Run) : Prop where
  /-- All chunks were run, and there was no fault. -/
  | ok (hlen : runs.length = chunks.length) (hruns : ∀ run ∈ runs, run.EndsWith (.ok ()))
      (hwhole : whole.EndsWith (.ok ()))
  /-- One chunk, the last to be run, ended with a fault, and so did the joined text.  The faults have
  the same cause and are blamed on the same token, which in the joined text stands behind the lines
  in front of the chunk. -/
  | fault (earlier later : List String) (chunk : String) (done : List Run) (run : Run) (f f' : Fault)
      (hchunks : chunks = earlier ++ chunk :: later) (hruns : runs = done ++ [run])
      (hlen : done.length = earlier.length) (hdone : ∀ run ∈ done, run.EndsWith (.ok ()))
      (hrun : run.EndsWith (.error f)) (hwhole : whole.EndsWith (.error f'))
      (htext : ∃ behind, "\n".intercalate chunks = textBefore earlier ++ chunk ++ behind)
      (hcause : f'.cause = f.cause) (hkind : f'.token.kind = f.token.kind)
      (hlexeme : f'.token.lexeme = f.token.lexeme)
      (hline : f'.line = lineBreaks (textBefore earlier).toList + f.line)

namespace Run.SameEnd

variable {m : Machine} {s : String} {chunks : List String} {runs : List Run} {run whole whole' : Run}

/-- A fault in the first chunk ends everything. -/
theorem first {f : Fault} (hrun : run.EndsWith (.error f)) (hwhole : whole.EndsWith (.error f))
    (htext : ∃ behind, "\n".intercalate (s :: chunks) = s ++ behind) :
    SameEnd (s :: chunks) [run] whole := by
  obtain ⟨behind, htext⟩ := htext
  refine .fault [] chunks s [] run f f rfl rfl rfl (by simp) hrun hwhole ⟨behind, ?_⟩ rfl rfl rfl ?_
  · rw [htext, textBefore, String.empty_append]
  · simp [textBefore, lineBreaks]

/-- A chunk in front that ends without a fault moves what happens behind it. -/
theorem cons (hne : chunks ≠ []) (hrun : run.EndsWith (.ok ())) (h : SameEnd chunks runs whole)
    {r : Except Fault Unit} (hr : whole.EndsWith r)
    (hwhole' : whole'.EndsWith (r.mapError (·.relocate (movedBehind s)))) :
    SameEnd (s :: chunks) (run :: runs) whole' := by
  cases h with
  | ok hlen hruns hwhole =>
      cases r with
      | error f =>
          have : Outcome.ok = .runtimeError := hwhole.1.symm.trans hr.1
          cases this
      | ok =>
          refine .ok (by rw [List.length_cons, hlen, List.length_cons]) ?_ hwhole'
          exact List.forall_mem_cons.2 ⟨hrun, hruns⟩
  | fault earlier later chunk done last f f' hchunks hruns hlen hdone hlast hwhole htext hcause
      hkind hlexeme hline =>
      cases r with
      | ok =>
          have : Outcome.runtimeError = .ok := hwhole.1.symm.trans hr.1
          cases this
      | error g =>
          obtain rfl : f' = g := List.singleton_injective (hwhole.2.symm.trans hr.2)
          obtain ⟨behind, htext⟩ := htext
          refine .fault (s :: earlier) later chunk (run :: done) last f _ (by rw [hchunks]; rfl)
            (by rw [hruns]; rfl) (by rw [List.length_cons, hlen, List.length_cons])
            (List.forall_mem_cons.2 ⟨hrun, hdone⟩) hlast hwhole' ⟨behind, ?_⟩ hcause hkind hlexeme ?_
          · rw [String.intercalate_cons_of_ne_nil hne, htext, textBefore]
            simp only [String.append_assoc]
          · have hbreaks : lineBreaks (textBefore (s :: earlier)).toList =
                lineBreaks s.toList + 1 + lineBreaks (textBefore earlier).toList := by
              simp [textBefore, lineBreaks]
              omega
            calc (f'.relocate (movedBehind s)).line
                = lineBreaks s.toList + 1 + f'.line := rfl
              _ = lineBreaks (textBefore (s :: earlier)).toList + f.line := by
                  rw [hline, hbreaks]
                  omega

end Run.SameEnd

/-- **Chunks.**  Texts that have no problem, joined by line breaks, have none either.  Run at once,
they leave the scopes and the sink as they are left by the runs of the texts one after the other, up
to the first that ends with a fault; and they end as these runs do. -/
theorem Machine.run_intercalate : ∀ (chunks : List String) (m : Machine),
    (∀ s ∈ chunks, (Reading.ofString s).problems = []) →
      (m.behind (m.runAll chunks)).Agrees (m.run ("\n".intercalate chunks)).machine ∧
        Run.SameEnd chunks (m.runAll chunks) (m.run ("\n".intercalate chunks)) := by
  intro chunks
  induction chunks with
  | nil =>
      intro m _
      obtain ⟨hend, hm⟩ := run_endsWith (m := m) (s := "") rfl (r := .ok ()) rfl
      rw [String.intercalate_nil, runAll, behind, hm]
      exact ⟨⟨rfl, rfl⟩, .ok rfl (by simp) hend⟩
  | cons s chunks ih =>
      intro m h
      have hs := h s List.mem_cons_self
      by_cases hne : chunks = []
      · subst hne
        rw [String.intercalate_singleton]
        obtain ⟨r, hend⟩ := exists_endsWith hs m
        cases r with
        | ok =>
            rw [runAll_of_ok hend, runAll, behind, behind]
            exact ⟨.refl _, .ok rfl (by simpa using hend) hend⟩
        | error f =>
            rw [runAll_of_error hend, behind, behind]
            exact ⟨.refl _, .first hend hend ⟨"", by simp⟩⟩
      · have hchunks := fun t ht => h t (List.mem_cons_of_mem s ht)
        rw [String.intercalate_cons_of_ne_nil hne]
        rcases run_join hs (problems_intercalate chunks hchunks) m with
          ⟨f, hend, hwhole, hm⟩ | ⟨r, hend, hrest, hwhole, hm⟩
        · rw [runAll_of_error hend, behind, behind, hm]
          refine ⟨.refl _, .first hend hwhole ?_⟩
          exact ⟨"\n" ++ "\n".intercalate chunks, by
            rw [String.intercalate_cons_of_ne_nil hne, String.append_assoc]⟩
        · rw [runAll_of_ok hend, behind]
          obtain ⟨hagrees, hsame⟩ := ih (m.run s).machine hchunks
          exact ⟨hagrees.trans hm, hsame.cons hne hend hrest hwhole⟩

/-- A declaration, a block on two lines that negates nil, and a line that is not reached. -/
def sessionChunks : List String := ["var a;", "\x7b var b = a;\n-b; \x7d", "a = !a;"]

/-- The second chunk ends with a fault on its second line, which is the third line of the joined text;
`a` is still nil. -/
theorem run_intercalate_session :
    (∀ s ∈ sessionChunks, (Reading.ofString s).problems = []) ∧
      ((Machine.initial .unlimited).behind
          ((Machine.initial .unlimited).runAll sessionChunks)).Agrees
        ((Machine.initial .unlimited).run ("\n".intercalate sessionChunks)).machine ∧
      Run.SameEnd sessionChunks ((Machine.initial .unlimited).runAll sessionChunks)
        ((Machine.initial .unlimited).run ("\n".intercalate sessionChunks)) ∧
      ((Machine.initial .unlimited).run ("\n".intercalate sessionChunks)).faults.map Fault.line =
        [3] := by
  have h : ∀ s ∈ sessionChunks, (Reading.ofString s).problems = [] := by
    intro s hs
    rcases List.mem_cons.1 hs with rfl | hs
    · rfl
    rcases List.mem_cons.1 hs with rfl | hs
    · rfl
    rcases List.mem_cons.1 hs with rfl | hs
    · rfl
    · cases hs
  obtain ⟨hagrees, hsame⟩ := Machine.run_intercalate sessionChunks (.initial .unlimited) h
  exact ⟨h, hagrees, hsame, rfl⟩

end Lox
