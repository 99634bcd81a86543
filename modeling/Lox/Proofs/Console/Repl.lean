import Lox.Console.Repl
import Lox.Proofs.Execution.Output
import Lox.Proofs.Run.Chunks
import Lox.Proofs.Text.Decoding
import Mathlib.Data.List.Basic

/-!
# Proofs — Console — A bad line in a session

**Bad line** (`answer_bad_line`).  A line with a problem leaves no trace in a session but its own:
one prompt more is printed, its problems are told, and every other line prints and tells what it
does without it.

A session is laid out line by line in a `Transcript`, in which each line begins with an empty sink;
nothing is lost by this, since a program does not look at what was written before
(`answer_eq_transcript`).  Lines that do not end a session lead from one prompt to another, whatever
follows them (`exists_exchanges`), and a line with a problem leads back to the prompt that it was
read at (`transcript_bad_line`).  Nor is there a trace in a reporter, since what it has counted
makes no difference to a line (`reactToText_session`).
-/

namespace Lox.Console.Repl

open Token (Scan)

variable {s : Settings} {m : Machine} {line : String}

/-! ### Lines of text -/

/-- The bytes of a line with its line break. -/
def bytesOf (line : String) : ByteArray := (line ++ "\n").toUTF8

/-- A line break ends the first line. -/
theorem linesFrom_append {bs : List UInt8} (h : 10 ∉ bs) (front rest : List UInt8) :
    linesFrom front (bs ++ 10 :: rest) =
      ⟨(front.reverse ++ (bs ++ [10])).toArray⟩ :: linesFrom [] rest := by
  induction bs generalizing front with
  | nil =>
      rw [List.nil_append, linesFrom, if_pos rfl, List.reverse_cons, List.nil_append]
  | cons b bs ih =>
      obtain ⟨hb, hbs⟩ := List.ne_and_not_mem_of_not_mem_cons h
      rw [List.cons_append, linesFrom, if_neg (Ne.symm hb), ih hbs, List.reverse_cons,
        List.append_assoc, List.singleton_append, List.cons_append]

/-- A line of text, with a line break behind it, is the first line of an input. -/
theorem linesFrom_line (h : '\n' ∉ line.toList) (rest : String) :
    linesFrom [] (line ++ "\n" ++ rest).toUTF8.data.toList =
      bytesOf line :: linesFrom [] rest.toUTF8.data.toList := by
  have hbytes : 10 ∉ line.toUTF8.data.toList := fun h10 =>
    h ((Text.Utf8.mem_toUTF8 (d := '\n') (by decide) line).1 h10)
  have hbreak : (line ++ "\n").toUTF8.data.toList = line.toUTF8.data.toList ++ [10] :=
    Text.Utf8.toList_toUTF8_append line "\n"
  rw [Text.Utf8.toList_toUTF8_append, hbreak, List.append_assoc, List.singleton_append,
    linesFrom_append hbytes, List.reverse_nil, List.nil_append, ← hbreak]
  rfl

/-- Lines of text stand in front of the lines of what follows them. -/
theorem linesFrom_unlines {lines : List String} (h : ∀ line ∈ lines, '\n' ∉ line.toList)
    (rest : String) : linesFrom [] (unlines lines ++ rest).toUTF8.data.toList =
      lines.map bytesOf ++ linesFrom [] rest.toUTF8.data.toList := by
  induction lines with
  | nil =>
      rw [unlines, List.map_nil, String.join_nil, String.empty_append]
      rfl
  | cons line lines ih =>
      obtain ⟨hline, hlines⟩ := List.forall_mem_cons.1 h
      have hunlines :
          unlines (line :: lines) ++ rest = line ++ "\n" ++ (unlines lines ++ rest) := by
        rw [unlines, List.map_cons, String.join_cons, String.append_assoc]
        rfl
      rw [hunlines, linesFrom_line hline, ih hlines, List.map_cons, List.cons_append]

/-! ### Line breaks -/

theorem withoutBreak_of_not_mem {cs : List Char} (h : '\r' ∉ cs) :
    withoutBreak (cs ++ ['\n']) = cs := by
  rcases List.eq_nil_or_concat cs with rfl | ⟨ds, d, rfl⟩
  · rfl
  · have hd : d ≠ '\r' := by
      rintro rfl
      exact h (by simp)
    simp [withoutBreak, hd]

/-- A line without its line break is what stands in front of the line feed, but for a carriage
return. -/
theorem eq_of_withoutBreak {cs ds : List Char} (h : withoutBreak (cs ++ ['\n']) = ds) :
    cs = ds ∨ cs = ds ++ ['\r'] := by
  subst h
  rcases List.eq_nil_or_concat cs with rfl | ⟨ds, d, rfl⟩
  · exact .inl rfl
  · by_cases hd : d = '\r' <;> simp [withoutBreak, hd]

/-- The text of a line. -/
def textOf (line : String) : String :=
  String.ofList (withoutBreak (line ++ "\n").toList)

theorem react_bytesOf (s : Settings) (m : Machine) (line : String) :
    react s m (bytesOf line) = reactToText s m (textOf line) := by
  rw [react, bytesOf, Text.Utf8.decode_toUTF8]
  rfl

theorem textOf_of_not_mem (h : '\r' ∉ line.toList) : textOf line = line := by
  rw [textOf, String.toList_append]
  change String.ofList (withoutBreak (line.toList ++ ['\n'])) = line
  rw [withoutBreak_of_not_mem h, String.ofList_toList]

/-- Only two lines of text end a session. -/
theorem eq_of_textOf_eq_exitWord (h : textOf line = exitWord) :
    line = exitWord ∨ line = exitWord ++ "\r" := by
  have hlist : withoutBreak (line.toList ++ ['\n']) = exitWord.toList := by
    rw [← h, textOf, String.toList_ofList, String.toList_append]
    rfl
  rcases eq_of_withoutBreak hlist with hline | hline
  · exact .inl (String.toList_inj.1 hline)
  · refine .inr (String.toList_inj.1 ?_)
    rw [hline, String.toList_append]
    rfl

/-! ### Reactions -/

/-- What is done about a line does not depend on what a reporter has counted. -/
theorem reactToText_session (s : Settings) (session : Session) (hempty : line ≠ "")
    (hexit : line ≠ exitWord) :
    reactToText s session.machine line = .goesOn (session.run line).2.machine
      (s.told ((session.machine.run line).events ++
        [.note (.lineFinished (session.run line).1)])) := by
  rw [reactToText, if_neg hempty, if_neg hexit, Session.machine_run, Session.run_eq]

/-- A line that does not end a session leaves a sink without a limit. -/
theorem reactToText_goesOn (s : Settings) (h : m.sink.limit? = none) (hexit : line ≠ exitWord) :
    ∃ m' told, reactToText s m line = .goesOn m' told ∧ m'.sink.limit? = none := by
  by_cases hempty : line = ""
  · exact ⟨m, "", by rw [reactToText, if_pos hempty], h⟩
  · exact ⟨(m.run line).machine, _, by rw [reactToText, if_neg hempty, if_neg hexit],
      Machine.limit?_run h line⟩

/-- The reaction of a machine with other output in front of its own. -/
def Reaction.prefixed (front : ByteArray) : Reaction → Reaction
  | .goesOn m told => .goesOn (m.prefixed front) told
  | .ends code told => .ends code told

theorem react_prefixed (s : Settings) (h : m.sink.limit? = none) (front line : ByteArray) :
    react s (m.prefixed front) line = (react s m line).prefixed front := by
  rw [react, react]
  cases Text.Utf8.decode line with
  | error kind => rfl
  | ok text =>
      simp only [reactToText, Machine.run_prefixed h]
      split
      · rfl
      · split <;> rfl

theorem prompted_prefixed (h : m.sink.limit? = none) (front : ByteArray) :
    prompted (m.prefixed front) = (prompted m).prefixed front := by
  rw [prompted, prompted, Machine.prefixed, Machine.prefixed, Sink.write_prefixed h]

/-! ### Transcripts -/

/-- A line of a session: its bytes, what is printed on it, from the prompt on, and what is told. -/
structure Exchange where
  line : ByteArray
  printed : ByteArray
  told : String

/-- What is printed on lines. -/
def printedOn (exchanges : List Exchange) : ByteArray :=
  exchanges.foldr (·.printed ++ ·) .empty

/-- What is told on lines. -/
def toldOn (exchanges : List Exchange) : String := String.join (exchanges.map (·.told))

@[simp] theorem printedOn_nil : printedOn [] = .empty := rfl

@[simp] theorem printedOn_cons (e : Exchange) (es : List Exchange) :
    printedOn (e :: es) = e.printed ++ printedOn es := rfl

theorem printedOn_append (es es' : List Exchange) :
    printedOn (es ++ es') = printedOn es ++ printedOn es' := by
  induction es with
  | nil => rw [List.nil_append, printedOn_nil, ByteArray.empty_append]
  | cons e es ih =>
      rw [List.cons_append, printedOn_cons, printedOn_cons, ih, ByteArray.append_assoc]

@[simp] theorem toldOn_nil : toldOn [] = "" := rfl

@[simp] theorem toldOn_cons (e : Exchange) (es : List Exchange) :
    toldOn (e :: es) = e.told ++ toldOn es := String.join_cons

theorem toldOn_append (es es' : List Exchange) : toldOn (es ++ es') = toldOn es ++ toldOn es' := by
  rw [toldOn, List.map_append, String.join_append]
  rfl

/-- A session, line by line: the lines that are read, what is printed when there are no more, and
the exit code. -/
structure Transcript where
  exchanges : List Exchange
  closing : ByteArray
  code : Nat

/-- A transcript behind other lines. -/
def Transcript.behind (t : Transcript) (exchanges : List Exchange) : Transcript :=
  { t with exchanges := exchanges ++ t.exchanges }

/-- What a session comes to. -/
def Transcript.answer (t : Transcript) : Answer :=
  ⟨t.code, printedOn t.exchanges ++ t.closing, toldOn t.exchanges⟩

/-- The machine when all that it has written was printed. -/
def emptied (m : Machine) : Machine := { m with sink := { m.sink with written := .empty } }

/-- A session on lines of input, where what a line writes is printed at its end. -/
def transcript (s : Settings) (m : Machine) : List ByteArray → Transcript
  | [] => ⟨[], (ended (prompted m)).sink.written, 0⟩
  | line :: lines =>
    match react s (prompted m) line with
    | .goesOn m' told =>
      (transcript s (emptied m') lines).behind [⟨line, m'.sink.written, told⟩]
    | .ends code told => ⟨[⟨line, (prompted m).sink.written, told⟩], .empty, code⟩

/-- The lines of a transcript are those of the input, up to the one that ends the session. -/
theorem lines_transcript (s : Settings) (m : Machine) (lines : List ByteArray) :
    (transcript s m lines).exchanges.map (·.line) <+: lines := by
  induction lines generalizing m with
  | nil => exact List.nil_prefix
  | cons line lines ih =>
      rw [transcript]
      cases react s (prompted m) line with
      | goesOn m' told => exact List.cons_prefix_cons.2 ⟨rfl, ih (emptied m')⟩
      | ends code told => exact List.cons_prefix_cons.2 ⟨rfl, List.nil_prefix⟩

/-- What a machine has written may as well stand in front of its output. -/
theorem prefixed_eq_emptied (m : Machine) (front : ByteArray) :
    m.prefixed front = (emptied m).prefixed (front ++ m.sink.written) := by
  rw [Machine.prefixed, Machine.prefixed, emptied, ByteArray.append_empty]

/-- A line after which a session goes on leaves a sink without a limit. -/
theorem limit?_of_react {bytes : ByteArray} {m' : Machine} {told : String}
    (h : m.sink.limit? = none) (hreact : react s m bytes = .goesOn m' told) :
    m'.sink.limit? = none := by
  rw [react] at hreact
  cases hdecode : Text.Utf8.decode bytes with
  | error kind =>
      rw [hdecode] at hreact
      cases hreact
  | ok text =>
      rw [hdecode] at hreact
      by_cases hexit : String.ofList (withoutBreak text.toList) = exitWord
      · simp only [hexit] at hreact
        cases hreact
      · obtain ⟨m'', more, hgoes, hlimit⟩ := reactToText_goesOn s h hexit
        simp only [hgoes, Reaction.goesOn.injEq] at hreact
        exact hreact.1 ▸ hlimit

/-- What was printed and told before stays in front of the transcript of a session. -/
theorem session_prefixed (s : Settings) (h : m.sink.limit? = none) (front : ByteArray)
    (told : String) (lines : List ByteArray) :
    session s (m.prefixed front) told lines = ⟨(transcript s m lines).code,
      front ++ (printedOn (transcript s m lines).exchanges ++ (transcript s m lines).closing),
      told ++ toldOn (transcript s m lines).exchanges⟩ := by
  induction lines generalizing m front told with
  | nil =>
      have hprompted : (prompted m).sink.limit? = none := h
      rw [session, transcript, prompted_prefixed h, ended, Machine.prefixed,
        Sink.write_prefixed hprompted, printedOn_nil, ByteArray.empty_append, toldOn_nil,
        String.append_empty, ended]
  | cons line lines ih =>
      have hprompted : (prompted m).sink.limit? = none := h
      rw [session, transcript, prompted_prefixed h, react_prefixed s hprompted]
      cases hreact : react s (prompted m) line with
      | ends code more =>
          simp only [Reaction.prefixed, printedOn_cons, printedOn_nil, ByteArray.append_empty,
            toldOn_cons, toldOn_nil, String.append_empty, Machine.prefixed]
      | goesOn m' more =>
          have hlimit : m'.sink.limit? = none := limit?_of_react hprompted hreact
          have hemptied : (emptied m').sink.limit? = none := hlimit
          simp only [Reaction.prefixed]
          rw [prefixed_eq_emptied, ih hemptied]
          simp only [Transcript.behind, List.singleton_append, printedOn_cons, toldOn_cons,
            ByteArray.append_assoc, String.append_assoc]

/-- The transcript of a session on an input. -/
def transcriptOf (s : Settings) (input : ByteArray) : Transcript :=
  transcript s (.initial .unlimited) (linesFrom [] input.data.toList)

/-- A session comes to what its transcript comes to. -/
theorem answer_eq_transcript (s : Settings) (input : ByteArray) :
    answer s input = (transcriptOf s input).answer := by
  have hinitial : Machine.prefixed (.initial .unlimited) .empty = .initial .unlimited := rfl
  rw [answer, ← hinitial, session_prefixed s rfl, ByteArray.empty_append, String.empty_append]
  rfl

/-! ### Lines that do not end a session -/

/-- The sink of the machine takes everything, and there is nothing in it. -/
structure AtPrompt (m : Machine) : Prop where
  limit : m.sink.limit? = none
  written : m.sink.written = .empty

theorem transcript_goesOn {bytes : ByteArray} {m' : Machine} {told : String}
    (h : react s (prompted m) bytes = .goesOn m' told) (lines : List ByteArray) :
    transcript s m (bytes :: lines) =
      (transcript s (emptied m') lines).behind [⟨bytes, m'.sink.written, told⟩] := by
  rw [transcript, h]

/-- Lines that do not end a session lead to another prompt, whatever follows them. -/
theorem exists_exchanges (s : Settings) (hm : AtPrompt m) (lines : List String)
    (hlines : ∀ line ∈ lines, line ≠ exitWord ∧ line ≠ exitWord ++ "\r") :
    ∃ es m', AtPrompt m' ∧ es.map (·.line) = lines.map bytesOf ∧ ∀ rest,
      transcript s m (lines.map bytesOf ++ rest) = (transcript s m' rest).behind es := by
  induction lines generalizing m with
  | nil => exact ⟨[], m, hm, rfl, fun rest => rfl⟩
  | cons line lines ih =>
      obtain ⟨hline, hrest⟩ := List.forall_mem_cons.1 hlines
      have hexit : textOf line ≠ exitWord := fun h =>
        (eq_of_textOf_eq_exitWord h).elim hline.1 hline.2
      have hprompted : (prompted m).sink.limit? = none := hm.limit
      obtain ⟨m', told, hreact, hlimit⟩ := reactToText_goesOn s hprompted hexit
      rw [← react_bytesOf] at hreact
      obtain ⟨es, m'', hm'', hes, htranscript⟩ := ih (m := emptied m') ⟨hlimit, rfl⟩ hrest
      refine ⟨⟨bytesOf line, m'.sink.written, told⟩ :: es, m'', hm'', ?_, fun rest => ?_⟩
      · rw [List.map_cons, hes, List.map_cons]
      · rw [List.map_cons, List.cons_append, transcript_goesOn hreact, htranscript]
        rfl

/-! ### A line with a problem -/

/-- What is told about a line with a problem. -/
def toldOfBad (s : Settings) (bad : String) : String :=
  s.told ((Reading.ofString bad).events ++ [.note (.lineFinished .syntaxError)])

/-- A line with a problem leads back to the prompt that it was read at. -/
theorem transcript_bad_line (s : Settings) (hm : AtPrompt m) {bad : String}
    (hbreak : '\r' ∉ bad.toList) (hexit : bad ≠ exitWord)
    (hproblem : (Reading.ofString bad).problems ≠ []) (rest : List ByteArray) :
    transcript s m (bytesOf bad :: rest) =
      (transcript s m rest).behind [⟨bytesOf bad, prompt.toUTF8, toldOfBad s bad⟩] := by
  have hempty : bad ≠ "" := by
    rintro rfl
    exact hproblem (by decide)
  have hreact : react s (prompted m) (bytesOf bad) = .goesOn (prompted m) (toldOfBad s bad) := by
    rw [react_bytesOf, textOf_of_not_mem hbreak, reactToText, if_neg hempty, if_neg hexit,
      Machine.run_eq_rejected hproblem]
    rfl
  have hprinted : (prompted m).sink.written = prompt.toUTF8 := by
    rw [prompted, Sink.written_write hm.limit, hm.written, ByteArray.empty_append]
  have hemptied : emptied (prompted m) = m := by
    rw [emptied, ← hm.written]
    rfl
  rw [transcript_goesOn hreact, hprinted, hemptied]

/-- Nothing but problems is told of events that are problems and notes that are not told. -/
theorem told_problems {events : List Event} (h : ∀ event ∈ events,
    (∃ p, event = .problem p) ∨ ∃ n, event = .note n ∧ s.tells n = false) :
    s.told events = unlines ((events.filterMap Event.problem?).map Problem.text) := by
  rw [Settings.told, List.map_filterMap]
  refine congrArg unlines (List.filterMap_congr fun event hevent => ?_)
  obtain ⟨p, rfl⟩ | ⟨n, rfl, hn⟩ := h event hevent
  · rfl
  · simp only [hn, Bool.false_eq_true, if_false, Event.problem?, Option.map_none]

/-- By default, the problems of a line are all that is told about it. -/
theorem toldOfBad_default (h : s.verbosity = 0) (bad : String) :
    toldOfBad s bad = unlines ((Reading.ofString bad).problems.map Problem.text) := by
  have hdetail (n : Note) (hlevel : n.level = .debug ∨ n.level = .trace) : s.tells n = false := by
    rcases hlevel with hlevel | hlevel <;> rw [Settings.tells, h, hlevel] <;> rfl
  have hfinished : [Event.note (.lineFinished .syntaxError)].filterMap Event.problem? = [] := rfl
  rw [toldOfBad, told_problems, List.filterMap_append, hfinished, List.append_nil, Reading.problems]
  intro event hevent
  simp only [Reading.ofString, List.mem_append, List.mem_map, List.mem_cons, List.not_mem_nil,
    or_false] at hevent
  rcases hevent with ((⟨e, -, rfl⟩ | rfl | ⟨n, -, rfl⟩) | rfl) | rfl
  · exact .inl ⟨_, rfl⟩
  · exact .inr ⟨_, rfl, hdetail _ (.inl rfl)⟩
  · cases n with
    | error e => exact .inl ⟨_, rfl⟩
    | resumed before => exact .inr ⟨_, rfl, hdetail _ (.inr rfl)⟩
  · exact .inr ⟨_, rfl, hdetail _ (.inl rfl)⟩
  · exact .inr ⟨_, rfl, hdetail _ (.inl rfl)⟩

/-- **Bad line.**  Let lines be typed of which none ends the session, and then anything.  Between
the two, let a line be typed that is not `.exit`, has no line break in it, and has a problem when it
is scanned and parsed alone.  Then the session is, line by line, what it is without that line, and
ends in the same way with the same exit code.  On the line itself the prompt is printed, and nothing
else; what is told of it, unless more is asked for, are its own problems, each once. -/
theorem answer_bad_line (s : Settings) (lines : List String) (bad back : String)
    (hlines : ∀ line ∈ lines, '\n' ∉ line.toList ∧ line ≠ exitWord ∧ line ≠ exitWord ++ "\r")
    (hbreak : '\n' ∉ bad.toList ∧ '\r' ∉ bad.toList) (hexit : bad ≠ exitWord)
    (hproblem : (Scan.ofString bad).errors ≠ [] ∨
      (Parse.ofTokens (Scan.ofString bad).tokens).errors ≠ []) :
    let input := (unlines lines ++ back).toUTF8
    let input' := (unlines lines ++ (bad ++ "\n" ++ back)).toUTF8
    let problems := (Scan.ofString bad).errors.map Problem.lexical ++
      (Parse.ofTokens (Scan.ofString bad).tokens).errors.map Problem.grammar
    ∃ front behind closing code,
      front.map (·.line) = lines.map bytesOf ∧
      behind.map (·.line) <+: linesFrom [] back.toUTF8.data.toList ∧
      transcriptOf s input = ⟨front ++ behind, closing, code⟩ ∧
      transcriptOf s input' =
        ⟨front ++ ⟨bytesOf bad, prompt.toUTF8, toldOfBad s bad⟩ :: behind, closing, code⟩ ∧
      answer s input = ⟨code, printedOn front ++ (printedOn behind ++ closing),
        toldOn front ++ toldOn behind⟩ ∧
      answer s input' = ⟨code, printedOn front ++ (prompt.toUTF8 ++ (printedOn behind ++ closing)),
        toldOn front ++ (toldOfBad s bad ++ toldOn behind)⟩ ∧
      (s.verbosity = 0 → toldOfBad s bad = unlines (problems.map Problem.text)) := by
  intro input input' problems
  have hproblems : (Reading.ofString bad).problems ≠ [] := by
    rwa [ne_eq, problems_eq_nil_iff, not_and_or]
  have hnewlines (line : String) (hline : line ∈ lines) := (hlines line hline).1
  obtain ⟨front, m, hm, hfront, htranscript⟩ :=
    exists_exchanges (m := .initial .unlimited) s ⟨rfl, rfl⟩ lines fun line hline =>
      (hlines line hline).2
  -- both sessions come to the same machine, on which what follows is read
  have hinput : transcriptOf s input =
      (transcript s m (linesFrom [] back.toUTF8.data.toList)).behind front := by
    rw [transcriptOf, linesFrom_unlines hnewlines, htranscript]
  have hinput' : transcriptOf s input' =
      ((transcript s m (linesFrom [] back.toUTF8.data.toList)).behind
        [⟨bytesOf bad, prompt.toUTF8, toldOfBad s bad⟩]).behind front := by
    rw [transcriptOf, linesFrom_unlines hnewlines, htranscript, linesFrom_line hbreak.1,
      transcript_bad_line s hm hbreak.2 hexit hproblems]
  have hbehind := lines_transcript s m (linesFrom [] back.toUTF8.data.toList)
  rw [answer_eq_transcript, answer_eq_transcript, hinput, hinput']
  generalize transcript s m (linesFrom [] back.toUTF8.data.toList) = t at hbehind
  obtain ⟨behind, closing, code⟩ := t
  refine ⟨front, behind, closing, code, hfront, hbehind, rfl, rfl, ?_, ?_, fun hdefault => ?_⟩
  · rw [Transcript.answer, Transcript.behind, printedOn_append, toldOn_append,
      ByteArray.append_assoc]
  · simp only [Transcript.answer, Transcript.behind, List.singleton_append, printedOn_append,
      printedOn_cons, toldOn_append, toldOn_cons, ByteArray.append_assoc]
  · rw [toldOfBad_default hdefault, problems_ofString]

/-- A line that ends with a fault inside two blocks, and one behind it. -/
def faultedLines : List String := ["var a = nil; { { a = true; print missing; } }", "print a;"]

/-- Behind a line that faults, a line with two problems makes no difference to the lines that
follow. -/
theorem answer_bad_line_faulted :
    ∃ out out' err err' code,
      answer ⟨0, false⟩ (unlines faultedLines ++ "print a;\n.exit\n").toUTF8 =
        ⟨code, out ++ out', err ++ err'⟩ ∧
      answer ⟨0, false⟩
          (unlines faultedLines ++ ("@ print ;" ++ "\n" ++ "print a;\n.exit\n")).toUTF8 =
        ⟨code, out ++ ("> ".toUTF8 ++ out'),
          err ++ (("[line 1] Error: Unexpected character.\n" ++
            "[line 1] Error at ';': Expect expression.\n") ++ err')⟩ := by
  obtain ⟨front, behind, closing, code, -, -, -, -, hanswer, hanswer', htold⟩ :=
    answer_bad_line ⟨0, false⟩ faultedLines "@ print ;" "print a;\n.exit\n" (by decide) (by decide)
      (by decide) (.inl (by decide))
  rw [htold rfl] at hanswer'
  exact ⟨_, _, _, _, _, hanswer, hanswer'⟩

end Lox.Console.Repl
