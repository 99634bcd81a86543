import Lox.Proofs.Diagnostic.Line
import Lox.Proofs.Run.Layout
import Lox.Run.Failure

/-!
# Proofs — Run — Positions

**Positions** (`positions_right`).  Whatever is told of a text that is shorter than 2^32 bytes, be it
a token, an error or a fault, is told with a span of the text that cuts no character, and with the line
that the span starts on; so a message names the line that a snippet shows.  Only a string that is not
closed is reported on the last line, which need not be the one that it starts on.

Tokens and lexical errors are placed where their pieces are (`Token.startsOn_of_mem_tokens`,
`Token.startsOn_of_mem_errors`), and all other errors and all faults are blamed on tokens.  A snippet
finds its line by the bytes alone, and comes to the same one (`Span.StartsOn.shows`), however it
finds the line of an offset (`Line.Finds`).
-/

namespace Lox

open Token (Scan Located Piece Item lineBreaks located)

/-! ### Lines -/

/-- A span lies in a source, and starts on this line of it: there is a line break in front of it for
each line before. -/
structure Span.StartsOn (span : Span) (source : String) (line : Nat) : Prop where
  within : span.Within source
  line : ∃ before behind : String, source = before ++ behind ∧
    before.utf8ByteSize = span.start.toNat ∧ line = 1 + lineBreaks before.toList

namespace Token

variable {s : String} {l : Located}

/-- A located piece starts on its line. -/
theorem startsOn_of_mem_located (hs : s.utf8ByteSize < 2 ^ 32) (hl : l ∈ located s) :
    l.span.StartsOn s l.line where
  within := (covers_of_mem_located hs hl).within
  line := by
    obtain ⟨behind, hbehind⟩ := prefix_of_mem_located hl
    refine ⟨String.ofList l.before, String.ofList (l.piece.text ++ behind), ?_, ?_, ?_⟩
    · rw [← String.ofList_append, ← List.append_assoc, ← Located.after, hbehind,
        String.ofList_toList]
    · rw [toNat_start hs hl, utf8ByteSize_ofList]
    · rw [String.toList_ofList]
      rfl

theorem startsOn_of_mem_tokens (hs : s.utf8ByteSize < 2 ^ 32) {t : Token}
    (ht : t ∈ (Scan.ofString s).tokens) : t.span.StartsOn s t.line := by
  rcases List.mem_append.1 ht with ht | ht
  · obtain ⟨l, hl, hitem⟩ := mem_items.1 (mem_filterMap_toOption.1 ht)
    have hstarts := startsOn_of_mem_located hs hl
    rw [Located.item?, Piece.item?] at hitem
    split at hitem <;> cases hitem
    exact hstarts
  · rw [List.mem_singleton.1 ht]
    refine ⟨within_last hs, s, "", String.append_empty.symm, (toNat_span_last hs).1.symm, ?_⟩
    rw [scan_ofString]
    rfl

/-- An error is reported on the line that its piece starts on, but a string that is not closed on
the one that it ends on. -/
theorem line_of_item? {e : LexicalError} (h : l.item? = some (.error e)) :
    e.line = if e.cause = .unterminatedString then 1 + lineBreaks l.after else l.line := by
  rw [Located.item?, Piece.item?] at h
  split at h <;> cases h
  · rfl
  · rw [if_pos rfl, Located.after, lineBreaks_append, ← Nat.add_assoc]
    rfl

/-- A string that is not closed reaches to the end. -/
theorem after_of_unterminated (hl : l ∈ located s) {e : LexicalError}
    (h : l.item? = some (.error e)) (hcause : e.cause = .unterminatedString) :
    l.after = s.toList := by
  rcases item?_cases (pieced_pieces _) hl h with
    ⟨t, hi, -⟩ | ⟨e, c, hi, hc, -⟩ | ⟨e, body, -, -, -, -, hend⟩
  · cases hi
  · cases hi
    rw [hc] at hcause
    cases hcause
  · exact hend.symm

/-- An error is reported on the line that it starts on, but a string that is not closed on the last
line. -/
theorem startsOn_of_mem_errors (hs : s.utf8ByteSize < 2 ^ 32) {e : LexicalError}
    (he : e ∈ (Scan.ofString s).errors) :
    ∃ line, e.span.StartsOn s line ∧
      e.line = if e.cause = .unterminatedString then 1 + lineBreaks s.toList else line := by
  obtain ⟨l, hl, hitem⟩ := mem_items.1 (mem_errors.1 he)
  refine ⟨l.line, ?_, ?_⟩
  · rw [show e.span = l.span from span_of_item? hitem]
    exact startsOn_of_mem_located hs hl
  · rw [line_of_item? hitem]
    split
    next hcause => rw [after_of_unterminated hl hitem hcause]
    next => rfl

end Token

/-! ### Snippets -/

/-- A diagnostic is about these bytes of a source, none of which is cut off, and its snippet begins
on this line. -/
structure Diagnostic.Shows (indexAt : String → Nat → Nat) (d : Diagnostic) (path source : String)
    (span : Span) (line : Nat) : Prop where
  location : ∃ l, d.location? = some l ∧ l.path = path ∧ l.source = source ∧ l.span = span ∧
    l.start = span.start.toNat ∧ l.stop = span.stop.toNat
  heading : ∀ l ∈ d.location?, indexAt l.source l.start + 1 = line

namespace Span

variable {indexAt : String → Nat → Nat} {span : Span} {source : String} {line : Nat}

/-- Ends that lie in the source are not moved to its end. -/
theorem Within.clamped (h : span.Within source) (path label : String) :
    (Location.mk path source span label).start = span.start.toNat ∧
      (Location.mk path source span label).stop = span.stop.toNat :=
  ⟨Nat.min_eq_left (h.ordered.trans h.inBounds), Nat.min_eq_left h.inBounds⟩

/-- The snippet of a span begins on the line that the span starts on. -/
theorem StartsOn.shows (hlines : Line.Finds indexAt) (h : span.StartsOn source line) (title : String)
    (notes : List String) (path label : String) :
    (Diagnostic.mk title notes (some ⟨path, source, span, label⟩)).Shows indexAt path source span
      line := by
  obtain ⟨hstart, hstop⟩ := h.within.clamped path label
  refine ⟨⟨_, rfl, rfl, rfl, rfl, hstart, hstop⟩, ?_⟩
  rintro _ ⟨⟩
  obtain ⟨before, behind, hsource, hsize, hline⟩ := h.line
  rw [hstart, ← hsize, hlines.eq_lineBreaks hsource, hline, Nat.add_comm]

end Span

/-! ### Problems and faults -/

/-- Whether a problem is a string that is not closed. -/
def Problem.isUnclosed : Problem → Bool
  | .lexical e => e.cause = .unterminatedString
  | .grammar _ => false

/-- A problem is told of where it is: its message begins with its line, which is the one that its
snippet shows, or the last one of the source if it is a string that is not closed. -/
structure Problem.Placed (indexAt : String → Nat → Nat) (p : Problem) (source : String) : Prop where
  text : ∃ rest, p.text = "[line " ++ toString p.line ++ "] Error" ++ rest
  start : ∃ line, p.span.StartsOn source line ∧
    (∀ path, (Failure.diagnosticOf path source p).Shows indexAt path source p.span line) ∧
    p.line = if p.isUnclosed then 1 + lineBreaks source.toList else line

/-- A fault is told of where it is: its message ends with its line, which is the one that its snippet
shows. -/
structure Fault.Placed (indexAt : String → Nat → Nat) (f : Fault) (source : String) : Prop where
  text : ∃ front, f.text = front ++ "[line " ++ toString f.line ++ "]"
  start : f.token.span.StartsOn source f.line
  shows : ∀ path, ∃ d, (Failure.stopped path source f).diagnostics = [d] ∧
    d.Shows indexAt path source f.token.span f.line

section

variable {indexAt : String → Nat → Nat} {source : String}

theorem LexicalError.placed (hlines : Line.Finds indexAt) (hs : source.utf8ByteSize < 2 ^ 32)
    {e : LexicalError} (he : e ∈ (Scan.ofString source).errors) :
    (Problem.lexical e).Placed indexAt source := by
  obtain ⟨line, hstart, hline⟩ := Token.startsOn_of_mem_errors hs he
  refine ⟨⟨": " ++ e.message, ?_⟩, line, hstart, fun path => hstart.shows hlines _ _ _ _, ?_⟩
  · simp only [Problem.text, LexicalError.text, Problem.line, String.append_assoc]
    rfl
  · simpa [Problem.isUnclosed, Problem.line] using hline

/-- What is blamed on a token starts where the token does. -/
theorem GrammarError.placed (hlines : Line.Finds indexAt) (hs : source.utf8ByteSize < 2 ^ 32)
    {e : GrammarError} (he : e ∈ (Parse.ofTokens (Scan.ofString source).tokens).errors) :
    (Problem.grammar e).Placed indexAt source := by
  have hstart := Token.startsOn_of_mem_tokens hs (token_mem_of_mem_errors (exists_isEof source) he)
  refine ⟨⟨e.place ++ ": " ++ e.message, ?_⟩, _, hstart, fun path => hstart.shows hlines _ _ _ _,
    rfl⟩
  simp only [Problem.text, GrammarError.text, Problem.line, String.append_assoc]

theorem Problem.placed (hlines : Line.Finds indexAt) (hs : source.utf8ByteSize < 2 ^ 32)
    {p : Problem} (hp : p ∈ (Reading.ofString source).problems) : p.Placed indexAt source := by
  rw [problems_ofString] at hp
  rcases List.mem_append.1 hp with hp | hp
  · obtain ⟨e, he, rfl⟩ := List.mem_map.1 hp
    exact e.placed hlines hs he
  · obtain ⟨e, he, rfl⟩ := List.mem_map.1 hp
    exact e.placed hlines hs he

/-- A fault of a text is blamed on one of its tokens. -/
theorem token_mem_of_mem_faults_run {m : Machine} {f : Fault} (hf : f ∈ (m.run source).faults) :
    f.token ∈ (Scan.ofString source).tokens := by
  by_cases hclean : (Reading.ofString source).problems = []
  · rw [(Machine.run_of_clean hclean).2.2, statements_ofString] at hf
    exact token_mem_of_mem_faults (exists_isEof source) hf
  · rw [Machine.faults_of_problem hclean] at hf
    cases hf

theorem Fault.placed (hlines : Line.Finds indexAt) (hs : source.utf8ByteSize < 2 ^ 32) {m : Machine}
    {f : Fault} (hf : f ∈ (m.run source).faults) : f.Placed indexAt source := by
  have hstart := Token.startsOn_of_mem_tokens hs (token_mem_of_mem_faults_run hf)
  refine ⟨⟨f.message ++ "\n", ?_⟩, hstart, fun path =>
    ⟨_, rfl, hstart.shows hlines _ _ _ _⟩⟩
  rw [Fault.text, show "\n[line " = "\n" ++ "[line " from rfl]
  simp only [String.append_assoc]

end

/-- **Positions.**  Let a text be shorter than 2^32 bytes.  Each of its tokens, each problem that is
told of it and each fault that a run of it ends with has a span that lies within the text and cuts no
character, so that a snippet takes the span as it is.  A token, a grammar error and a fault have the
line that the span starts on, and so has a lexical error other than a string that is not closed; it is
the line that both the message and the snippet name, however lines are found for snippets.  The line
of a string that is not closed is the last one of the text. -/
theorem positions_right {indexAt : String → Nat → Nat} (hlines : Line.Finds indexAt)
    (source : String) (hs : source.utf8ByteSize < 2 ^ 32) :
    (∀ t ∈ (Scan.ofString source).tokens, t.span.StartsOn source t.line) ∧
      (∀ p ∈ (Reading.ofString source).problems, p.Placed indexAt source) ∧
      ∀ m : Machine, ∀ f ∈ (m.run source).faults, f.Placed indexAt source :=
  ⟨fun _ => Token.startsOn_of_mem_tokens hs, fun _ => Problem.placed hlines hs,
    fun _ _ => Fault.placed hlines hs⟩

/-- A text with a character that starts no token, a missing operand, and a string that is not closed
and goes on for two more lines. -/
def wrongText : String := "var a = 1;\nprint é;\n\"b\n\n"

/-- A text that ends with a fault. -/
def faultyText : String := "print\n  -nil;"

/-- The string is reported on line 5, and starts on line 3. -/
theorem positions_right_mixed :
    Line.Finds Line.indexIn ∧ (wrongText.utf8ByteSize < 2 ^ 32 ∧ faultyText.utf8ByteSize < 2 ^ 32) ∧
      (Reading.ofString wrongText).problems.map (fun p => (p.line, p.span)) =
        [(2, ⟨17, 19⟩), (5, ⟨21, 25⟩), (2, ⟨19, 20⟩)] ∧
      (∀ p ∈ (Reading.ofString wrongText).problems, p.Placed Line.indexIn wrongText) ∧
      ∃ f, ((Machine.initial .unlimited).run faultyText).faults = [f] ∧ f.line = 2 ∧
        f.Placed Line.indexIn faultyText := by
  have hsize : wrongText.utf8ByteSize < 2 ^ 32 ∧ faultyText.utf8ByteSize < 2 ^ 32 := by decide
  have hfaults : ((Machine.initial .unlimited).run faultyText).faults =
      [⟨.operandMustBeNumber, ⟨.minus, "-", none, 2, ⟨8, 9⟩⟩⟩] := by rfl
  refine ⟨Line.finds_indexIn, hsize, by decide +kernel,
    (positions_right Line.finds_indexIn wrongText hsize.1).2.1, _, hfaults, rfl, ?_⟩
  exact (positions_right Line.finds_indexIn faultyText hsize.2).2.2 (.initial .unlimited) _
    (by rw [hfaults]; exact List.mem_singleton_self _)

end Lox
