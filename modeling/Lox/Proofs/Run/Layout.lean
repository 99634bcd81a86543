import Mathlib.Data.List.Nodup
import Mathlib.Logic.Function.Basic
import Lox.Proofs.Run.Judging
import Lox.Proofs.Token.Coverage

/-!
# Proofs — Run — Layout

**Layout** (`layout_irrelevant`).  Two texts without lexical errors that have the same kinds and
lexemes of tokens, one by one, are read and run alike, however their blanks, line breaks and comments
differ.

The tokens of one text are those of the other one, relocated (`exists_relocation`): no two tokens of
a text are equal, so a map of tokens can send each to its counterpart; and the value of a literal
token is that of its lexeme (`literal_of_mem_tokens`).  How relocated tokens are read and what the
trees do is known (`Grammar.parse_map`, `executeAll_follows`).  That the blamed tokens are tokens of
the text follows from the same two facts, for the relocation that moves all tokens but those of the
text (`movedBut`).
-/

namespace Lox

open Effect (ending)
open Token (Scan Relocation)

/-! ### Tokens that differ in their places -/

namespace Token

variable {s : String} {t u : Token} {ts us : List Token}

/-- The value that a scanned token stands for is that of its lexeme. -/
theorem literal_of_mem_tokens (h : t ∈ (Scan.ofString s).tokens) :
    t.literal? = Piece.literal? t.kind t.lexeme.toList := by
  rcases List.mem_append.1 h with h | h
  · obtain ⟨l, -, hitem⟩ := mem_items.1 (mem_filterMap_toOption.1 h)
    rw [Located.item?, Piece.item?] at hitem
    split at hitem <;> cases hitem
    rw [String.toList_ofList]
  · rw [List.mem_singleton.1 h, scan_ofString]
    rfl

/-- No two tokens of a text are equal. -/
theorem nodup_tokens (hs : s.utf8ByteSize < 2 ^ 32) : (Scan.ofString s).tokens.Nodup := by
  rw [Scan.tokens, List.nodup_append]
  refine ⟨?_, List.nodup_singleton _, fun t ht u hu => ?_⟩
  · have hitems := (List.pairwise_append.1 (increasing_drain hs)).1
    rw [List.Nodup, List.pairwise_filterMap]
    refine hitems.imp_of_mem fun {i j} hi _ hle t ht u hu heq => ?_
    obtain rfl : i = .ok t := by cases i <;> cases ht; rfl
    obtain rfl : j = .ok u := by cases j <;> cases hu; rfl
    subst heq
    -- A token that stands behind itself would be empty.
    exact absurd (covers_token hs hi).2.1 (UInt32.not_lt.2 hle)
  · have hlast : u.kind = .eof := by
      rw [List.mem_singleton.1 hu, scan_ofString]
      rfl
    rintro rfl
    exact (covers_token hs (mem_filterMap_toOption.1 ht)).1 hlast

/-- The tokens differ at most in where they stand. -/
structure SameText (t u : Token) : Prop where
  kind : u.kind = t.kind
  lexeme : u.lexeme = t.lexeme
  literal : u.literal? = t.literal?

theorem Relocation.of_sameText {f : Token → Token} (h : ∀ t, SameText t (f t)) : Relocation f :=
  ⟨fun t => (h t).kind, fun t => (h t).lexeme, fun t => (h t).literal⟩

theorem Relocation.sameText {f : Token → Token} (hf : Relocation f) (t : Token) :
    SameText t (f t) :=
  ⟨hf.kind t, hf.lexeme t, hf.literal t⟩

/-- Scanned tokens of the same kinds and lexemes differ in their places only. -/
theorem forall₂_sameText {s' : String}
    (h : (Scan.ofString s).tokens.map (fun t => (t.kind, t.lexeme)) =
      (Scan.ofString s').tokens.map (fun t => (t.kind, t.lexeme))) :
    List.Forall₂ SameText (Scan.ofString s).tokens (Scan.ofString s').tokens := by
  rw [← List.forall₂_eq_eq_eq, List.forall₂_map_left_iff, List.forall₂_map_right_iff,
    List.forall₂_iff_zip] at h
  refine List.forall₂_iff_zip.2 ⟨h.1, fun {t u} hzip => ?_⟩
  obtain ⟨ht, hu⟩ := List.of_mem_zip hzip
  obtain ⟨hkind, hlexeme⟩ := Prod.mk.inj (h.2 hzip)
  refine ⟨hkind.symm, hlexeme.symm, ?_⟩
  rw [literal_of_mem_tokens ht, literal_of_mem_tokens hu, hkind, hlexeme]

open Classical in
/-- Tokens, no two of them equal, are relocated to any tokens that differ in their places only. -/
theorem exists_relocation (h : List.Forall₂ SameText ts us) (hts : ts.Nodup) :
    ∃ f, Relocation f ∧ ts.map f = us := by
  induction h with
  | nil => exact ⟨id, .of_sameText fun t => ⟨rfl, rfl, rfl⟩, rfl⟩
  | @cons t u ts us htu _ ih =>
      obtain ⟨hnot, hts⟩ := List.nodup_cons.1 hts
      obtain ⟨f, hf, hmap⟩ := ih hts
      refine ⟨Function.update f t u, .of_sameText fun x => ?_, ?_⟩
      · by_cases hx : x = t
        · rw [hx, Function.update_self]
          exact htu
        · rw [Function.update_of_ne hx]
          exact hf.sameText x
      · -- The other tokens are none of them `t`, so they go where they went.
        rw [List.map_cons, Function.update_self, ← hmap]
        refine congrArg (u :: ·) (List.map_congr_left fun x hx => Function.update_of_ne ?_ _ _)
        rintro rfl
        exact hnot hx

/-- Moves all tokens but some. -/
noncomputable def movedBut (ts : List Token) (t : Token) : Token :=
  open Classical in if t ∈ ts then t else { t with line := t.line + 1 }

theorem relocation_movedBut (ts : List Token) : Relocation (movedBut ts) := by
  refine .of_sameText fun t => ?_
  rw [movedBut]
  split <;> exact ⟨rfl, rfl, rfl⟩

theorem movedBut_eq_self_iff : movedBut ts t = t ↔ t ∈ ts := by
  rw [movedBut]
  split
  · simp [*]
  · rename_i hnot
    refine ⟨fun h => ?_, fun h => absurd h hnot⟩
    exact absurd (congrArg Token.line h) (Nat.succ_ne_self _)

theorem map_movedBut (ts : List Token) : ts.map (movedBut ts) = ts := by
  conv_rhs => rw [← List.map_id ts]
  exact List.map_congr_left fun t ht => movedBut_eq_self_iff.2 ht

/-- The tokens stand at the same place of two lists of tokens. -/
def SameIndex (ts us : List Token) (t u : Token) : Prop :=
  ∃ i : Nat, ts[i]? = some t ∧ us[i]? = some u

theorem sameIndex_map {f : Token → Token} (ht : t ∈ ts) : SameIndex ts (ts.map f) t (f t) := by
  obtain ⟨i, hi⟩ := List.mem_iff_getElem?.1 ht
  exact ⟨i, hi, by rw [List.getElem?_map, hi]; rfl⟩

end Token

open Token (movedBut relocation_movedBut movedBut_eq_self_iff map_movedBut SameText SameIndex
  sameIndex_map)

variable {f : Token → Token} {ts : List Token}

/-! ### Blamed tokens -/

/-- Reading tokens neither moves them nor reads any but them. -/
theorem parse_movedBut (h : ∃ t ∈ ts, t.isEof) :
    Stmt.relocateAll (movedBut ts) (Parse.ofTokens ts).statements = (Parse.ofTokens ts).statements ∧
      (Parse.ofTokens ts).errors.map (·.relocate (movedBut ts)) = (Parse.ofTokens ts).errors := by
  obtain ⟨hstatements, herrors⟩ := Grammar.parse_map (relocation_movedBut ts) h
  rw [map_movedBut] at hstatements herrors
  exact ⟨hstatements.symm, herrors.symm⟩

/-- An error is blamed on one of the tokens that were read. -/
theorem token_mem_of_mem_errors (h : ∃ t ∈ ts, t.isEof) {e : GrammarError}
    (he : e ∈ (Parse.ofTokens ts).errors) : e.token ∈ ts := by
  -- What reading leaves in its place when all other tokens are moved is one of the tokens.
  have hself := (parse_movedBut h).2
  conv_rhs at hself => rw [← List.map_id (Parse.ofTokens ts).errors]
  exact movedBut_eq_self_iff.1 (congrArg GrammarError.token (List.map_inj_left.1 hself e he))

/-- Relocated statements are run as they were, and a fault is relocated. -/
theorem Machine.interpret_relocated (hf : Relocation f) (ss : List Stmt) {m m' : Machine}
    (h : m.Agrees m') :
    (m.interpret ss).outcome = (m'.interpret (Stmt.relocateAll f ss)).outcome ∧
      (m.interpret ss).machine.Agrees (m'.interpret (Stmt.relocateAll f ss)).machine ∧
      (m'.interpret (Stmt.relocateAll f ss)).faults =
        (m.interpret ss).faults.map (·.relocate f) := by
  obtain ⟨hresult, hagrees⟩ := executeAll_follows hf ss { m with moves := [] }
    { m' with moves := [] } ⟨h.environment, h.sink⟩
  cases hend : ending (Stmt.executeAll ss) { m with moves := [] } with
  | mk r m₁ =>
      cases hend' : ending (Stmt.executeAll (Stmt.relocateAll f ss)) { m' with moves := [] } with
      | mk r' m₁' =>
          rw [hend, hend'] at hresult hagrees
          cases r with
          | ok =>
              cases hresult
              obtain ⟨houtcome, hmachine, hfaults⟩ := Machine.interpret_ok hend
              obtain ⟨houtcome', hmachine', hfaults'⟩ := Machine.interpret_ok hend'
              rw [houtcome, houtcome', hmachine, hmachine', hfaults, hfaults']
              exact ⟨rfl, hagrees, rfl⟩
          | error e =>
              cases hresult
              obtain ⟨houtcome, hmachine, hfaults⟩ := Machine.interpret_error hend
              obtain ⟨houtcome', hmachine', hfaults'⟩ := Machine.interpret_error hend'
              rw [houtcome, houtcome', hmachine, hmachine', hfaults, hfaults']
              exact ⟨rfl, hagrees, rfl⟩

/-- A fault is blamed on one of the tokens that were read. -/
theorem token_mem_of_mem_faults (h : ∃ t ∈ ts, t.isEof) {m : Machine} {e : Fault}
    (he : e ∈ (m.interpret (Parse.ofTokens ts).statements).faults) : e.token ∈ ts := by
  obtain ⟨-, -, hself⟩ := Machine.interpret_relocated (relocation_movedBut ts)
    (Parse.ofTokens ts).statements (.refl m)
  rw [(parse_movedBut h).1] at hself
  conv_lhs at hself => rw [← List.map_id (m.interpret (Parse.ofTokens ts).statements).faults]
  exact movedBut_eq_self_iff.1 (congrArg Fault.token (List.map_inj_left.1 hself e he)).symm

/-! ### Texts -/

/-- Relocated tokens have the same errors, blamed on tokens at the same places. -/
theorem errors_sameIndex (hf : Relocation f) (h : ∃ t ∈ ts, t.isEof) :
    List.Forall₂ (fun e e' => e.cause = e'.cause ∧ SameIndex ts (ts.map f) e.token e'.token)
      (Parse.ofTokens ts).errors (Parse.ofTokens (ts.map f)).errors := by
  rw [(Grammar.parse_map hf h).2, List.forall₂_map_right_iff, List.forall₂_same]
  exact fun e he => ⟨rfl, sameIndex_map (token_mem_of_mem_errors h he)⟩

/-- There is an end of input among the tokens of a text. -/
theorem exists_isEof (source : String) : ∃ t ∈ (Scan.ofString source).tokens, t.isEof :=
  ⟨_, List.mem_append_right _ (List.mem_singleton_self _), isEof_last source⟩

section

variable {source source' : String} {s s' : Session}

/-- Without lexical errors, the problems of a text are those of its tokens. -/
theorem problems_of_tokens (h : (Scan.ofString source).errors = []) :
    (Reading.ofString source).problems =
      (Parse.ofTokens (Scan.ofString source).tokens).errors.map Problem.grammar := by
  rw [problems_ofString, h, List.map_nil, List.nil_append]

/-- A text whose tokens are those of another one, relocated, is run as the other one is, and a fault
is relocated. -/
theorem run_relocated (hf : Relocation f) (hlexical : (Scan.ofString source).errors = [])
    (hlexical' : (Scan.ofString source').errors = [])
    (htokens : (Scan.ofString source').tokens = (Scan.ofString source).tokens.map f)
    (h : s.machine.Agrees s'.machine) :
    (s.run source).1 = (s'.run source').1 ∧
      (s.run source).2.machine.Agrees (s'.run source').2.machine ∧
      ∃ faults : List Fault, (∀ e ∈ faults, e.token ∈ (Scan.ofString source).tokens) ∧
        (s.run source).2.reporter = s.reporter.told (Reading.ofString source).problems faults ∧
        (s'.run source').2.reporter = s'.reporter.told (Reading.ofString source').problems
          (faults.map (·.relocate f)) := by
  obtain ⟨hstatements, herrors⟩ := Grammar.parse_map hf (exists_isEof source)
  rw [← htokens] at hstatements herrors
  by_cases hclean : (Reading.ofString source).problems = []
  · have hclean' : (Reading.ofString source').problems = [] := by
      rw [problems_of_tokens hlexical, List.map_eq_nil_iff] at hclean
      rw [problems_of_tokens hlexical', herrors, hclean]
      rfl
    rw [Session.run_accepted hclean, Session.run_accepted hclean', Session.interpret_eq,
      Session.interpret_eq, hclean, hclean', statements_ofString, statements_ofString, hstatements]
    obtain ⟨houtcome, hmachine, hfaults⟩ := Machine.interpret_relocated hf
      (Parse.ofTokens (Scan.ofString source).tokens).statements h
    dsimp only
    refine ⟨houtcome, hmachine, _, fun e => ?_, rfl, by rw [hfaults]⟩
    exact token_mem_of_mem_faults (exists_isEof source)
  · have hproblems' : (Reading.ofString source').problems ≠ [] := by
      rw [problems_of_tokens hlexical, List.map_eq_nil_iff] at hclean
      rwa [problems_of_tokens hlexical', herrors, ne_eq, List.map_eq_nil_iff, List.map_eq_nil_iff]
    rw [Session.run_rejected hclean, Session.run_rejected hproblems']
    exact ⟨rfl, h, [], by simp, rfl, rfl⟩

end

/-- **Layout.**  Let two texts, each shorter than 2^32 bytes, have no lexical errors and the same
kinds and lexemes of tokens, in order.  Then their statements have the same forms; the same errors
are found in their tokens, in the same order and blamed on tokens at the same index; and run in two
sessions with the same scopes and the same sink, they end with the same outcome, leave the same
scopes and the same sink, and report the same fault, if any, blamed on tokens at the same index.  As
no token of a text equals another one, there is no other index. -/
theorem layout_irrelevant (source source' : String) (hsize : source.utf8ByteSize < 2 ^ 32)
    (hsize' : source'.utf8ByteSize < 2 ^ 32) (hlexical : (Scan.ofString source).errors = [])
    (hlexical' : (Scan.ofString source').errors = [])
    (hsame : (Scan.ofString source).tokens.map (fun t => (t.kind, t.lexeme)) =
      (Scan.ofString source').tokens.map (fun t => (t.kind, t.lexeme))) :
    let ts := (Scan.ofString source).tokens
    let ts' := (Scan.ofString source').tokens
    ts.Nodup ∧ ts'.Nodup ∧
      Stmt.forms (Parse.ofTokens ts).statements = Stmt.forms (Parse.ofTokens ts').statements ∧
      List.Forall₂ (fun e e' => e.cause = e'.cause ∧ SameIndex ts ts' e.token e'.token)
        (Parse.ofTokens ts).errors (Parse.ofTokens ts').errors ∧
      ∀ s s' : Session, s.machine.Agrees s'.machine →
        (s.run source).1 = (s'.run source').1 ∧
          (s.run source).2.machine.Agrees (s'.run source').2.machine ∧
          ∃ faults faults' : List Fault,
            (s.run source).2.reporter =
              s.reporter.told ((Parse.ofTokens ts).errors.map .grammar) faults ∧
            (s'.run source').2.reporter =
              s'.reporter.told ((Parse.ofTokens ts').errors.map .grammar) faults' ∧
            List.Forall₂ (fun e e' => e.cause = e'.cause ∧ SameIndex ts ts' e.token e'.token)
              faults faults' := by
  obtain ⟨f, hf, hmap⟩ := Token.exists_relocation (Token.forall₂_sameText hsame)
    (Token.nodup_tokens hsize)
  have heof := exists_isEof source
  intro ts ts'
  refine ⟨Token.nodup_tokens hsize, Token.nodup_tokens hsize', ?_, ?_, fun s s' h => ?_⟩
  · rw [show ts' = ts.map f from hmap.symm, (Grammar.parse_map hf heof).1, Stmt.forms_relocate hf]
  · rw [show ts' = ts.map f from hmap.symm]
    exact errors_sameIndex hf heof
  · obtain ⟨houtcome, hmachine, faults, hmem, hreporter, hreporter'⟩ :=
      run_relocated hf hlexical hlexical' hmap.symm h
    rw [problems_of_tokens hlexical] at hreporter
    rw [problems_of_tokens hlexical'] at hreporter'
    refine ⟨houtcome, hmachine, faults, _, hreporter, hreporter', ?_⟩
    rw [List.forall₂_map_right_iff, List.forall₂_same, show ts' = ts.map f from hmap.symm]
    exact fun e he => ⟨rfl, sameIndex_map (hmem e he)⟩

/-- A text on one line. -/
def denseText : String := "var a;print -a;"

/-- The same with blanks, line breaks and a comment. -/
def looseText : String := "var a ; // nil\n\nprint\n\t- a;\n"

/-- A session in which nothing was run. -/
def untouched : Session := .initial .unlimited false

/-- The fault is blamed on the same `-`, which in the second text stands on another line. -/
theorem layout_irrelevant_loose :
    (denseText.utf8ByteSize < 2 ^ 32 ∧ looseText.utf8ByteSize < 2 ^ 32) ∧
      ((Scan.ofString denseText).errors = [] ∧ (Scan.ofString looseText).errors = []) ∧
      (Scan.ofString denseText).tokens.map (fun t => (t.kind, t.lexeme)) =
        (Scan.ofString looseText).tokens.map (fun t => (t.kind, t.lexeme)) ∧
      ∃ e e' : Fault, (untouched.run denseText).2.reporter.faults = [e] ∧
        (untouched.run looseText).2.reporter.faults = [e'] ∧ (e.line, e'.line) = (1, 4) ∧
        SameIndex (Scan.ofString denseText).tokens (Scan.ofString looseText).tokens
          e.token e'.token := by
  have hsize : denseText.utf8ByteSize < 2 ^ 32 ∧ looseText.utf8ByteSize < 2 ^ 32 := by decide
  have hlexical : (Scan.ofString denseText).errors = [] ∧ (Scan.ofString looseText).errors = [] :=
    ⟨by rfl, by rfl⟩
  have hsame : (Scan.ofString denseText).tokens.map (fun t => (t.kind, t.lexeme)) =
      (Scan.ofString looseText).tokens.map (fun t => (t.kind, t.lexeme)) := by decide +kernel
  have hdense : (untouched.run denseText).2.reporter.faults =
      [⟨.operandMustBeNumber, ⟨.minus, "-", none, 1, ⟨12, 13⟩⟩⟩] := by rfl
  have hloose : (untouched.run looseText).2.reporter.faults =
      [⟨.operandMustBeNumber, ⟨.minus, "-", none, 4, ⟨23, 24⟩⟩⟩] := by rfl
  refine ⟨hsize, hlexical, hsame, _, _, hdense, hloose, rfl, ?_⟩
  obtain ⟨-, -, -, -, hruns⟩ := layout_irrelevant denseText looseText hsize.1 hsize.2 hlexical.1
    hlexical.2 hsame
  obtain ⟨-, -, faults, faults', hreporter, hreporter', hindex⟩ := hruns untouched untouched (.refl _)
  have hfaults : (untouched.run denseText).2.reporter.faults = faults := by rw [hreporter]; rfl
  have hfaults' : (untouched.run looseText).2.reporter.faults = faults' := by rw [hreporter']; rfl
  rw [← hfaults, ← hfaults', hdense, hloose] at hindex
  exact (List.forall₂_cons.1 hindex).1.2

end Lox
