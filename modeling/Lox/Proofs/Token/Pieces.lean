import Lox.Token.Scan
import Lox.Proofs.Token.Lexeme

/-!
# Proofs — Token — The pieces of a source

`Cuts cs p rest` says that the piece `p` may be cut off the front of `cs` and leaves `rest`;
`Pieced cs ps`, that `ps` are pieces cut off one after the other until nothing is left.  `pieces`
finds such pieces, the longest ones (`munched_pieces`, `pieced_pieces`), and what is said below of the
pieces of a source is said by induction on `Pieced`.

`locate` puts beside each piece the characters in front of it.  Located pieces lie one behind the
other (`pairwise_locate`), each is a stretch of the source (`mem_locate`), and every character of
the source is in one of them (`exists_locate`): between them, nothing is lost.
-/

namespace Lox.Token

/-! ### Cutting -/

/-- A piece that may be cut off, and what is left. -/
inductive Cuts : List Char → Piece → List Char → Prop where
  | blank {c : Char} (rest : List Char) (hc : isBlank c) : Cuts (c :: rest) ⟨[c], .skipped⟩ rest
  /-- A comment reaches up to the next line break, or to the end of the source. -/
  | comment {body rest : List Char} (hb : '\n' ∉ body) (hr : ∀ c ∈ rest.head?, c = '\n') :
      Cuts ('/' :: '/' :: body ++ rest) ⟨'/' :: '/' :: body, .skipped⟩ rest
  | stray (c : Char) (rest : List Char) : Cuts (c :: rest) ⟨[c], .stray c⟩ rest
  /-- A string that no quote closes takes all that is left. -/
  | unclosed {body : List Char} (hb : '"' ∉ body) : Cuts ('"' :: body) ⟨'"' :: body, .unclosed⟩ []
  | token {text : List Char} {kind : Kind} (rest : List Char) (ht : text ≠ [])
      (hk : kind ≠ .eof) : Cuts (text ++ rest) ⟨text, .token kind⟩ rest

namespace Cuts

variable {cs rest : List Char} {p : Piece}

/-- A piece stands at the front of what it was cut off. -/
theorem append (h : Cuts cs p rest) : cs = p.text ++ rest := by
  cases h with
  | unclosed => rw [List.append_nil]
  | _ => rfl

theorem text_ne_nil (h : Cuts cs p rest) : p.text ≠ [] := by
  cases h with
  | token _ ht => exact ht
  | _ => exact List.cons_ne_nil _ _

/-- What the role of a piece tells of its text and of what is left. -/
theorem role_cases (h : Cuts cs p rest) :
    match p.role with
    | .skipped => (∃ c, isBlank c ∧ p.text = [c]) ∨
        ∃ body, p.text = '/' :: '/' :: body ∧ '\n' ∉ body ∧ ∀ c ∈ rest.head?, c = '\n'
    | .token kind => p.text ≠ [] ∧ kind ≠ .eof
    | .stray c => p.text = [c]
    | .unclosed => rest = [] ∧ ∃ body, p.text = '"' :: body ∧ '"' ∉ body := by
  cases h with
  | blank rest hc => exact .inl ⟨_, hc, rfl⟩
  | comment hb hr => exact .inr ⟨_, rfl, hb, hr⟩
  | stray c rest => rfl
  | unclosed hb => exact ⟨rfl, _, rfl, hb⟩
  | token rest ht hk => exact ⟨ht, hk⟩

end Cuts

/-- No lexeme stands for the end of the source. -/
theorem Kind.Lexeme.ne_eof {k : Kind} {text : List Char} (h : k.Lexeme text) : k ≠ .eof := by
  have hword : ∀ p ∈ Kind.reservedWords, p.2 ≠ .eof := by decide
  have hsymbol : ∀ p ∈ Kind.symbols, p.1 ≠ .eof := by decide
  cases h with
  | whole | fraction | string | identifier => exact Kind.noConfusion
  | reserved _ hk => exact hword _ hk
  | symbol hk => exact hsymbol _ hk

/-- A comment that could not be longer ends in front of a line break, or with the source. -/
theorem eq_break_of_longest {body rest : List Char} (hb : '\n' ∉ body)
    (hmax : ∀ q : Piece, q.Regular → q.text <+: '/' :: '/' :: body ++ rest →
      q.text.length ≤ ('/' :: '/' :: body).length) : ∀ c ∈ rest.head?, c = '\n' := by
  intro c hc
  obtain ⟨more, rfl⟩ := List.head?_eq_some_iff.1 hc
  by_contra hne
  have hlonger : '\n' ∉ body ++ [c] := by simp [hb, Ne.symm hne]
  have hle := hmax _ (.comment hlonger) ⟨more, by simp⟩
  simp only [List.length_cons, List.length_append, List.length_nil] at hle
  omega

/-- What the grammar has may be cut off. -/
theorem Munches.cuts {cs rest : List Char} {p : Piece} (h : Munches cs p rest) :
    Cuts cs p rest := by
  cases h with
  | longest hcs hp hmax =>
      subst hcs
      cases hp with
      | white hc => exact .blank rest (isBlank_iff.2 hc)
      | comment hb => exact .comment hb (eq_break_of_longest hb hmax)
      | lexeme hk => exact .token rest (Piece.Regular.lexeme hk).text_ne_nil hk.ne_eof
  | unclosed hcs hb =>
      subst hcs
      exact .unclosed hb
  | stray hcs =>
      subst hcs
      exact .stray _ rest

/-- What is cut off may be cut off. -/
theorem exists_cuts (c : Char) (cs : List Char) : ∃ rest, Cuts (c :: cs) (Piece.cut c cs) rest :=
  (exists_munches c cs).imp fun _ => Munches.cuts

/-! ### Cutting everything -/

/-- Pieces that are cut off one after the other, until nothing is left. -/
inductive Pieced : List Char → List Piece → Prop where
  | nil : Pieced [] []
  | cons {cs rest : List Char} {p : Piece} {ps : List Piece} (h : Cuts cs p rest)
      (hs : Pieced rest ps) : Pieced cs (p :: ps)

/-- The longest pieces that the grammar has, one after the other, until nothing is left. -/
inductive Munched : List Char → List Piece → Prop where
  | nil : Munched [] []
  | cons {cs rest : List Char} {p : Piece} {ps : List Piece} (h : Munches cs p rest)
      (hs : Munched rest ps) : Munched cs (p :: ps)

theorem Munched.pieced {cs : List Char} {ps : List Piece} (h : Munched cs ps) : Pieced cs ps := by
  induction h with
  | nil => exact .nil
  | cons h _ ih => exact .cons h.cuts ih

theorem piecesBehind_eq (skip : Nat) (cs : List Char) :
    piecesBehind skip cs = pieces (cs.drop skip) := by
  induction skip generalizing cs with
  | zero => rfl
  | succ skip ih =>
      cases cs with
      | nil => rfl
      | cons c cs => exact ih cs

/-- Behind the first piece, one goes on with what it leaves. -/
theorem pieces_cons {c : Char} {cs rest : List Char} (h : Cuts (c :: cs) (Piece.cut c cs) rest) :
    pieces (c :: cs) = Piece.cut c cs :: pieces rest := by
  obtain ⟨d, text, ht⟩ := List.exists_cons_of_ne_nil h.text_ne_nil
  have hcs : cs = text ++ rest := by
    have := h.append
    rw [ht, List.cons_append] at this
    exact (List.cons.inj this).2
  rw [pieces, piecesBehind, piecesBehind_eq, ht, List.length_cons, Nat.add_sub_cancel, hcs,
    List.drop_left]

/-- The pieces of a source are the longest ones. -/
theorem munched_pieces (cs : List Char) : Munched cs (pieces cs) := by
  induction hn : cs.length using Nat.strongRecOn generalizing cs with
  | ind n ih =>
      cases cs with
      | nil => exact .nil
      | cons c cs =>
          obtain ⟨rest, h⟩ := exists_munches c cs
          rw [pieces_cons h.cuts]
          refine .cons h (ih rest.length ?_ rest rfl)
          have hlen := congrArg List.length h.append
          have hpos := List.length_pos_iff.2 h.cuts.text_ne_nil
          rw [List.length_append] at hlen
          omega

/-- The pieces of a source. -/
theorem pieced_pieces (cs : List Char) : Pieced cs (pieces cs) := (munched_pieces cs).pieced

/-- The texts of pieces, one behind the other, are what they were cut off. -/
theorem Pieced.flatMap_text {cs : List Char} {ps : List Piece} (h : Pieced cs ps) :
    ps.flatMap Piece.text = cs := by
  induction h with
  | nil => rfl
  | cons hcut _ ih => rw [List.flatMap_cons, ih, ← hcut.append]

/-! ### Where a piece lies -/

/-- A piece, and the characters in front of it. -/
structure Located where
  before : List Char
  piece : Piece

/-- The characters in front of what comes behind a piece. -/
def Located.after (l : Located) : List Char := l.before ++ l.piece.text

/-- Pieces that lie one behind the other, with what is in front of them. -/
def locate (before : List Char) : List Piece → List Located
  | [] => []
  | p :: ps => ⟨before, p⟩ :: locate (before ++ p.text) ps

variable {before cs : List Char} {ps : List Piece} {l : Located}

/-- A piece is a stretch of its source, and is cut off what comes behind it. -/
theorem mem_locate (h : Pieced cs ps) (hl : l ∈ locate before ps) :
    ∃ behind, before ++ cs = l.after ++ behind ∧ Cuts (l.piece.text ++ behind) l.piece behind := by
  induction h generalizing before with
  | nil => cases hl
  | @cons cs rest p ps hcut _ ih =>
      rw [locate] at hl
      rcases List.mem_cons.1 hl with rfl | hl
      · refine ⟨rest, ?_, hcut.append ▸ hcut⟩
        rw [Located.after, hcut.append, List.append_assoc]
      · rw [hcut.append, ← List.append_assoc]
        exact ih hl

/-- No piece lies in front of where the first one starts. -/
theorem prefix_before_of_mem_locate (hl : l ∈ locate before ps) : before <+: l.before := by
  induction ps generalizing before with
  | nil => cases hl
  | cons p ps ih =>
      rw [locate] at hl
      rcases List.mem_cons.1 hl with rfl | hl
      · exact List.prefix_rfl
      · exact (List.prefix_append before p.text).trans (ih hl)

/-- A piece starts behind all that were cut off earlier. -/
theorem pairwise_locate (before : List Char) (ps : List Piece) :
    (locate before ps).Pairwise fun l l' => l.after <+: l'.before := by
  induction ps generalizing before with
  | nil => exact .nil
  | cons p ps ih => exact .cons (fun l hl => prefix_before_of_mem_locate hl) (ih _)

/-- Every character of a source is in one of its pieces. -/
theorem exists_locate (h : Pieced cs ps) {front behind : List Char} {c : Char}
    (hc : cs = front ++ c :: behind) :
    ∃ l ∈ locate before ps, ∃ inner outer, before ++ front = l.before ++ inner ∧
      l.piece.text = inner ++ c :: outer := by
  induction h generalizing before front with
  | nil => simp at hc
  | @cons cs rest p ps hcut _ ih =>
      rw [hcut.append] at hc
      rw [locate]
      have hlater : ∀ mid, front = p.text ++ mid → rest = mid ++ c :: behind →
          ∃ l ∈ (⟨before, p⟩ : Located) :: locate (before ++ p.text) ps, ∃ inner outer,
            before ++ front = l.before ++ inner ∧ l.piece.text = inner ++ c :: outer := by
        intro mid hfront hrest
        obtain ⟨l, hl, inner, outer, hinner, houter⟩ := ih hrest
        refine ⟨l, List.mem_cons_of_mem _ hl, inner, outer, ?_, houter⟩
        rw [hfront, ← List.append_assoc, hinner]
      -- The character stands behind the first piece or in it; at the seam, it stands behind.
      rcases List.append_eq_append_iff.1 hc with ⟨mid, hfront, hrest⟩ | ⟨mid, htext, hbehind⟩
      · exact hlater mid hfront hrest
      · cases mid with
        | nil => exact hlater [] (by rw [htext, List.append_nil, List.append_nil]) hbehind.symm
        | cons d mid =>
            obtain ⟨rfl, -⟩ := List.cons.inj hbehind
            exact ⟨⟨before, p⟩, List.mem_cons_self, front, mid, rfl, htext⟩

end Lox.Token
