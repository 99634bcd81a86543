import Lox.Proofs.Token.Blanking

/-!
# Proofs — Token — Lexemes with spaces between them

**Spacing** (`scan_spaced`).  The lexemes of a text, written with a space between each two, are
scanned to the same tokens again, apart from their places, and to no error, whatever else the text
held.

A lexeme is the longest piece in front of a space (`munches_lexeme`): what went on over the space
would be a string or a comment, but a string ends at its quote, and where a comment starts, no
lexeme does.  So the pieces of the new text are the lexemes and the spaces, and what a scan has
apart from places is what its pieces say (`contents_items`).
-/

namespace Lox

/-- What a token is, apart from its place. -/
def Token.content (t : Token) : Token.Kind × String × Option Value := (t.kind, t.lexeme, t.literal?)

/-- The lexemes of tokens, with a space between each two. -/
def Token.spaced (ts : List Token) : String := " ".intercalate (ts.map Token.lexeme)

/-- The tokens of a scan, but for the end of the text. -/
def Token.Scan.written (scan : Scan) : List Token := scan.tokens.filter (!·.isEof)

namespace Token

section

variable {k : Kind} {text rest : List Char} {p : Piece} {ps : List Piece}

/-! ### A lexeme in front of a space -/

/-- Only one lexeme starts with a slash. -/
theorem Kind.Lexeme.eq_slash (h : k.Lexeme ('/' :: text)) : text = [] := by
  have hsymbol : ∀ q ∈ Kind.symbols, q.2.head? = some '/' → q.2 = ['/'] := by decide
  rcases (Piece.Regular.lexeme h).front rfl with ⟨-, hrole, -⟩ | ⟨k', -, hk'⟩
  · cases hrole
  · exact (List.cons.inj (hsymbol _ hk' rfl)).2

/-- No piece goes on behind a lexeme with a space. -/
theorem Piece.Regular.ne_lexeme_space (hp : p.Regular) (h : k.Lexeme text) (more : List Char) :
    p.text ≠ text ++ ' ' :: more := by
  intro htext
  have hquote : p.text.head? ≠ some '"' := fun hquote =>
    hp.not_behind_quote (.lexeme h) hquote (List.cons_ne_nil _ _) htext
  have hspace : ' ' ∈ p.text := by simp [htext]
  obtain ⟨c, begin, rfl⟩ := List.exists_cons_of_ne_nil (Piece.Regular.lexeme h).text_ne_nil
  cases hp with
  | white => simp at htext
  | lexeme hk => exact hk.not_mem_space hquote hspace
  | comment =>
      obtain ⟨rfl, htail⟩ := List.cons.inj htext
      rw [h.eq_slash] at htail
      cases htail

/-- In front of a space, a lexeme is the longest piece. -/
theorem munches_lexeme (h : k.Lexeme text) (hrest : ∀ c ∈ rest.head?, c = ' ') :
    Munches (text ++ rest) ⟨text, .token k⟩ rest := by
  refine .longest rfl (.lexeme h) fun q hq hprefix => ?_
  by_contra hlt
  rw [Nat.not_le] at hlt
  obtain ⟨more, hmore⟩ := List.prefix_of_prefix_length_le (List.prefix_append text rest) hprefix
    (Nat.le_of_lt hlt)
  rw [← hmore] at hprefix hlt
  obtain ⟨behind, rfl⟩ := (List.prefix_append_right_inj text).1 hprefix
  cases more with
  | nil => simp at hlt
  | cons c more =>
      obtain rfl : c = ' ' := hrest c rfl
      exact hq.ne_lexeme_space h more hmore.symm

/-- A piece is a lexeme. -/
def Piece.IsLexeme (p : Piece) : Prop := ∃ k, p.role = .token k ∧ k.Lexeme p.text

/-- Lexemes and the spaces between them are cut off one after the other. -/
theorem munched_intersperse (h : ∀ p ∈ ps, p.IsLexeme) :
    Munched (Piece.texts (ps.intersperse .blank)) (ps.intersperse .blank) := by
  induction ps with
  | nil => exact .nil
  | cons p ps ih =>
      obtain ⟨hp, hps⟩ := List.forall_mem_cons.1 h
      obtain ⟨text, role⟩ := p
      obtain ⟨k, rfl, hk⟩ := hp
      cases ps with
      | nil =>
          have hlast : Munches (text ++ []) ⟨text, .token k⟩ [] := munches_lexeme hk (by simp)
          exact .cons hlast .nil
      | cons q ps => exact .cons (munches_lexeme hk (by simp [Piece.blank])) (munched_blanks (ih hps) 1)

end

/-! ### What pieces say -/

section

variable {s : String} {ps : List Piece}

/-- What a piece is as a token, if it is one. -/
def Piece.content? (p : Piece) : Option (Kind × String × Option Value) :=
  match p.role with
  | .token kind => some (kind, String.ofList p.text, Piece.literal? kind p.text)
  | _ => none

theorem content?_item? (l : Located) :
    (l.item?.bind Except.toOption).map content = l.piece.content? := by
  rw [Located.item?, Piece.item?, Piece.content?]
  cases l.piece.role <;> rfl

/-- Apart from their places, the tokens of a text are what its pieces are. -/
theorem contents_items (s : String) :
    ((Scan.ofString s).items.filterMap Except.toOption).map content =
      (pieces s.toList).filterMap Piece.content? := by
  rw [scan_ofString, List.filterMap_filterMap, List.map_filterMap, ← map_piece_locate [] (pieces _),
    List.filterMap_map]
  exact congrArg (List.filterMap · _) (funext content?_item?)

/-- A text whose pieces are lexemes and spaces has no errors. -/
theorem errors_eq_nil (h : ∀ p ∈ pieces s.toList, p.IsLexeme ∨ p = .blank) :
    (Scan.ofString s).errors = [] := by
  refine List.eq_nil_iff_forall_not_mem.2 fun e he => ?_
  obtain ⟨l, hl, hi⟩ := mem_items.1 (mem_errors.1 he)
  have hp : l.piece ∈ pieces s.toList := by
    rw [← map_piece_locate [] (pieces _)]
    exact List.mem_map_of_mem hl
  rw [Located.item?, Piece.item?] at hi
  rcases h _ hp with ⟨k, hk, -⟩ | hblank
  · rw [hk] at hi
    cases hi
  · rw [hblank] at hi
    cases hi

/-- Spaces say nothing. -/
theorem contents_intersperse (ps : List Piece) :
    (ps.intersperse .blank).filterMap Piece.content? = ps.filterMap Piece.content? := by
  induction ps with
  | nil => rfl
  | cons p ps ih =>
      cases ps with
      | nil => rfl
      | cons q ps =>
          rw [List.intersperse_cons_cons, List.filterMap_cons, List.filterMap_cons_none rfl, ih,
            List.filterMap_cons (a := p)]

theorem mem_intersperse {p : Piece} (h : p ∈ ps.intersperse .blank) : p ∈ ps ∨ p = .blank := by
  induction ps with
  | nil => cases h
  | cons q ps ih =>
      cases ps with
      | nil => exact .inl h
      | cons r ps =>
          rcases List.mem_cons.1 h with rfl | h
          · exact .inl List.mem_cons_self
          · rcases List.mem_cons.1 h with rfl | h
            · exact .inr rfl
            · exact (ih h).imp_left (List.mem_cons_of_mem q)

end

/-! ### Scanning again -/

/-- The piece that a token is cut off as. -/
def piece (t : Token) : Piece := ⟨t.lexeme.toList, .token t.kind⟩

theorem toList_spaced (ts : List Token) :
    (spaced ts).toList = Piece.texts ((ts.map piece).intersperse .blank) := by
  rw [spaced, String.toList_intercalate, List.map_map]
  induction ts with
  | nil => rfl
  | cons t ts ih =>
      cases ts with
      | nil => simp [Piece.texts, piece]
      | cons u ts =>
          rw [List.map_cons, List.map_cons, List.intercalate_cons_cons, ← List.map_cons, ih]
          simp [Piece.texts, piece, Piece.blank]

theorem written_ofString (s : String) :
    (Scan.ofString s).written = (Scan.ofString s).items.filterMap Except.toOption := by
  have hlast : (Scan.ofString s).last.isEof = true := by
    rw [scan_ofString]
    rfl
  have hothers : ∀ t ∈ (Scan.ofString s).items.filterMap Except.toOption, (!t.isEof) = true := by
    intro t ht
    simpa [isEof] using kind_ne_eof ht
  rw [Scan.written, Scan.tokens, List.filter_append, List.filter_eq_self.2 hothers]
  simp [hlast]

/-- A token of a text is a lexeme, and its piece says what it is. -/
theorem piece_of_mem_written {s : String} {t : Token} (ht : t ∈ (Scan.ofString s).written) :
    t.piece.IsLexeme ∧ t.piece.content? = some t.content := by
  rw [written_ofString] at ht
  obtain ⟨before, behind, h⟩ := mem_items_iff_finds.1 (mem_filterMap_toOption.1 ht)
  obtain ⟨-, hk, hliteral, -⟩ := h.token
  refine ⟨⟨_, rfl, hk⟩, ?_⟩
  rw [Piece.content?, piece, content, String.ofList_toList, hliteral]

theorem contents_written (s : String) :
    ((Scan.ofString s).written.map piece).filterMap Piece.content? =
      (Scan.ofString s).written.map content := by
  have hsome : ∀ t ∈ (Scan.ofString s).written, (Piece.content? ∘ piece) t = (some ∘ content) t :=
    fun t ht => (piece_of_mem_written ht).2
  rw [List.filterMap_map, List.filterMap_congr hsome, List.filterMap_eq_map]

/-- **Spacing.**  The lexemes of a text, with a space between each two, are scanned to no error and to
tokens of the same kinds, lexemes and values. -/
theorem scan_spaced (s : String) :
    (Scan.ofString (spaced (Scan.ofString s).written)).errors = [] ∧
      ∃ ts last, (Scan.ofString (spaced (Scan.ofString s).written)).tokens = ts ++ [last] ∧
        ts.map content = (Scan.ofString s).written.map content ∧ last.kind = .eof := by
  have hlexeme : ∀ p ∈ (Scan.ofString s).written.map piece, p.IsLexeme := by
    intro p hp
    obtain ⟨t, ht, rfl⟩ := List.mem_map.1 hp
    exact (piece_of_mem_written ht).1
  have hpieces : pieces (spaced (Scan.ofString s).written).toList =
      ((Scan.ofString s).written.map piece).intersperse .blank := by
    rw [toList_spaced]
    exact (munched_iff.1 (munched_intersperse hlexeme)).symm
  refine ⟨errors_eq_nil fun p hp => ?_, _, _, rfl, ?_, ?_⟩
  · rw [hpieces] at hp
    exact (mem_intersperse hp).imp_left (hlexeme p)
  · rw [contents_items, hpieces, contents_intersperse, contents_written]
  · rw [scan_ofString]
    rfl

end Token

end Lox
