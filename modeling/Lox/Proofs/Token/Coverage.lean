import Lox.Proofs.Token.Places
import Mathlib.Data.List.Pairwise

/-!
# Proofs — Token — Scanning loses nothing

**Coverage** (`lossless_ofString`).  The scan of a text that is shorter than 2^32 bytes accounts for
every character of it.  Tokens and lexical errors cover stretches of the text that do not overlap
and stand in order, a token the stretch that is its lexeme; and what they leave uncovered are blanks
and comments.

All of it is read off the located pieces: an item covers the text of its piece, and a piece without
an item is a blank or a comment.
-/

namespace Lox

/-! ### Spans and their texts -/

namespace Span

/-- The bytes of a span are those of a text, which stands in the source there. -/
def Covers (span : Span) (source text : String) : Prop :=
  ∃ before behind : String, source = before ++ text ++ behind ∧
    span.start.toNat = before.utf8ByteSize ∧ span.stop.toNat = (before ++ text).utf8ByteSize

/-- A span lies in a source, and both its ends between two characters. -/
structure Within (span : Span) (source : String) : Prop where
  ordered : span.start.toNat ≤ span.stop.toNat
  inBounds : span.stop.toNat ≤ source.utf8ByteSize
  start : (⟨span.start.toNat⟩ : String.Pos.Raw).IsValid source
  stop : (⟨span.stop.toNat⟩ : String.Pos.Raw).IsValid source

theorem Covers.within {span : Span} {source text : String} (h : span.Covers source text) :
    span.Within source := by
  obtain ⟨before, behind, rfl, hstart, hstop⟩ := h
  refine ⟨?_, ?_, ?_, ?_⟩
  · rw [hstart, hstop, String.utf8ByteSize_append]
    exact Nat.le_add_right _ _
  · rw [hstop, String.utf8ByteSize_append (t := behind)]
    exact Nat.le_add_right _ _
  · rw [hstart]
    exact String.Pos.Raw.isValid_iff_exists_append.2
      ⟨before, text ++ behind, String.append_assoc, rfl⟩
  · rw [hstop]
    exact String.Pos.Raw.isValid_iff_exists_append.2 ⟨before ++ text, behind, rfl, rfl⟩

end Span

namespace Token

/-- The bytes of an item. -/
def Item.span : Item → Span
  | .ok t => t.span
  | .error e => e.span

namespace Scan

/-- A byte of the source belongs to a comment, which starts outside of all items and ends in front
of a line break or with the source. -/
def InComment (scan : Scan) (source : String) (offset : Nat) : Prop :=
  ∃ before body behind : String, source = before ++ ("//" ++ body) ++ behind ∧
    '\n' ∉ body.toList ∧ (behind = "" ∨ ∃ more, behind = "\n" ++ more) ∧
    before.utf8ByteSize ≤ offset ∧ offset < (before ++ ("//" ++ body)).utf8ByteSize ∧
    ∀ i ∈ scan.items, (Item.span i).stop.toNat ≤ before.utf8ByteSize ∨
      (before ++ ("//" ++ body)).utf8ByteSize ≤ (Item.span i).start.toNat

/-- A scan that loses nothing of its source. `drain` holds the tokens and the errors together, in
the order in which they were met. -/
structure Lossless (scan : Scan) (source : String) : Prop where
  within : ∀ i ∈ scan.drain, (Item.span i).Within source
  /-- Items stand in order, and none starts in front of where an earlier one ends. -/
  increasing : scan.drain.Pairwise fun i j => (Item.span i).stop ≤ (Item.span j).start
  token : ∀ t ∈ scan.tokens, t.kind ≠ .eof →
    t.span.start < t.span.stop ∧ t.span.Covers source t.lexeme
  unexpectedCharacter : ∀ e ∈ scan.errors, ∀ c, e.cause = .unexpectedCharacter c →
    e.span.Covers source (String.singleton c)
  /-- An unterminated string reaches from its quote to the end, and no other quote follows. -/
  unterminatedString : ∀ e ∈ scan.errors, e.cause = .unterminatedString →
    e.span.stop.toNat = source.utf8ByteSize ∧
      ∃ body : String, '"' ∉ body.toList ∧ e.span.Covers source ("\"" ++ body)
  /-- There are no other errors. -/
  cause : ∀ e ∈ scan.errors, e.cause = .unterminatedString ∨ ∃ c, e.cause = .unexpectedCharacter c
  /-- A character that no item covers is a blank, or in a comment. -/
  uncovered : ∀ (before : String) (c : Char) (behind : String),
    source = before ++ String.singleton c ++ behind →
    (∀ i ∈ scan.items, ¬ ((Item.span i).start.toNat ≤ before.utf8ByteSize ∧
      before.utf8ByteSize < (Item.span i).stop.toNat)) →
    (c = ' ' ∨ c = '\t' ∨ c = '\r' ∨ c = '\n') ∨ scan.InComment source before.utf8ByteSize
  /-- Behind all other tokens stands one for the end of the source. -/
  eof : ∃ (others : List Token) (last : Token), scan.tokens = others ++ [last] ∧
    (∀ t ∈ others, t.kind ≠ .eof) ∧ last.kind = .eof ∧
    last.span.start.toNat = source.utf8ByteSize ∧ last.span.stop.toNat = source.utf8ByteSize

end Scan

/-! ### Items of located pieces -/

section

variable {before cs : List Char} {ps : List Piece} {l : Located} {i : Item}

/-- An item covers the bytes of its piece. -/
theorem span_of_item? (h : l.item? = some i) : Item.span i = l.span := by
  rw [Located.item?, Piece.item?] at h
  split at h <;> cases h <;> rfl

/-- What an item says is the text of its piece. -/
theorem item?_cases (h : Pieced cs ps) (hl : l ∈ locate before ps) (hi : l.item? = some i) :
    (∃ t : Token, i = .ok t ∧ t.kind ≠ .eof ∧ t.lexeme = String.ofList l.piece.text ∧
      l.piece.text ≠ []) ∨
    (∃ (e : LexicalError) (c : Char), i = .error e ∧ e.cause = .unexpectedCharacter c ∧
      l.piece.text = [c]) ∨
    (∃ (e : LexicalError) (body : List Char), i = .error e ∧ e.cause = .unterminatedString ∧
      l.piece.text = '"' :: body ∧ '"' ∉ body ∧ before ++ cs = l.after) := by
  obtain ⟨behind, hafter, hcut⟩ := mem_locate h hl
  have hrole := hcut.role_cases
  rw [Located.item?, Piece.item?] at hi
  split at hi <;> rename_i hp <;> rw [hp] at hrole <;> cases hi
  · exact .inl ⟨_, rfl, hrole.2, rfl, hrole.1⟩
  · exact .inr (.inl ⟨_, _, rfl, rfl, hrole⟩)
  · obtain ⟨rfl, body, htext, hb⟩ := hrole
    exact .inr (.inr ⟨_, body, rfl, rfl, htext, hb, by rw [hafter, List.append_nil]⟩)

/-- A piece without an item is a blank or a comment. -/
theorem item?_eq_none_cases (h : Pieced cs ps) (hl : l ∈ locate before ps) (hi : l.item? = none) :
    ∃ behind, before ++ cs = l.after ++ behind ∧
      ((∃ c, isBlank c ∧ l.piece.text = [c]) ∨
        ∃ body, l.piece.text = '/' :: '/' :: body ∧ '\n' ∉ body ∧
          ∀ c ∈ behind.head?, c = '\n') := by
  obtain ⟨behind, hafter, hcut⟩ := mem_locate h hl
  have hrole := hcut.role_cases
  rw [Located.item?, Piece.item?] at hi
  split at hi <;> rename_i hp <;> cases hi
  rw [hp] at hrole
  exact ⟨behind, hafter, hrole⟩

end

/-! ### The items of a text -/

section

variable {s : String} {l l' : Located} {i : Item}

/-- A located piece covers its text. -/
theorem covers_of_mem_located (hs : s.utf8ByteSize < 2 ^ 32) (hl : l ∈ located s) :
    l.span.Covers s (String.ofList l.piece.text) := by
  obtain ⟨behind, hbehind⟩ := prefix_of_mem_located hl
  refine ⟨String.ofList l.before, String.ofList behind, ?_, ?_, ?_⟩
  · rw [← String.ofList_append, ← String.ofList_append]
    exact (String.ofList_toList.symm.trans (congrArg String.ofList hbehind.symm))
  · rw [toNat_start hs hl, utf8ByteSize_ofList]
  · rw [toNat_stop hs hl, ← String.ofList_append, utf8ByteSize_ofList]
    rfl

/-- Of two pieces, one lies in front of the other. -/
theorem prefix_or_prefix (hl : l ∈ located s) (hl' : l' ∈ located s) (hne : l ≠ l') :
    l.after <+: l'.before ∨ l'.after <+: l.before := by
  have hsymm : Std.Symm fun a b : Located => a.after <+: b.before ∨ b.after <+: a.before :=
    ⟨fun _ _ h => h.symm⟩
  have hpairs : (located s).Pairwise fun a b => a.after <+: b.before ∨ b.after <+: a.before :=
    (pairwise_locate [] (pieces s.toList)).imp .inl
  exact hpairs.forall hl hl' hne

theorem mem_items : i ∈ (Scan.ofString s).items ↔ ∃ l ∈ located s, l.item? = some i := by
  rw [scan_ofString, List.mem_filterMap]

theorem mem_errors {scan : Scan} {e : LexicalError} : e ∈ scan.errors ↔ .error e ∈ scan.items := by
  rw [Scan.errors, List.mem_filterMap]
  constructor
  · rintro ⟨i, hi, he⟩
    cases i with
    | ok t => cases he
    | error e' => cases he; exact hi
  · exact fun h => ⟨_, h, rfl⟩

/-- The tokens in front of the one at the end. -/
theorem mem_filterMap_toOption {scan : Scan} {t : Token} :
    t ∈ scan.items.filterMap Except.toOption ↔ .ok t ∈ scan.items := by
  rw [List.mem_filterMap]
  constructor
  · rintro ⟨i, hi, ht⟩
    cases i with
    | ok t' => cases ht; exact hi
    | error e => cases ht
  · exact fun h => ⟨_, h, rfl⟩

/-- The token at the end, an empty span behind everything. -/
theorem toNat_span_last (hs : s.utf8ByteSize < 2 ^ 32) :
    (Scan.ofString s).last.span.start.toNat = s.utf8ByteSize ∧
      (Scan.ofString s).last.span.stop.toNat = s.utf8ByteSize := by
  have : (width s.toList).toUInt32.toNat = s.utf8ByteSize := by
    rw [width_toList, toNat_toUInt32 hs]
  rw [scan_ofString]
  exact ⟨this, this⟩

theorem within_last (hs : s.utf8ByteSize < 2 ^ 32) : (Scan.ofString s).last.span.Within s := by
  have hcovers : (Scan.ofString s).last.span.Covers s "" := by
    obtain ⟨hstart, hstop⟩ := toNat_span_last hs
    exact ⟨s, "", by simp, hstart, by rw [hstop, String.append_empty]⟩
  exact hcovers.within

theorem within_of_mem_items (hs : s.utf8ByteSize < 2 ^ 32) (hi : i ∈ (Scan.ofString s).items) :
    (Item.span i).Within s := by
  obtain ⟨l, hl, hli⟩ := mem_items.1 hi
  rw [span_of_item? hli]
  exact (covers_of_mem_located hs hl).within

/-- Items stand in order, the token at the end behind all others. -/
theorem increasing_drain (hs : s.utf8ByteSize < 2 ^ 32) :
    (Scan.ofString s).drain.Pairwise fun i j => (Item.span i).stop ≤ (Item.span j).start := by
  rw [Scan.drain, List.pairwise_append]
  refine ⟨?_, List.pairwise_singleton _ _, fun i hi j hj => ?_⟩
  · rw [scan_ofString, List.pairwise_filterMap]
    refine (pairwise_locate [] (pieces s.toList)).imp_of_mem fun hl hl' h i hi j hj => ?_
    rw [span_of_item? hi, span_of_item? hj, UInt32.le_iff_toNat_le, toNat_stop hs hl,
      toNat_start hs hl']
    exact width_mono h
  · rw [List.mem_singleton.1 hj, UInt32.le_iff_toNat_le]
    exact (within_of_mem_items hs hi).inBounds.trans_eq (toNat_span_last hs).1.symm

theorem covers_token (hs : s.utf8ByteSize < 2 ^ 32) {t : Token}
    (ht : .ok t ∈ (Scan.ofString s).items) :
    t.kind ≠ .eof ∧ t.span.start < t.span.stop ∧ t.span.Covers s t.lexeme := by
  obtain ⟨l, hl, hli⟩ := mem_items.1 ht
  have hspan : t.span = l.span := span_of_item? hli
  rcases item?_cases (pieced_pieces _) hl hli with
    ⟨t, hi, hk, hlex, hne⟩ | ⟨e, c, hi, -⟩ | ⟨e, body, hi, -⟩ <;> cases hi
  rw [hspan, hlex]
  refine ⟨hk, ?_, covers_of_mem_located hs hl⟩
  rw [UInt32.lt_iff_toNat_lt, toNat_start hs hl, toNat_stop hs hl, Located.after, width_append]
  exact Nat.lt_add_of_pos_right (width_pos hne)

/-- An error is one of two kinds, and covers what is wrong. -/
theorem covers_error (hs : s.utf8ByteSize < 2 ^ 32) {e : LexicalError}
    (he : .error e ∈ (Scan.ofString s).items) :
    (∃ c, e.cause = .unexpectedCharacter c ∧ e.span.Covers s (String.singleton c)) ∨
      (e.cause = .unterminatedString ∧ e.span.stop.toNat = s.utf8ByteSize ∧
        ∃ body : String, '"' ∉ body.toList ∧ e.span.Covers s ("\"" ++ body)) := by
  obtain ⟨l, hl, hli⟩ := mem_items.1 he
  have hspan : e.span = l.span := span_of_item? hli
  have hcovers := covers_of_mem_located hs hl
  rw [hspan]
  rcases item?_cases (pieced_pieces _) hl hli with
    ⟨t, hi, -⟩ | ⟨e, c, hi, hc, htext⟩ | ⟨e, body, hi, hc, htext, hb, hend⟩ <;> cases hi
  · refine .inl ⟨c, hc, ?_⟩
    rw [htext] at hcovers
    rwa [String.singleton_eq_ofList]
  · refine .inr ⟨hc, ?_, String.ofList body, by rwa [String.toList_ofList], ?_⟩
    · rw [toNat_stop hs hl, ← hend, List.nil_append, width_toList]
    · rw [htext] at hcovers
      rwa [show "\"" = String.ofList ['"'] from rfl, ← String.ofList_append]

/-- A comment and an item have no byte in common. -/
theorem span_disjoint (hs : s.utf8ByteSize < 2 ^ 32) (hl : l ∈ located s) (hno : l.item? = none)
    (hi : i ∈ (Scan.ofString s).items) :
    (Item.span i).stop.toNat ≤ width l.before ∨ width l.after ≤ (Item.span i).start.toNat := by
  obtain ⟨l', hl', hli⟩ := mem_items.1 hi
  have hne : l' ≠ l := by
    rintro rfl
    rw [hno] at hli
    cases hli
  rw [span_of_item? hli, toNat_stop hs hl', toNat_start hs hl']
  rcases prefix_or_prefix hl' hl hne with h | h
  · exact .inl (width_mono h)
  · exact .inr (width_mono h)

/-- What no item covers is a blank, or in a comment. -/
theorem blank_or_comment (hs : s.utf8ByteSize < 2 ^ 32) {before behind : String} {c : Char}
    (h : s = before ++ String.singleton c ++ behind)
    (hno : ∀ i ∈ (Scan.ofString s).items, ¬ ((Item.span i).start.toNat ≤ before.utf8ByteSize ∧
      before.utf8ByteSize < (Item.span i).stop.toNat)) :
    (c = ' ' ∨ c = '\t' ∨ c = '\r' ∨ c = '\n') ∨
      (Scan.ofString s).InComment s before.utf8ByteSize := by
  have hchars : s.toList = before.toList ++ c :: behind.toList := by simp [h]
  obtain ⟨l, hl, inner, outer, hfront, htext⟩ :
      ∃ l ∈ located s, ∃ inner outer, [] ++ before.toList = l.before ++ inner ∧
        l.piece.text = inner ++ c :: outer :=
    exists_locate (pieced_pieces s.toList) hchars
  have hstart : width l.before ≤ before.utf8ByteSize := by
    rw [← width_toList, ← List.nil_append before.toList, hfront]
    exact width_mono (List.prefix_append _ _)
  have hstop : before.utf8ByteSize < width l.after := by
    rw [← width_toList, ← List.nil_append before.toList, hfront, Located.after, htext,
      ← List.append_assoc, width_append _ (c :: outer)]
    exact Nat.lt_add_of_pos_right (width_pos (List.cons_ne_nil c outer))
  -- An item of the piece around the character would cover it.
  have hnone : l.item? = none := by
    rw [Option.eq_none_iff_forall_not_mem]
    intro i hi
    refine hno i (mem_items.2 ⟨l, hl, hi⟩) ?_
    rw [span_of_item? hi, toNat_start hs hl, toNat_stop hs hl]
    exact ⟨hstart, hstop⟩
  obtain ⟨rest, hrest, hrole⟩ := item?_eq_none_cases (pieced_pieces s.toList) hl hnone
  rcases hrole with ⟨d, hd, htext'⟩ | ⟨body, htext', hb, hr⟩
  · have hcd : c ∈ l.piece.text := by rw [htext]; simp
    rw [htext', List.mem_singleton] at hcd
    rw [← hcd] at hd
    exact .inl (by simpa [isBlank, or_assoc] using hd)
  · have hafter : String.ofList l.before ++ ("//" ++ String.ofList body) =
        String.ofList l.after := by
      rw [Located.after, htext', ← String.toList_inj]
      simp
    refine .inr ⟨String.ofList l.before, String.ofList body, String.ofList rest, ?_, ?_, ?_, ?_, ?_,
      ?_⟩
    · rw [hafter, ← String.ofList_append, ← hrest, List.nil_append, String.ofList_toList]
    · rwa [String.toList_ofList]
    · cases rest with
      | nil => exact .inl rfl
      | cons d rest =>
          obtain rfl : d = '\n' := hr d rfl
          refine .inr ⟨String.ofList rest, ?_⟩
          rw [← String.toList_inj]
          simp
    · rwa [utf8ByteSize_ofList]
    · rwa [hafter, utf8ByteSize_ofList]
    · intro i hi
      rw [hafter, utf8ByteSize_ofList, utf8ByteSize_ofList]
      exact span_disjoint hs hl hnone hi

end

/-- **Coverage.**  Scanning a text that is shorter than 2^32 bytes loses nothing of it. -/
theorem lossless_ofString (s : String) (hs : s.utf8ByteSize < 2 ^ 32) :
    (Scan.ofString s).Lossless s where
  within := by
    intro i hi
    rcases List.mem_append.1 hi with hi | hi
    · exact within_of_mem_items hs hi
    · rw [List.mem_singleton.1 hi]
      exact within_last hs
  increasing := increasing_drain hs
  token := by
    intro t ht hk
    rcases List.mem_append.1 ht with ht | ht
    · exact (covers_token hs (mem_filterMap_toOption.1 ht)).2
    · rw [List.mem_singleton.1 ht, scan_ofString] at hk
      exact absurd rfl hk
  unexpectedCharacter := by
    intro e he c hc
    rcases covers_error hs (mem_errors.1 he) with ⟨d, hd, hcovers⟩ | ⟨hu, -⟩
    · rw [hc] at hd
      cases hd
      exact hcovers
    · rw [hc] at hu
      cases hu
  unterminatedString := by
    intro e he hu
    rcases covers_error hs (mem_errors.1 he) with ⟨c, hc, -⟩ | ⟨-, hcovers⟩
    · rw [hu] at hc
      cases hc
    · exact hcovers
  cause := by
    intro e he
    rcases covers_error hs (mem_errors.1 he) with ⟨c, hc, -⟩ | ⟨hu, -⟩
    · exact .inr ⟨c, hc⟩
    · exact .inl hu
  uncovered := fun before c behind h hno => blank_or_comment hs h hno
  eof := by
    refine ⟨_, (Scan.ofString s).last, rfl, fun t ht => ?_, ?_, toNat_span_last hs⟩
    · exact (covers_token hs (mem_filterMap_toOption.1 ht)).1
    · rw [scan_ofString]
      rfl

theorem lossless_ofString_mixed :
    "é1 // é\n@\"b".utf8ByteSize < 2 ^ 32 ∧
      (Scan.ofString "é1 // é\n@\"b").Lossless "é1 // é\n@\"b" :=
  have h : "é1 // é\n@\"b".utf8ByteSize < 2 ^ 32 := by decide
  ⟨h, lossless_ofString _ h⟩

end Token

end Lox
