import Mathlib.Data.List.Forall2
import Lox.Proofs.Token.Coverage

/-!
# Proofs — Token — Texts one behind the other

A text, a line break and a second text scan to what each of the texts scans to, one behind the
other (`scan_join`), if no string of the first text is left open.  What comes from the second text is
moved: down by the lines and on by the bytes in front of it (`Token.movedBy`).

A line break goes on with no piece but an open string.  So cutting does not notice that a line
break and more stand behind the text (`cut_append_break`), and the pieces of the whole are those of
the first text, the line break, and those of the second (`pieces_join`).  Offsets are added as
32-bit words, so that nothing is asked of the sizes of the texts.

**Lines and bytes** (`scan_composes`).  If all of it is shorter than 2^32 bytes then nothing wraps, and
what comes from the second text lies as many bytes farther on as the first text has, and one.
-/

namespace Lox

/-! ### Moved places -/

/-- A span that lies so many bytes farther on. -/
def Span.movedBy (bytes : Offset) (s : Span) : Span := ⟨bytes + s.start, bytes + s.stop⟩

/-- A token that stands so many lines and bytes farther on. -/
def Token.movedBy (lines : Nat) (bytes : Offset) (t : Token) : Token :=
  { t with line := lines + t.line, span := t.span.movedBy bytes }

/-- An error that lies so many lines and bytes farther on. -/
def LexicalError.movedBy (lines : Nat) (bytes : Offset) (e : LexicalError) : LexicalError :=
  { e with line := lines + e.line, span := e.span.movedBy bytes }

/-- A span is another one, so many bytes farther on. -/
structure Span.Behind (bytes : Nat) (s s' : Span) : Prop where
  start : s'.start.toNat = bytes + s.start.toNat
  stop : s'.stop.toNat = bytes + s.stop.toNat

/-- A token is another one, so many lines and bytes farther on. -/
structure Token.Behind (lines bytes : Nat) (t t' : Token) : Prop where
  kind : t'.kind = t.kind
  lexeme : t'.lexeme = t.lexeme
  literal : t'.literal? = t.literal?
  line : t'.line = lines + t.line
  span : t.span.Behind bytes t'.span

/-- An error is another one, so many lines and bytes farther on. -/
structure LexicalError.Behind (lines bytes : Nat) (e e' : LexicalError) : Prop where
  cause : e'.cause = e.cause
  line : e'.line = lines + e.line
  span : e.span.Behind bytes e'.span

/-- A scan that holds what one scan holds, but for the token at its end, and then what another one
holds, so many lines and bytes farther on. -/
structure Token.Scan.Composed (scan first second : Scan) (lines bytes : Nat) : Prop where
  tokens : ∃ ts, scan.tokens = first.tokens.dropLast ++ ts ∧
    List.Forall₂ (Token.Behind lines bytes) second.tokens ts
  errors : ∃ es, scan.errors = first.errors ++ es ∧
    List.Forall₂ (LexicalError.Behind lines bytes) second.errors es

namespace Token

/-- An item that lies so many lines and bytes farther on. -/
def Item.movedBy (lines : Nat) (bytes : Offset) : Item → Item
  | .ok t => .ok (t.movedBy lines bytes)
  | .error e => .error (e.movedBy lines bytes)

variable {c : Char} {cs ds rest : List Char}

/-! ### Cutting in front of a line break -/

/-- What a line break does not go on with ends in front of it. -/
theorem takeWhile_append_break {p : Char → Bool} (hp : p '\n' = false) (cs ds : List Char) :
    (cs ++ '\n' :: ds).takeWhile p = cs.takeWhile p := by
  induction cs with
  | nil => simp [hp]
  | cons c cs ih => by_cases hc : p c <;> simp [hc, ih]

theorem dropWhile_append_break {p : Char → Bool} (hp : p '\n' = false) (cs ds : List Char) :
    (cs ++ '\n' :: ds).dropWhile p = cs.dropWhile p ++ '\n' :: ds := by
  induction cs with
  | nil => simp [hp]
  | cons c cs ih => by_cases hc : p c <;> simp [hc, ih]

theorem head?_append_break (hc : c ≠ '\n') (cs ds : List Char) :
    (cs ++ '\n' :: ds).head? = some c ↔ cs.head? = some c := by
  cases cs with
  | nil => simp [hc.symm]
  | cons d cs => rfl

theorem double_append_break {second : Char} (hs : second ≠ '\n') {long short : Kind} :
    Piece.double c (cs ++ '\n' :: ds) second long short = Piece.double c cs second long short := by
  simp only [Piece.double, head?_append_break hs]

theorem slash_append_break : Piece.slash (cs ++ '\n' :: ds) = Piece.slash cs := by
  have hbreak : (decide ('\n' ≠ '\n')) = false := by decide
  simp only [Piece.slash, head?_append_break (show '/' ≠ '\n' by decide),
    takeWhile_append_break (p := (· ≠ '\n')) hbreak]

theorem number_append_break : Piece.number c (cs ++ '\n' :: ds) = Piece.number c cs := by
  have hbreak : isDigit '\n' = false := by decide
  rw [Piece.number, Piece.number, takeWhile_append_break hbreak, dropWhile_append_break hbreak]
  -- At the end of the text, the line break stands where a point or a digit might.
  cases cs.dropWhile isDigit with
  | nil => rfl
  | cons e rest =>
      by_cases he : e = '.'
      · subst he
        cases rest with
        | nil => simp [hbreak]
        | cons d rest => simp [takeWhile_append_break hbreak]
      · split <;> split <;> simp_all

theorem word_append_break : Piece.word c (cs ++ '\n' :: ds) = Piece.word c cs := by
  rw [Piece.word, Piece.word, takeWhile_append_break (by decide)]

/-- A string that is closed is closed in front of the line break. -/
theorem string_append_break (h : (Piece.string cs).role ≠ .unclosed) :
    Piece.string (cs ++ '\n' :: ds) = Piece.string cs := by
  cases hclose : cs.dropWhile (· ≠ '"') with
  | nil => exact absurd (by rw [Piece.string, hclose]) h
  | cons quote rest =>
      have htake : (cs ++ '\n' :: ds).takeWhile (· ≠ '"') = cs.takeWhile (· ≠ '"') := by
        rw [List.takeWhile_append, if_neg]
        intro hlen
        have hsplit := congrArg List.length (List.takeWhile_append_dropWhile (p := (· ≠ '"')) (l := cs))
        rw [List.length_append, hlen, hclose, List.length_cons] at hsplit
        omega
      have hdrop : (cs ++ '\n' :: ds).dropWhile (· ≠ '"') = quote :: rest ++ '\n' :: ds := by
        rw [List.dropWhile_append, hclose]
        rfl
      rw [Piece.string, Piece.string, htake, hdrop, hclose]
      rfl

/-- Cutting does not notice a line break and what stands behind it, unless inside a string. -/
theorem cut_append_break (h : (Piece.cut c cs).role ≠ .unclosed) :
    Piece.cut c (cs ++ '\n' :: ds) = Piece.cut c cs := by
  unfold Piece.cut at h ⊢
  split
  case h_11 | h_12 | h_13 | h_14 => exact double_append_break (by decide)
  case h_15 => exact slash_append_break
  case h_16 => exact string_append_break h
  case h_17 => rw [number_append_break, word_append_break]
  all_goals rfl

/-! ### The pieces of a joined text -/

/-- The pieces of a text, a line break and a second text. -/
theorem pieces_join (h : ∀ p ∈ pieces cs, p.role ≠ .unclosed) (ds : List Char) :
    pieces (cs ++ '\n' :: ds) = pieces cs ++ ⟨['\n'], .skipped⟩ :: pieces ds := by
  induction hn : cs.length using Nat.strongRecOn generalizing cs with
  | ind n ih =>
      cases cs with
      | nil => exact pieces_cons (.blank ds rfl)
      | cons c cs =>
          obtain ⟨rest, hcut⟩ := exists_cuts c cs
          rw [pieces_cons hcut] at h ⊢
          have heq : Piece.cut c (cs ++ '\n' :: ds) = Piece.cut c cs :=
            cut_append_break (h _ List.mem_cons_self)
          obtain ⟨rest', hcut'⟩ := exists_cuts c (cs ++ '\n' :: ds)
          have hrest : rest' = rest ++ '\n' :: ds := by
            have := hcut'.append
            rw [← List.cons_append, hcut.append, heq, List.append_assoc] at this
            exact (List.append_cancel_left this).symm
          rw [List.cons_append, pieces_cons hcut', heq, hrest, List.cons_append]
          have hlen := congrArg List.length hcut.append
          have hpos := List.length_pos_iff.2 hcut.text_ne_nil
          rw [List.length_append] at hlen
          rw [ih rest.length (by omega) (fun p hp => h p (List.mem_cons_of_mem _ hp)) rfl]

theorem locate_append (before : List Char) (ps qs : List Piece) :
    locate before (ps ++ qs) = locate before ps ++ locate (before ++ ps.flatMap Piece.text) qs := by
  induction ps generalizing before with
  | nil => simp [locate]
  | cons p ps ih => simp [locate, ih]

/-- With more in front of them, pieces lie behind it. -/
theorem locate_shift (front before : List Char) (ps : List Piece) :
    locate (front ++ before) ps =
      (locate before ps).map fun l => { l with before := front ++ l.before } := by
  induction ps generalizing before with
  | nil => rfl
  | cons p ps ih => rw [locate, locate, List.append_assoc, ih, List.map_cons]

/-- With more in front of it, a piece amounts to the same, moved behind it. -/
theorem item?_shift (front : List Char) (l : Located) :
    Located.item? { l with before := front ++ l.before } =
      l.item?.map (Item.movedBy (lineBreaks front) (width front).toUInt32) := by
  have hline : Located.line { l with before := front ++ l.before } = lineBreaks front + l.line := by
    rw [Located.line, Located.line, lineBreaks_append]
    omega
  have hspan : Located.span { l with before := front ++ l.before } =
      l.span.movedBy (width front).toUInt32 := by
    rw [Located.span, Located.span, Span.movedBy, Located.after, Located.after, List.append_assoc,
      width_append, width_append]
    simp
  rw [Located.item?, Located.item?, hline, hspan]
  cases hrole : l.piece.role with
  | skipped => simp [Piece.item?, hrole]
  | token kind => simp [Piece.item?, hrole, Item.movedBy, Token.movedBy]
  | stray c => simp [Piece.item?, hrole, Item.movedBy, LexicalError.movedBy]
  | unclosed => simp [Piece.item?, hrole, Item.movedBy, LexicalError.movedBy, Nat.add_assoc]

/-! ### The scan of a joined text -/

theorem map_piece_locate (before : List Char) (ps : List Piece) :
    (locate before ps).map Located.piece = ps := by
  induction ps generalizing before with
  | nil => rfl
  | cons p ps ih => rw [locate, List.map_cons, ih]

/-- An open string is an error. -/
theorem role_ne_unclosed {s : String}
    (h : ∀ e ∈ (Scan.ofString s).errors, e.cause ≠ .unterminatedString) :
    ∀ p ∈ pieces s.toList, p.role ≠ .unclosed := by
  intro p hp hrole
  rw [← map_piece_locate [] (pieces s.toList)] at hp
  obtain ⟨l, hl, rfl⟩ := List.mem_map.1 hp
  refine h ⟨.unterminatedString, l.line + lineBreaks l.piece.text, l.span⟩ ?_ rfl
  refine mem_errors.2 (mem_items.2 ⟨l, hl, ?_⟩)
  rw [Located.item?, Piece.item?, hrole]

/-- **Joining.**  A text whose strings are closed, a line break and a second text scan to what the
two texts scan to, one behind the other, that of the second one being moved behind the break. -/
theorem scan_join {s : String} (h : ∀ e ∈ (Scan.ofString s).errors, e.cause ≠ .unterminatedString)
    (s' : String) :
    Scan.ofString (s ++ "\n" ++ s') =
      ⟨(Scan.ofString s).items ++ (Scan.ofString s').items.map
          (Item.movedBy (lineBreaks s.toList + 1) (s.utf8ByteSize + 1).toUInt32),
        (Scan.ofString s').last.movedBy (lineBreaks s.toList + 1) (s.utf8ByteSize + 1).toUInt32⟩ := by
  have hchars : (s ++ "\n" ++ s').toList = s.toList ++ '\n' :: s'.toList := by simp
  have hfront : width (s.toList ++ ['\n']) = s.utf8ByteSize + 1 := by
    rw [width_append, width_toList]
    rfl
  have hbreaks : lineBreaks (s.toList ++ ['\n']) = lineBreaks s.toList + 1 := lineBreaks_append ..
  have hshift := locate_shift (s.toList ++ ['\n']) [] (pieces s'.toList)
  rw [List.append_nil] at hshift
  have hlocated : located (s ++ "\n" ++ s') = located s ++ ⟨s.toList, ⟨['\n'], .skipped⟩⟩ ::
      (located s').map fun l => { l with before := s.toList ++ ['\n'] ++ l.before } := by
    rw [located, hchars, pieces_join (role_ne_unclosed h), locate_append,
      (pieced_pieces s.toList).flatMap_text, List.nil_append, locate, hshift]
    rfl
  rw [scan_ofString, scan_ofString, scan_ofString, hlocated, hchars]
  simp only [Scan.mk.injEq]
  constructor
  · rw [List.filterMap_append, List.filterMap_cons_none (show Located.item? _ = none from rfl),
      List.filterMap_map, List.map_filterMap, ← hbreaks, ← hfront]
    congr 2
    funext l
    exact item?_shift _ l
  · rw [← List.singleton_append, ← List.append_assoc, width_append, lineBreaks_append, hfront, hbreaks]
    simp [Token.eof, Token.movedBy, Span.point, Span.movedBy, Nat.add_left_comm]

/-- The tokens of a joined text, but for the one at the end of the first. -/
theorem tokens_join {s : String} (h : ∀ e ∈ (Scan.ofString s).errors, e.cause ≠ .unterminatedString)
    (s' : String) :
    (Scan.ofString (s ++ "\n" ++ s')).tokens =
      (Scan.ofString s).items.filterMap Except.toOption ++ (Scan.ofString s').tokens.map
        (Token.movedBy (lineBreaks s.toList + 1) (s.utf8ByteSize + 1).toUInt32) := by
  rw [scan_join h, Scan.tokens, Scan.tokens, List.filterMap_append, List.filterMap_map,
    List.append_assoc, List.map_append, List.map_filterMap]
  congr 3
  funext i
  cases i <;> rfl

/-- The errors of a joined text. -/
theorem errors_join {s : String} (h : ∀ e ∈ (Scan.ofString s).errors, e.cause ≠ .unterminatedString)
    (s' : String) :
    (Scan.ofString (s ++ "\n" ++ s')).errors =
      (Scan.ofString s).errors ++ (Scan.ofString s').errors.map
        (LexicalError.movedBy (lineBreaks s.toList + 1) (s.utf8ByteSize + 1).toUInt32) := by
  rw [scan_join h, Scan.errors, Scan.errors, Scan.errors, List.filterMap_append, List.filterMap_map,
    List.map_filterMap]
  congr 2
  funext i
  cases i <;> rfl

/-- Only the token at the end of a scan is an end of input. -/
theorem kind_ne_eof {s : String} {t : Token}
    (ht : t ∈ (Scan.ofString s).items.filterMap Except.toOption) : t.kind ≠ .eof := by
  obtain ⟨l, hl, hi⟩ := mem_items.1 (mem_filterMap_toOption.1 ht)
  rcases item?_cases (pieced_pieces s.toList) hl hi with
    ⟨t', ht', hk, -⟩ | ⟨e, c, he, -⟩ | ⟨e, body, he, -⟩
  · cases ht'
    exact hk
  · cases he
  · cases he

/-! ### Without wrapping -/

section

variable {s s' : String} {bytes : Nat}

/-- An offset that is moved farther on does not wrap if the sum is an offset. -/
theorem toNat_moved {o : Offset} (h : bytes + o.toNat < 2 ^ 32) :
    (bytes.toUInt32 + o).toNat = bytes + o.toNat := by
  rw [UInt32.toNat_add, toNat_toUInt32 (Nat.lt_of_le_of_lt (Nat.le_add_right _ _) h),
    Nat.mod_eq_of_lt h]

theorem behind_movedBy {span : Span} (h : span.Within s')
    (hbytes : bytes + s'.utf8ByteSize < 2 ^ 32) :
    span.Behind bytes (span.movedBy bytes.toUInt32) where
  start := by
    have hstart := h.ordered.trans h.inBounds
    exact toNat_moved (Nat.lt_of_le_of_lt (Nat.add_le_add_left hstart bytes) hbytes)
  stop := toNat_moved (Nat.lt_of_le_of_lt (Nat.add_le_add_left h.inBounds bytes) hbytes)

theorem utf8ByteSize_join (s s' : String) :
    (s ++ "\n" ++ s').utf8ByteSize = s.utf8ByteSize + 1 + s'.utf8ByteSize := by
  rw [String.utf8ByteSize_append, String.utf8ByteSize_append]
  rfl

/-- **Composition.**  A text whose strings are closed, a line break and a second text, together
shorter than 2^32 bytes, scan to what the first text scans to, without its end, and what the second
one scans to, that many lines and bytes farther on. -/
theorem scan_composes (s s' : String) (hs : (s ++ "\n" ++ s').utf8ByteSize < 2 ^ 32)
    (h : ∀ e ∈ (Scan.ofString s).errors, e.cause ≠ .unterminatedString) :
    (Scan.ofString (s ++ "\n" ++ s')).Composed (Scan.ofString s) (Scan.ofString s')
      (lineBreaks s.toList + 1) (s.utf8ByteSize + 1) := by
  rw [utf8ByteSize_join] at hs
  have hs' : s'.utf8ByteSize < 2 ^ 32 := Nat.lt_of_le_of_lt (Nat.le_add_left _ _) hs
  have hinit : (Scan.ofString s).tokens.dropLast =
      (Scan.ofString s).items.filterMap Except.toOption := List.dropLast_concat
  refine ⟨⟨_, hinit ▸ tokens_join h s', ?_⟩, ⟨_, errors_join h s', ?_⟩⟩
  · refine List.forall₂_map_right_iff.2 (List.forall₂_same.2 fun t ht => ?_)
    have hwithin : t.span.Within s' := by
      rcases List.mem_append.1 ht with ht | ht
      · exact within_of_mem_items hs' (mem_filterMap_toOption.1 ht)
      · rw [List.mem_singleton.1 ht]
        exact within_last hs'
    exact ⟨rfl, rfl, rfl, rfl, behind_movedBy hwithin hs⟩
  · refine List.forall₂_map_right_iff.2 (List.forall₂_same.2 fun e he => ?_)
    exact ⟨rfl, rfl, behind_movedBy (within_of_mem_items hs' (mem_errors.1 he)) hs⟩

/-- The second text would go on with the operator that the first one ends with, and leaves a string
open. -/
theorem scan_composes_operator :
    ("é1\n2 !" ++ "\n" ++ "= // é\n\"").utf8ByteSize < 2 ^ 32 ∧
      (∀ e ∈ (Scan.ofString "é1\n2 !").errors, e.cause ≠ .unterminatedString) ∧
      (Scan.ofString ("é1\n2 !" ++ "\n" ++ "= // é\n\"")).Composed (Scan.ofString "é1\n2 !")
        (Scan.ofString "= // é\n\"") 2 8 := by
  have hs : ("é1\n2 !" ++ "\n" ++ "= // é\n\"").utf8ByteSize < 2 ^ 32 := by decide +kernel
  have h : ∀ e ∈ (Scan.ofString "é1\n2 !").errors, e.cause ≠ .unterminatedString := by
    decide +kernel
  exact ⟨hs, h, scan_composes _ _ hs h⟩

end

end Token

end Lox
