import Lox.Proofs.Text.Utf8
import Lox.Proofs.Token.Joining
import Lox.Proofs.Token.LongestMatch

/-!
# Proofs — Token — Characters that act as blanks

**Blanking** (`scan_blanked`).  A character that starts no token may as well be blank: with a space
in place of each of its bytes, a text shorter than 2^32 bytes has the tokens that it had, in the
same places, and all its other errors.

What is cut off a text stays the longest piece that the grammar has there when characters behind it
become blank (`munches_blanked`).  A longer piece would have to go on over one of these blanks, so it
would be a string or a comment; but a string ends at its quote, and a comment would have gone on over
the character itself.
-/

namespace Lox

/-- Whether a stretch of text is one character that can start no token. -/
def LexicalError.isUnexpected (e : LexicalError) : Bool :=
  match e.cause with
  | .unexpectedCharacter _ => true
  | _ => false

namespace Token

/-! ### Blanks in place of characters -/

/-- The text of pieces that stand one behind the other. -/
abbrev Piece.texts (ps : List Piece) : List Char := ps.flatMap Piece.text

/-- A space. -/
def Piece.blank : Piece := ⟨[' '], .skipped⟩

/-- What stands in place of a piece: of a character that starts no token, as many blanks as it has
bytes. -/
def Piece.blanked (p : Piece) : List Piece :=
  match p.role with
  | .stray c => List.replicate c.utf8Size .blank
  | _ => [p]

section

variable {c : Char} {cs rest more : List Char} {p q : Piece} {ps : List Piece}

theorem Piece.texts_append (ps qs : List Piece) : texts (ps ++ qs) = texts ps ++ texts qs :=
  List.flatMap_append

theorem Piece.texts_singleton (p : Piece) : texts [p] = p.text := List.flatMap_singleton ..

theorem Piece.texts_blanks (n : Nat) :
    texts (List.replicate n Piece.blank) = List.replicate n ' ' := by
  induction n with
  | zero => rfl
  | succ n ih => exact congrArg (' ' :: ·) ih

theorem Piece.texts_blanked_stray (text : List Char) (c : Char) :
    texts (Piece.blanked ⟨text, .stray c⟩) = List.replicate c.utf8Size ' ' :=
  Piece.texts_blanks c.utf8Size

/-- In place of a character stands at least one space. -/
theorem replicate_utf8Size (c : Char) :
    List.replicate c.utf8Size ' ' = ' ' :: List.replicate (c.utf8Size - 1) ' ' := by
  rw [← List.replicate_succ, Nat.sub_add_cancel c.utf8Size_pos]

/-- A regular piece is kept. -/
theorem Piece.blanked_of_regular (h : p.Regular) : p.blanked = [p] := by cases h <;> rfl

/-- A piece is kept, or it is a character that starts none. -/
theorem Munches.blanked_cases (h : Munches cs p rest) :
    (p.blanked = [p] ∧ ∀ c, p.role ≠ .stray c) ∨ ∃ c, p = ⟨[c], .stray c⟩ ∧
      ∀ q : Piece, q.Regular → q.text.head? ≠ some c := by
  cases h with
  | longest _ h => cases h <;> exact .inl ⟨rfl, fun _ hrole => by cases hrole⟩
  | unclosed => exact .inl ⟨rfl, fun _ hrole => by cases hrole⟩
  | stray _ hc => exact .inr ⟨_, rfl, hc⟩

/-- Only strings have spaces in them. -/
theorem Kind.Lexeme.not_mem_space {k : Kind} {text : List Char} (h : k.Lexeme text)
    (hk : text.head? ≠ some '"') : ' ' ∉ text := by
  have hstring : k ≠ .string := by
    rintro rfl
    obtain ⟨body, -, rfl, -⟩ := h.exists_body
    exact hk rfl
  have hsymbols : ∀ p ∈ Kind.symbols, ' ' ∉ p.2 := by decide
  rcases h.inWord_or_symbol hstring with hword | hsymbol
  · exact fun hmem => absurd (hword _ hmem) (by simp [InWord])
  · exact hsymbols _ hsymbol

/-- With a character that starts no piece behind it, a comment is a longer comment. -/
theorem Piece.Regular.comment_concat {body : List Char} (hb : '\n' ∉ body)
    (hc : ∀ q : Piece, q.Regular → q.text.head? ≠ some c) :
    Piece.Regular ⟨'/' :: '/' :: (body ++ [c]), .skipped⟩ := by
  refine .comment fun hmem => ?_
  rcases List.mem_append.1 hmem with hmem | hmem
  · exact hb hmem
  · obtain rfl := List.mem_singleton.1 hmem
    exact hc _ (.white (.inr (.inr (.inr rfl)))) rfl

/-- No piece goes on behind its closing quote. -/
theorem Piece.Regular.not_behind_quote (hq : q.Regular) (hp : p.Regular)
    (hquote : q.text.head? = some '"') (hmore : more ≠ []) : q.text ≠ p.text ++ more := by
  intro htext
  obtain ⟨inner, hinner⟩ := List.head?_eq_some_iff.1 hquote
  obtain ⟨-, body, rfl, hbody⟩ := hq.front hinner
  obtain ⟨d, begin, hbegin⟩ := List.exists_cons_of_ne_nil hp.text_ne_nil
  rw [hinner, hbegin] at htext
  obtain ⟨rfl, htail⟩ := List.cons.inj htext
  have hcut : (body ++ ['"']).dropLast = (begin ++ more).dropLast := congrArg List.dropLast htail
  rw [List.dropLast_concat, List.dropLast_append_of_ne_nil hmore] at hcut
  exact hbody (hcut ▸ List.mem_append_left _ (hp.closed hbegin))

/-- A piece that goes on over a blank where the source has a character that starts none would not be
the longest one, as a comment over that character is longer. -/
theorem Piece.Regular.not_over_space {u v w : List Char} (hq : q.Regular) (hp : p.Regular)
    (hc : ∀ r : Piece, r.Regular → r.text.head? ≠ some c)
    (hmax : ∀ r : Piece, r.Regular → r.text <+: p.text ++ (u ++ c :: w) →
      r.text.length ≤ p.text.length) : q.text ≠ p.text ++ (u ++ ' ' :: v) := by
  intro htext
  have hne : q.text ≠ p.text ++ (u ++ ' ' :: v) ∨ q.text.head? ≠ some '"' := by
    refine or_iff_not_imp_right.2 fun h => hq.not_behind_quote hp (not_not.1 h) (by simp)
  have hspace : ' ' ∈ q.text := by simp [htext]
  rw [← List.append_assoc] at htext
  obtain ⟨d, begin, hbegin⟩ := List.exists_cons_of_ne_nil hp.text_ne_nil
  cases hq with
  | white => simp [hbegin] at htext
  | lexeme hk => exact hk.not_mem_space (hne.resolve_left (not_not.2 (by simpa using htext))) hspace
  | @comment body hb =>
      rw [hbegin, List.cons_append, List.cons_append] at htext
      obtain ⟨rfl, htail⟩ := List.cons.inj htext
      cases hfront : begin ++ u with
      | nil =>
          rw [hfront] at htail
          cases htail
      | cons d' front =>
          rw [hfront, List.cons_append] at htail
          obtain ⟨rfl, rfl⟩ := List.cons.inj htail
          have hb' : '\n' ∉ front := fun h => hb (List.mem_append_left _ h)
          have hlonger : p.text ++ u ++ [c] = '/' :: '/' :: (front ++ [c]) := by
            rw [hbegin, List.cons_append, hfront]
            rfl
          have hle := hmax _ (.comment_concat hb' hc) ⟨w, by simp [← hlonger]⟩
          rw [← hlonger, List.length_append, List.length_append, List.length_singleton] at hle
          omega

/-- A stretch of what stands in place of pieces stands in the pieces, too, or it goes on over a
character that starts none. -/
theorem prefix_blanked (h : Munched cs ps) (hmore : more <+: Piece.texts (ps.flatMap Piece.blanked)) :
    more <+: cs ∨ ∃ u v c w, more = u ++ ' ' :: v ∧ cs = u ++ c :: w ∧
      ∀ q : Piece, q.Regular → q.text.head? ≠ some c := by
  induction h generalizing more with
  | nil => exact .inl hmore
  | @cons cs rest p ps hp _ ih =>
      rw [List.flatMap_cons, Piece.texts_append] at hmore
      rw [hp.append]
      rcases hp.blanked_cases with ⟨hkept, -⟩ | ⟨c, rfl, hc⟩
      · rw [hkept, Piece.texts_singleton] at hmore
        rcases List.prefix_or_prefix_of_prefix hmore (List.prefix_append _ _) with hin | ⟨further, rfl⟩
        · exact .inl (hin.trans (List.prefix_append _ _))
        · rcases ih ((List.prefix_append_right_inj _).1 hmore) with hover | ⟨u, v, c, w, rfl, rfl, hc⟩
          · exact .inl ((List.prefix_append_right_inj _).2 hover)
          · exact .inr ⟨p.text ++ u, v, c, w, by simp, by simp, hc⟩
      · cases more with
        | nil => exact .inl List.nil_prefix
        | cons d more =>
            rw [Piece.texts_blanked_stray, replicate_utf8Size, List.cons_append] at hmore
            obtain ⟨rfl, -⟩ := List.cons_prefix_cons.1 hmore
            exact .inr ⟨[], more, c, rest, rfl, rfl, hc⟩

/-- The longest piece stays the longest when characters behind it become blank. -/
theorem munches_blanked (hp : p.Regular) (hps : Munched rest ps)
    (hmax : ∀ q : Piece, q.Regular → q.text <+: p.text ++ rest → q.text.length ≤ p.text.length) :
    Munches (p.text ++ Piece.texts (ps.flatMap Piece.blanked)) p
      (Piece.texts (ps.flatMap Piece.blanked)) := by
  refine .longest rfl hp fun q hq hprefix => ?_
  by_contra hlt
  rw [Nat.not_le] at hlt
  obtain ⟨more, hmore⟩ := List.prefix_of_prefix_length_le (List.prefix_append _ _) hprefix
    (Nat.le_of_lt hlt)
  have hbehind : more <+: Piece.texts (ps.flatMap Piece.blanked) :=
    (List.prefix_append_right_inj _).1 (hmore ▸ hprefix)
  rcases prefix_blanked hps hbehind with hcs | ⟨u, v, c, w, rfl, rfl, hc⟩
  · exact absurd (hmax q hq (hmore ▸ (List.prefix_append_right_inj _).2 hcs)) (Nat.not_le_of_lt hlt)
  · exact hq.not_over_space hp hc hmax hmore.symm

/-- Spaces are cut off one by one. -/
theorem munched_blanks (h : Munched cs ps) (n : Nat) :
    Munched (List.replicate n ' ' ++ cs) (List.replicate n Piece.blank ++ ps) := by
  induction n with
  | zero => exact h
  | succ n ih => exact .cons (munches_iff.2 ⟨rfl, rfl⟩) ih

/-- What stands in place of the pieces of a source are the pieces of what stands there then. -/
theorem munched_blanked (h : Munched cs ps) :
    Munched (Piece.texts (ps.flatMap Piece.blanked)) (ps.flatMap Piece.blanked) := by
  induction h with
  | nil => exact .nil
  | @cons cs rest p ps hp hps ih =>
      rw [List.flatMap_cons, Piece.texts_append]
      cases hp with
      | longest hcs hreg hmax =>
          rw [Piece.blanked_of_regular hreg, Piece.texts_singleton]
          exact .cons (munches_blanked hreg hps (hcs ▸ hmax)) ih
      | unclosed hcs hb =>
          -- Nothing is left behind an open string.
          cases hps with
          | nil =>
              change Munched (Piece.texts [(⟨cs, .unclosed⟩ : Piece)] ++ []) [⟨cs, .unclosed⟩]
              rw [Piece.texts_singleton, List.append_nil]
              exact .cons (.unclosed hcs hb) .nil
          | cons hp' => exact absurd hp'.append.symm (by simp [hp'.cuts.text_ne_nil])
      | stray hcs hc =>
          rw [Piece.texts_blanked_stray]
          exact munched_blanks ih _

/-! ### Places -/

/-- What stands in place of a piece has as many bytes. -/
theorem Munches.width_blanked (h : Munches cs p rest) :
    width (Piece.texts p.blanked) = width p.text := by
  rcases h.blanked_cases with ⟨hkept, -⟩ | ⟨c, rfl, -⟩
  · rw [hkept, Piece.texts_singleton]
  · rw [Piece.texts_blanked_stray, width, width, Nat.add_zero]
    induction c.utf8Size with
    | zero => rfl
    | succ n ih => rw [List.replicate_succ, width, ih, Nat.add_comm]; rfl

/-- What stands in place of a piece has as many line breaks. -/
theorem Munches.lineBreaks_blanked (h : Munches cs p rest) :
    lineBreaks (Piece.texts p.blanked) = lineBreaks p.text := by
  rcases h.blanked_cases with ⟨hkept, -⟩ | ⟨c, rfl, hc⟩
  · rw [hkept, Piece.texts_singleton]
  · have hne : '\n' ≠ c := by
      rintro rfl
      exact hc _ (.white (.inr (.inr (.inr rfl)))) rfl
    rw [Piece.texts_blanked_stray, lineBreaks, lineBreaks, List.count_eq_zero.2, List.count_eq_zero.2]
    · simpa using hne
    · simp [List.mem_replicate]

/-- What stands in place of pieces has as many bytes. -/
theorem Munched.width_blanked (h : Munched cs ps) :
    width (Piece.texts (ps.flatMap Piece.blanked)) = width cs := by
  induction h with
  | nil => rfl
  | cons hp _ ih =>
      rw [List.flatMap_cons, Piece.texts_append, width_append, ih, hp.width_blanked, hp.append,
        width_append]

/-- What stands in place of pieces has as many line breaks. -/
theorem Munched.lineBreaks_blanked (h : Munched cs ps) :
    lineBreaks (Piece.texts (ps.flatMap Piece.blanked)) = lineBreaks cs := by
  induction h with
  | nil => rfl
  | cons hp _ ih =>
      rw [List.flatMap_cons, Piece.texts_append, lineBreaks_append, ih, hp.lineBreaks_blanked,
        hp.append, lineBreaks_append]

/-- Whether an item is one character that can start no token. -/
def Item.isUnexpected : Item → Bool
  | .ok _ => false
  | .error e => e.isUnexpected

/-- What a piece amounts to depends on where the characters in front of it end. -/
theorem item?_congr {before before' : List Char} (hwidth : width before = width before')
    (hlines : lineBreaks before = lineBreaks before') (p : Piece) :
    Located.item? ⟨before', p⟩ = Located.item? ⟨before, p⟩ := by
  simp only [Located.item?, Located.line, Located.span, Located.after, width_append, hwidth, hlines]

/-- Spaces amount to nothing. -/
theorem items_blanks (before : List Char) (n : Nat) :
    (locate before (List.replicate n .blank)).filterMap Located.item? = [] := by
  induction n generalizing before with
  | zero => rfl
  | succ n ih => exact ih _

theorem isUnexpected_of_item? {l : Located} {i : Item} (h : ∀ c, l.piece.role ≠ .stray c)
    (hi : l.item? = some i) : i.isUnexpected = false := by
  rw [Located.item?, Piece.item?] at hi
  split at hi <;> rename_i hrole <;> cases hi
  · rfl
  · exact absurd hrole (h _)
  · rfl

/-- With blanks in their place, the characters that start no token are no items any more, and all
other items are as they were. -/
theorem items_blanked (h : Munched cs ps) {before before' : List Char}
    (hwidth : width before = width before') (hlines : lineBreaks before = lineBreaks before') :
    (locate before' (ps.flatMap Piece.blanked)).filterMap Located.item? =
      ((locate before ps).filterMap Located.item?).filter (!·.isUnexpected) := by
  induction h generalizing before before' with
  | nil => rfl
  | @cons cs rest p ps hp _ ih =>
      have hbehind := @ih (before ++ p.text) (before' ++ Piece.texts p.blanked)
        (by rw [width_append, width_append, hwidth, hp.width_blanked])
        (by rw [lineBreaks_append, lineBreaks_append, hlines, hp.lineBreaks_blanked])
      rw [List.flatMap_cons, locate_append, List.filterMap_append, hbehind, locate]
      rcases hp.blanked_cases with ⟨hkept, hrole⟩ | ⟨c, rfl, -⟩
      · rw [hkept, locate, locate, List.filterMap_cons, List.filterMap_cons,
          item?_congr hwidth hlines]
        cases hi : Located.item? ⟨before, p⟩ with
        | none => rfl
        | some i => simp [isUnexpected_of_item? hrole hi]
      · rw [show Piece.blanked ⟨[c], .stray c⟩ = List.replicate c.utf8Size .blank from rfl,
          items_blanks]
        rfl

/-! ### Bytes -/

/-- The bytes of characters. -/
abbrev bytes (cs : List Char) : List UInt8 := cs.flatMap String.utf8EncodeChar

theorem length_bytes (cs : List Char) : (bytes cs).length = width cs := by
  induction cs with
  | nil => rfl
  | cons c cs ih =>
      rw [bytes, List.flatMap_cons, List.length_append, ih, String.length_utf8EncodeChar, width]

theorem bytes_append (cs ds : List Char) : bytes (cs ++ ds) = bytes cs ++ bytes ds :=
  List.flatMap_append

/-- A space is one byte. -/
theorem bytes_spaces (n : Nat) : bytes (List.replicate n ' ') = List.replicate n 0x20 := by
  induction n with
  | zero => rfl
  | succ n ih => exact congrArg (0x20 :: ·) ih

/-- The bytes of what stands in place of pieces are theirs, but for spaces where there are characters
that start no token. -/
theorem bytes_blanked (h : Munched cs ps) {before : List Char} {stray : Nat → Bool}
    (hstray : ∀ l ∈ locate before ps, ∀ i, width l.before ≤ i → i < width l.after →
      (stray i ↔ ∃ c, l.piece.role = .stray c)) :
    bytes (Piece.texts (ps.flatMap Piece.blanked)) =
      (bytes cs).mapIdx fun i b => if stray (width before + i) then 0x20 else b := by
  induction h generalizing before with
  | nil => rfl
  | @cons cs rest p ps hp _ ih =>
      have hhead : ∀ i < width p.text, (stray (width before + i) ↔ ∃ c, p.role = .stray c) := by
        intro i hi
        refine hstray _ List.mem_cons_self _ (Nat.le_add_right _ _) ?_
        rw [Located.after, width_append]
        exact Nat.add_lt_add_left hi _
      have hrest := ih fun l hl => hstray l (List.mem_cons_of_mem _ hl)
      rw [List.flatMap_cons, Piece.texts_append, bytes_append, hrest, hp.append, bytes_append,
        List.mapIdx_append, length_bytes, width_append]
      congr 1
      · refine List.ext_getElem ?_ fun i hi hi' => ?_
        · rw [List.length_mapIdx, length_bytes, length_bytes, hp.width_blanked]
        · rw [List.length_mapIdx, length_bytes] at hi'
          rw [List.getElem_mapIdx]
          rcases hp.blanked_cases with ⟨hkept, hrole⟩ | ⟨c, rfl, -⟩
          · rw [if_neg fun hb => ?_]
            · simp only [hkept, Piece.texts_singleton]
            · obtain ⟨c, hc⟩ := (hhead i hi').1 hb
              exact hrole c hc
          · rw [if_pos ((hhead i hi').2 ⟨c, rfl⟩)]
            simp only [Piece.texts_blanked_stray, bytes_spaces, List.getElem_replicate]
      · simp only [Nat.add_assoc, Nat.add_comm (width p.text)]

end

end Token

/-! ### Blanking a text -/

/-- Whether the byte at an index is one of a character that can start no token. -/
def Token.Scan.strayAt (scan : Scan) (i : Nat) : Bool :=
  scan.errors.any fun e => e.isUnexpected && decide (e.span.start.toNat ≤ i) &&
    decide (i < e.span.stop.toNat)

/-- The bytes of the scanned text, with a space for each one of a character that can start no
token. -/
def Token.Scan.blanked (scan : Scan) (bytes : List UInt8) : List UInt8 :=
  bytes.mapIdx fun i b => if scan.strayAt i then UInt8.ofNat ' '.toNat else b

namespace Token

variable {s : String} {l : Located} {i : Nat}

/-- Where a piece lies, no other one does. -/
theorem eq_of_mem_located (hl : l ∈ located s) {l' : Located} (hl' : l' ∈ located s)
    (h : width l.before ≤ i ∧ i < width l.after) (h' : width l'.before ≤ i ∧ i < width l'.after) :
    l = l' := by
  by_contra hne
  rcases prefix_or_prefix hl hl' hne with hbefore | hbefore
  all_goals have := width_mono hbefore; omega

/-- The bytes of a piece are to become spaces if it is a character that starts no token. -/
theorem strayAt_iff (hs : s.utf8ByteSize < 2 ^ 32) (hl : l ∈ located s)
    (hfrom : width l.before ≤ i) (hto : i < width l.after) :
    (Scan.ofString s).strayAt i ↔ ∃ c, l.piece.role = .stray c := by
  simp only [Scan.strayAt, List.any_eq_true, Bool.and_eq_true, decide_eq_true_eq]
  constructor
  · rintro ⟨e, he, ⟨hunexpected, hstart⟩, hstop⟩
    obtain ⟨l', hl', hi⟩ := mem_items.1 (mem_errors.1 he)
    have hspan : e.span = l'.span := span_of_item? hi
    rw [hspan, toNat_start hs hl'] at hstart
    rw [hspan, toNat_stop hs hl'] at hstop
    obtain rfl := eq_of_mem_located hl hl' ⟨hfrom, hto⟩ ⟨hstart, hstop⟩
    by_contra hno
    have hkept : e.isUnexpected = false := isUnexpected_of_item? (not_exists.1 hno) hi
    rw [hunexpected] at hkept
    cases hkept
  · rintro ⟨c, hc⟩
    refine ⟨⟨.unexpectedCharacter c, l.line, l.span⟩, mem_errors.2 (mem_items.2 ⟨l, hl, ?_⟩),
      ⟨rfl, ?_⟩, ?_⟩
    · rw [Located.item?, Piece.item?, hc]
    · rwa [toNat_start hs hl]
    · rwa [toNat_stop hs hl]

theorem errors_eq_filter {scan scan' : Scan}
    (h : scan'.items = scan.items.filter (!·.isUnexpected)) :
    scan'.errors = scan.errors.filter (!·.isUnexpected) := by
  rw [Scan.errors, Scan.errors, h, List.filterMap_filter, List.filter_filterMap]
  congr 1
  funext i
  cases i <;> rfl

theorem tokens_eq {scan scan' : Scan} (h : scan'.items = scan.items.filter (!·.isUnexpected))
    (hlast : scan'.last = scan.last) : scan'.tokens = scan.tokens := by
  rw [Scan.tokens, Scan.tokens, h, hlast, List.filterMap_filter]
  congr 2
  funext i
  cases i with
  | ok t => rfl
  | error e => simp [Item.isUnexpected, Except.toOption]

/-- **Blanking.**  Where a text that is shorter than 2^32 bytes has characters that can start no
token, it may as well have spaces, one for each of their bytes: such a text has the same tokens and
the same other errors. -/
theorem scan_blanked (s : String) (hs : s.utf8ByteSize < 2 ^ 32) :
    ∃ s' : String, s'.toUTF8.data.toList = (Scan.ofString s).blanked s.toUTF8.data.toList ∧
      (Scan.ofString s').tokens = (Scan.ofString s).tokens ∧
      (Scan.ofString s').errors = (Scan.ofString s).errors.filter (!·.isUnexpected) ∧
      ∀ e ∈ (Scan.ofString s').errors, ∀ c, e.cause ≠ .unexpectedCharacter c := by
  have hmunched := munched_pieces s.toList
  let ps := (pieces s.toList).flatMap Piece.blanked
  have hchars : (String.ofList (Piece.texts ps)).toList = Piece.texts ps := String.toList_ofList
  have hpieces : pieces (Piece.texts ps) = ps := (munched_iff.1 (munched_blanked hmunched)).symm
  have hwidth : width (Piece.texts ps) = width s.toList := hmunched.width_blanked
  have hlines : lineBreaks (Piece.texts ps) = lineBreaks s.toList := hmunched.lineBreaks_blanked
  have hitems : (Scan.ofString (.ofList (Piece.texts ps))).items =
      (Scan.ofString s).items.filter (!·.isUnexpected) := by
    rw [scan_ofString, scan_ofString, located, located, hchars, hpieces]
    exact items_blanked hmunched rfl rfl
  have herrors := errors_eq_filter hitems
  refine ⟨.ofList (Piece.texts ps), ?_, tokens_eq hitems ?_, herrors, fun e he c hc => ?_⟩
  · rw [Text.Utf8.toList_toUTF8, Text.Utf8.toList_toUTF8, hchars]
    have hbytes := bytes_blanked hmunched fun l (hl : l ∈ located s) i => strayAt_iff hs hl
    simp only [width, Nat.zero_add] at hbytes
    exact hbytes
  · rw [scan_ofString, scan_ofString, hchars, hwidth, hlines]
  · rw [herrors, List.mem_filter, LexicalError.isUnexpected, hc] at he
    cases he.2

/-- Blanks keep a bang apart from an equals sign, and a number apart from its digits behind the point;
in a comment and in a string nothing is replaced. -/
theorem scan_blanked_euro : "!€= 1.€5 // €\n\"€".utf8ByteSize < 2 ^ 32 ∧
    ∃ s' : String, s'.toUTF8.data.toList = (Scan.ofString "!€= 1.€5 // €\n\"€").blanked
        "!€= 1.€5 // €\n\"€".toUTF8.data.toList ∧
      (Scan.ofString s').tokens = (Scan.ofString "!€= 1.€5 // €\n\"€").tokens ∧
      (Scan.ofString s').errors =
        (Scan.ofString "!€= 1.€5 // €\n\"€").errors.filter (!·.isUnexpected) ∧
      ∀ e ∈ (Scan.ofString s').errors, ∀ c, e.cause ≠ .unexpectedCharacter c :=
  have h : "!€= 1.€5 // €\n\"€".utf8ByteSize < 2 ^ 32 := by decide
  ⟨h, scan_blanked _ h⟩

end Token

end Lox
