import Mathlib
import Lox.Proofs.Number.Numeral
import Lox.Proofs.Token.Spacing
import Lox.Tree.Form

/-!
# Proofs — Number — Printed doubles are scanned back

A double is written in a tree by one part of the program and scanned by another.  What they share is
a kind of numeral: digits, and perhaps a point with digits behind it (`Numeral.IsLexeme`).  Without
a sign, a double is written as such a numeral, and every such numeral is a lexeme.

**Scanned back** (`scan_form`).  So the text is one piece, and one token.  The value of the token is
the double nearest to the numeral (`Numeral.IsLexeme.ofNumeral_text`).  The numeral denotes the
shortest decimal of the double that was written, and no other double is nearest to that.
-/

namespace Lox

namespace Number

variable {x : Float} {n : Numeral}

/-- A double without a sign is its word. -/
theorem ofBits_unsignedWord (h : negative x = false) :
    Float.ofBits (unsignedWord x).toUInt64 = x := by
  have hword : x.toBits.toNat = unsignedWord x := by
    rw [toNat_toBits, h]
    exact Nat.zero_add _
  rw [← hword, Nat.toUInt64_eq, UInt64.ofNat_toNat, Float.ofBits_toBits]

/-! ### Numerals that are lexemes -/

/-- Whether a numeral has neither a sign nor an exponent. -/
structure Numeral.IsLexeme (n : Numeral) : Prop where
  sign : n.whole.sign? = none
  exponent : n.exponent? = none

theorem Digits.isDigits (ds : Digits) : Token.IsDigits ds.chars := ⟨ds.ne_nil, ds.isDigit⟩

theorem Numeral.IsLexeme.text_eq (h : n.IsLexeme) :
    n.text = n.whole.digits.chars ++ marked '.' Digits.chars n.fraction? := by
  rw [Numeral.text, Signed.text, h.sign, h.exponent]
  exact congrArg _ (List.append_nil _)

/-- Such a numeral is a number. -/
theorem Numeral.IsLexeme.lexeme (h : n.IsLexeme) : Token.Kind.Lexeme .number n.text := by
  rw [h.text_eq]
  cases n.fraction? with
  | none =>
      rw [marked, List.append_nil]
      exact .whole n.whole.digits.isDigits
  | some fs => exact .fraction n.whole.digits.isDigits fs.isDigits

/-- The value of such a numeral is the double nearest to it. -/
theorem Numeral.IsLexeme.ofNumeral_text (h : n.IsLexeme) : ofNumeral n.text =
    nearest (ofDigits (n.whole.digits.chars ++ n.fraction)) (Nat.pow 10 n.fraction.length) := by
  have hpoint : ∀ c ∈ n.whole.digits.chars, decide (c ≠ '.') = true := by
    intro c hc
    refine decide_eq_true ?_
    rintro rfl
    cases n.whole.digits.isDigit _ hc
  have hmarked : (marked '.' Digits.chars n.fraction?).takeWhile (· ≠ '.') = [] ∧
      ((marked '.' Digits.chars n.fraction?).dropWhile (· ≠ '.')).drop 1 = n.fraction := by
    rw [Numeral.fraction]
    cases n.fraction? <;> exact ⟨rfl, rfl⟩
  rw [ofNumeral, h.text_eq, List.takeWhile_append_of_pos hpoint, List.dropWhile_append_of_pos hpoint]
  rw [hmarked.1, hmarked.2, List.append_nil]

/-! ### Doubles without a sign -/

/-- Without a sign, the numeral in a tree is a lexeme. -/
theorem isLexeme_numeral (h : x.isFinite) (hsign : negative x = false) :
    (Layout.plain.numeral x).IsLexeme where
  sign := by simp [sign?_numeral, Layout.sign?, hsign]
  exponent := (exponent?_numeral .plain h).trans (if_pos rfl)

/-- The digits that are left out are zeros, and their number is made up for by the denominator. -/
theorem word_fraction (sign? : Option Sign) (pointZero : Bool) (d : Nat) :
    let n := Numeral.positional sign? pointZero d
    word (ofDigits (n.whole.digits.chars ++ n.fraction)) (Nat.pow 10 n.fraction.length) =
      word d decimalUnit := by
  intro n
  obtain ⟨k, hlength, hd⟩ := exists_zeros pointZero d
  have hfraction : n.fraction = fractionDigits pointZero d :=
    Digits.elim_ofList? fun _ => isDigit_of_mem_fractionDigits
  have hunit : decimalUnit = Nat.pow 10 (fractionDigits pointZero d).length * 10 ^ k := by
    unfold decimalUnit
    generalize 1074 = m at hlength ⊢
    rw [← hlength]
    exact Nat.pow_add 10 _ _
  rw [hfraction]
  calc word _ (Nat.pow 10 (fractionDigits pointZero d).length)
    _ = word _ (Nat.pow 10 (fractionDigits pointZero d).length * 10 ^ k) :=
      (word_mul_right _ _ (Nat.pow_pos (by decide))).symm
    _ = word d decimalUnit := by rw [hunit]; exact congrArg (word · _) hd

/-- A double without a sign is the value of its numeral in a tree. -/
theorem ofNumeral_text (h : x.isFinite) (hsign : negative x = false) :
    ofNumeral (Layout.plain.text x).toList = x := by
  have hnumeral : Layout.plain.numeral x = .positional (Layout.plain.sign? x) false (shortest x) :=
    dif_pos (.inl rfl)
  rw [toList_text .plain h, (isLexeme_numeral h hsign).ofNumeral_text, nearest, hnumeral,
    word_fraction, word_shortest h, ofBits_unsignedWord hsign]

end Number

namespace Token

variable {k : Kind} {text : List Char} {s : String}

/-! ### Scanning a lexeme -/

/-- A lexeme is one piece. -/
theorem Kind.Lexeme.pieces (h : k.Lexeme text) : pieces text = [⟨text, .token k⟩] := by
  have hmunches : Munches (text ++ []) ⟨text, .token k⟩ [] := munches_lexeme h (by simp)
  rw [List.append_nil] at hmunches
  exact (munched_iff.1 (.cons hmunches .nil)).symm

/-- Only strings have line breaks in them. -/
theorem Kind.Lexeme.lineBreaks_eq_zero (h : k.Lexeme text) (hk : k ≠ .string) :
    lineBreaks text = 0 := by
  have hsymbols : ∀ p ∈ Kind.symbols, '\n' ∉ p.2 := by decide
  refine List.count_eq_zero.2 ?_
  rcases h.inWord_or_symbol hk with hword | hsymbol
  · exact fun hmem => absurd (hword _ hmem) (by simp [InWord])
  · exact hsymbols _ hsymbol

/-- A text that is a lexeme is scanned as one token. -/
theorem Kind.Lexeme.scan (h : k.Lexeme s.toList) : Scan.ofString s =
    ⟨[.ok ⟨k, s, Piece.literal? k s.toList, 1, ⟨0, s.utf8ByteSize.toUInt32⟩⟩],
      .eof (1 + lineBreaks s.toList) s.utf8ByteSize.toUInt32⟩ := by
  have hlocated : located s = [⟨[], ⟨s.toList, .token k⟩⟩] := by
    rw [located, h.pieces]
    rfl
  rw [scan_ofString, hlocated, width_toList]
  simp [Located.item?, Piece.item?, Located.line, Located.span, Located.after, width_toList, width,
    lineBreaks]

/-! ### Scanning a printed double -/

/-- **Scanned back.**  The text of a finite double without a sign, as a literal of a printed tree, is
scanned as one number, whose value is that very double, and as nothing else. -/
theorem scan_form {x : Float} (h : x.isFinite) (hsign : Number.negative x = false) :
    let text := (Expr.literal (.number x)).form
    (Scan.ofString text).errors = [] ∧
      (Scan.ofString text).tokens =
        [⟨.number, text, some (.number x), 1, ⟨0, text.utf8ByteSize.toUInt32⟩⟩,
          .eof 1 text.utf8ByteSize.toUInt32] := by
  intro text
  have htext : text = Number.Layout.plain.text x := rfl
  have hlexeme : Kind.Lexeme .number text.toList := by
    rw [htext, Number.toList_text .plain h]
    exact (Number.isLexeme_numeral h hsign).lexeme
  have hvalue : Piece.literal? .number text.toList = some (.number x) :=
    congrArg (fun y => some (Value.number y)) (Number.ofNumeral_text h hsign)
  rw [hlexeme.scan, hvalue, hlexeme.lineBreaks_eq_zero Kind.noConfusion]
  exact ⟨rfl, rfl⟩

/-- A power of ten that is no double: the double nearest to it is written as it, and read as itself. -/
theorem scan_form_long : (1e23 : Float).isFinite ∧ Number.negative 1e23 = false ∧
    (Expr.literal (.number 1e23)).form = "100000000000000000000000" ∧
    (Scan.ofString "100000000000000000000000").tokens =
      [⟨.number, "100000000000000000000000", some (.number 1e23), 1, ⟨0, 24⟩⟩, .eof 1 24] := by
  have hfinite : (1e23 : Float).isFinite := by decide +kernel
  have hsign : Number.negative 1e23 = false := by decide +kernel
  have hform : (Expr.literal (.number 1e23)).form = "100000000000000000000000" := by
    decide +kernel
  have htokens := (scan_form hfinite hsign).2
  rw [hform] at htokens
  exact ⟨hfinite, hsign, hform, htokens⟩

end Token

end Lox
