import Lox.Proofs.Token.Pieces
import Mathlib.Algebra.Group.Nat.Defs
import Mathlib.Data.List.Basic

/-!
# Proofs — Token — The places of a source

A scan, without its recursion: the items of a source are those of its located pieces, one by one
(`scan_ofSource`).  A piece lies on the line that the line breaks in front of it make, and between
the offset of its first character and that of the first one behind it (`Source.offset`).  In a text,
these are the numbers of bytes in front (`scan_ofString`).

The equations hold for texts of every size.  Where a text is shorter than 2^32 bytes, no offset
wraps (`toNat_start`, `toNat_stop`).
-/

namespace Lox.Token

/-! ### Bytes -/

/-- The number of bytes of a text. -/
def width : List Char → Nat
  | [] => 0
  | c :: cs => c.utf8Size + width cs

@[simp] theorem width_append (cs ds : List Char) : width (cs ++ ds) = width cs + width ds := by
  induction cs with
  | nil => simp [width]
  | cons c cs ih => rw [List.cons_append, width, width, ih, Nat.add_assoc]

theorem utf8ByteSize_ofList (cs : List Char) : (String.ofList cs).utf8ByteSize = width cs := by
  induction cs with
  | nil => rfl
  | cons c cs ih =>
      have hcons : String.ofList (c :: cs) = String.singleton c ++ String.ofList cs := by
        rw [← String.toList_inj]
        simp
      rw [hcons, String.utf8ByteSize_append, String.utf8ByteSize_singleton, ih, width]

theorem width_toList (s : String) : width s.toList = s.utf8ByteSize := by
  rw [← utf8ByteSize_ofList, String.ofList_toList]

theorem width_mono {cs ds : List Char} (h : cs <+: ds) : width cs ≤ width ds := by
  obtain ⟨es, rfl⟩ := h
  rw [width_append]
  exact Nat.le_add_right _ _

theorem width_pos {cs : List Char} (h : cs ≠ []) : 0 < width cs := by
  cases cs with
  | nil => exact absurd rfl h
  | cons c cs => exact Nat.lt_of_lt_of_le c.utf8Size_pos (Nat.le_add_right _ _)

/-! ### Sources -/

namespace Source

theorem chars_ofChars (offset : Nat) (cs : List Char) : (ofChars offset cs).chars = cs := by
  induction cs generalizing offset with
  | nil => rfl
  | cons c cs ih => exact congrArg (c :: ·) (ih _)

/-- What is left behind some characters stands at the offset that they make. -/
theorem drop_ofChars (offset : Nat) (cs rest : List Char) :
    (ofChars offset (cs ++ rest)).drop cs.length = ofChars (offset + width cs) rest := by
  induction cs generalizing offset with
  | nil => rfl
  | cons c cs ih =>
      rw [List.cons_append, ofChars, List.length_cons, List.drop_succ_cons, ih, width,
        Nat.add_assoc]

/-- What is left of a source starts where the characters in front of it end. -/
theorem front_ofChars (before cs : List Char) :
    front (ofChars (width before) cs) (width (before ++ cs)).toUInt32 =
      (width before).toUInt32 := by
  cases cs with
  | nil => rw [List.append_nil]; rfl
  | cons c cs => rfl

theorem stop_ofChars (offset : Nat) (c : Char) (cs : List Char) :
    stop (ofChars offset (c :: cs)) = (offset + width (c :: cs)).toUInt32 := by
  induction cs generalizing offset c with
  | nil => simp [ofChars, stop, width]
  | cons d cs ih =>
      have := ih (offset + c.utf8Size) d
      rw [width, ← Nat.add_assoc, ← this]
      rfl

/-- A source stops where all its characters end. -/
theorem stop_ofString (s : String) : stop (ofString s) = (width s.toList).toUInt32 := by
  rw [ofString]
  cases h : s.toList with
  | nil => rfl
  | cons c cs => rw [stop_ofChars, Nat.zero_add]

/-- The offset in front of the character with an index; behind the last one, where the source
stops. -/
def offset (src : Source) (i : Nat) : Offset := front (src.drop i) src.stop

/-- With natural offsets, the bytes in front of a place are its offset. -/
theorem offset_ofString {s : String} {before behind : List Char} (h : s.toList = before ++ behind) :
    (ofString s).offset before.length = (width before).toUInt32 := by
  have hdrop := drop_ofChars 0 before behind
  rw [Nat.zero_add] at hdrop
  rw [offset, stop_ofString, ofString, h, hdrop, front_ofChars]

end Source

/-! ### Located pieces -/

namespace Located

/-- The bytes that a located piece covers. -/
def span (l : Located) : Span := ⟨(width l.before).toUInt32, (width l.after).toUInt32⟩

/-- The line that a located piece starts on. -/
def line (l : Located) : Nat := 1 + lineBreaks l.before

/-- What a located piece amounts to, if it is not skipped. -/
def item? (l : Located) : Option Item := l.piece.item? l.line l.span

/-- What a located piece amounts to in a source. -/
def itemIn? (src : Source) (l : Located) : Option Item :=
  l.piece.item? l.line ⟨src.offset l.before.length, src.offset l.after.length⟩

end Located

theorem lineBreaks_append (cs ds : List Char) :
    lineBreaks (cs ++ ds) = lineBreaks cs + lineBreaks ds :=
  List.count_append

/-- Pieces are placed one by one, by the characters in front of them. -/
theorem place_eq (src : Source) (before : List Char) (ps : List Piece) :
    Scan.place src.stop (1 + lineBreaks before) (src.drop before.length) ps =
      ⟨(locate before ps).filterMap (Located.itemIn? src),
        .eof (1 + lineBreaks (before ++ ps.flatMap Piece.text))
          (src.offset (before ++ ps.flatMap Piece.text).length)⟩ := by
  induction ps generalizing before with
  | nil => simp [Scan.place, locate, Source.offset]
  | cons p ps ih =>
      have hdrop : (src.drop before.length).drop p.text.length =
          src.drop (before ++ p.text).length := by
        rw [List.drop_drop, List.length_append]
      rw [Scan.place, hdrop, Nat.add_assoc, ← lineBreaks_append, ih, locate, List.filterMap_cons,
        List.flatMap_cons, ← List.append_assoc]
      have hitem : p.item? (1 + lineBreaks before)
          ⟨src.offset before.length, src.offset (before ++ p.text).length⟩ =
            Located.itemIn? src ⟨before, p⟩ := rfl
      rw [← Source.offset, ← Source.offset, hitem]
      cases Located.itemIn? src ⟨before, p⟩ <;> rfl

/-- The scan of a source. -/
theorem scan_ofSource (src : Source) :
    Scan.ofSource src = ⟨(locate [] (pieces src.chars)).filterMap (Located.itemIn? src),
      .eof (1 + lineBreaks src.chars) (src.offset src.length)⟩ := by
  have h := place_eq src [] (pieces src.chars)
  rw [(pieced_pieces src.chars).flatMap_text, List.nil_append, Source.chars, List.length_map] at h
  exact h

/-- The pieces of a text where they lie. -/
def located (s : String) : List Located := locate [] (pieces s.toList)

/-- A piece of a text is a stretch of it. -/
theorem prefix_of_mem_located {s : String} {l : Located} (hl : l ∈ located s) :
    l.after <+: s.toList := by
  obtain ⟨behind, hbehind, -⟩ := mem_locate (pieced_pieces s.toList) hl
  exact ⟨behind, hbehind.symm⟩

/-- With natural offsets, a piece lies between the bytes in front of it and those behind it. -/
theorem itemIn?_ofString {s : String} {l : Located} (hl : l ∈ located s) :
    l.itemIn? (.ofString s) = l.item? := by
  obtain ⟨behind, hbehind⟩ := prefix_of_mem_located hl
  have hbefore : s.toList = l.before ++ (l.piece.text ++ behind) := by
    rw [← List.append_assoc]
    exact hbehind.symm
  rw [Located.itemIn?, Source.offset_ofString hbefore, Source.offset_ofString hbehind.symm,
    Located.item?, Located.span]

/-- The scan of a text. -/
theorem scan_ofString (s : String) :
    Scan.ofString s = ⟨(located s).filterMap Located.item?,
      .eof (1 + lineBreaks s.toList) (width s.toList).toUInt32⟩ := by
  have hchars : (Source.ofString s).chars = s.toList := Source.chars_ofChars 0 s.toList
  have hlength : (Source.ofString s).length = s.toList.length := by
    rw [← hchars, Source.chars, List.length_map]
  rw [Scan.ofString, scan_ofSource, hchars, hlength,
    Source.offset_ofString (List.append_nil s.toList).symm, ← located,
    List.filterMap_congr fun l hl => itemIn?_ofString hl]

/-! ### Texts shorter than 2^32 bytes -/

section

variable {s : String} {l : Located}

theorem toNat_toUInt32 {n : Nat} (h : n < 2 ^ 32) : n.toUInt32.toNat = n :=
  UInt32.toNat_ofNat_of_lt' h

theorem toNat_stop (hs : s.utf8ByteSize < 2 ^ 32) (hl : l ∈ located s) :
    l.span.stop.toNat = width l.after := by
  have := width_mono (prefix_of_mem_located hl)
  rw [width_toList] at this
  exact toNat_toUInt32 (Nat.lt_of_le_of_lt this hs)

theorem toNat_start (hs : s.utf8ByteSize < 2 ^ 32) (hl : l ∈ located s) :
    l.span.start.toNat = width l.before := by
  have := width_mono ((List.prefix_append _ _).trans (prefix_of_mem_located hl))
  rw [width_toList] at this
  exact toNat_toUInt32 (Nat.lt_of_le_of_lt this hs)

end

end Lox.Token
