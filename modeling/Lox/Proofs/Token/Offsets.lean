import Lox.Proofs.Token.LongestMatch
import Mathlib.Data.List.Forall2

/-!
# Proofs — Token — Sources with offsets of their own

**Offsets** (`scan_placed`).  What a source is scanned to depends on its characters alone, and where
that lies on their offsets alone.  Whatever the offsets are, the items are those of the text that
the characters make, one by one and on the same lines; and an item that is found between some
characters and others lies between the offsets that stand there: in front of a character its own
one, and behind all of them that of the last one and its bytes.
-/

namespace Lox.Token

/-- An offset stands in front of the character with an index, or behind all characters. -/
inductive Source.Stands (src : Source) : Nat → Offset → Prop where
  | front {i : Nat} {o : Offset} {c : Char} (h : src[i]? = some (o, c)) : Stands src i o
  | behind {o stop : Offset} {c : Char} (h : src.getLast? = some (o, c))
      (hstop : stop.toNat = o.toNat + c.utf8Size) : Stands src src.length stop
  | empty (h : src = []) : Stands src 0 0

/-- An item with other bytes. -/
def Item.withSpan (span : Span) : Item → Item
  | .ok t => .ok { t with span }
  | .error e => .error { e with span }

/-- An item is found in the text of a source, and lies in the source where another one does that is
the same otherwise. -/
def Source.Places (src : Source) (i j : Item) : Prop :=
  ∃ (before behind : List Char) (span : Span), Finds src.chars before i behind ∧
    j = i.withSpan span ∧ src.Stands before.length span.start ∧
    src.Stands (src.length - behind.length) span.stop

/-- A scan that has the items of the text of a source, where their characters are in the source. -/
structure Scan.Placed (scan : Scan) (src : Source) : Prop where
  items : List.Forall₂ src.Places (Scan.ofString (.ofList src.chars)).items scan.items
  last : ∃ stop, src.Stands src.length stop ∧
    scan.last = { (Scan.ofString (.ofList src.chars)).last with span := .point stop }

variable {src : Source}

/-- A source whose last character ends below 2^32 stops behind it. -/
theorem Source.stands_stop
    (h : ∀ o c, src.getLast? = some (o, c) → o.toNat + c.utf8Size < 2 ^ 32) :
    src.Stands src.length src.stop := by
  rw [stop]
  cases hlast : src.getLast? with
  | none =>
      obtain rfl := List.getLast?_eq_none_iff.1 hlast
      exact .empty rfl
  | some last =>
      obtain ⟨o, c⟩ := last
      have hsum := h o c hlast
      have hsize : c.utf8Size.toUInt32.toNat = c.utf8Size :=
        toNat_toUInt32 (Nat.lt_of_le_of_lt (Nat.le_add_left _ _) hsum)
      refine .behind hlast ?_
      rw [UInt32.toNat_add, hsize, Nat.mod_eq_of_lt hsum]

theorem Source.stands_offset
    (h : ∀ o c, src.getLast? = some (o, c) → o.toNat + c.utf8Size < 2 ^ 32) {i : Nat}
    (hi : i ≤ src.length) : src.Stands i (src.offset i) := by
  rcases Nat.lt_or_eq_of_le hi with hlt | rfl
  · refine .front (c := src[i].2) ?_
    rw [offset, List.drop_eq_getElem_cons hlt, List.getElem?_eq_getElem hlt]
    rfl
  · rw [offset, List.drop_length]
    exact stands_stop h

/-- What a piece amounts to differs in its bytes, where these differ. -/
theorem Piece.item?_withSpan (p : Piece) (line : Nat) (span span' : Span) :
    p.item? line span' = (p.item? line span).map (Item.withSpan span') := by
  rw [item?, item?]
  cases p.role <;> rfl

/-- A located piece amounts to the same item in the text and in the source. -/
theorem places_itemIn? (h : ∀ o c, src.getLast? = some (o, c) → o.toNat + c.utf8Size < 2 ^ 32)
    {l : Located} (hl : l ∈ locate [] (pieces src.chars)) :
    Option.Rel src.Places l.item? (l.itemIn? src) := by
  obtain ⟨rest, behind, hcomes, hp⟩ := (mem_locate_iff (munched_pieces src.chars)).1 hl
  have hlength : src.length = l.after.length + behind.length := by
    have := congrArg List.length hcomes.append
    rw [hp.append, ← List.append_assoc, List.length_append, Source.chars, List.length_map] at this
    exact this
  have hbefore : l.before.length ≤ src.length := by
    rw [hlength, Located.after, List.length_append]
    omega
  have hafter : src.length - behind.length = l.after.length := by
    rw [hlength, Nat.add_sub_cancel]
  rw [Located.itemIn?, Piece.item?_withSpan l.piece l.line l.span, ← Located.item?]
  cases hi : l.item? with
  | none => exact .none
  | some i =>
      refine .some ⟨l.before, behind, _, ⟨l.piece, rest, hcomes, hp, hi⟩, rfl, ?_, ?_⟩
      · exact Source.stands_offset h hbefore
      · rw [hafter]
        exact Source.stands_offset h (by omega)

/-- **Offsets.**  A source is scanned as the text of its characters, each item lying between the
offsets of the characters that it is found between. -/
theorem scan_placed (src : Source)
    (h : ∀ o c, src.getLast? = some (o, c) → o.toNat + c.utf8Size < 2 ^ 32) :
    (Scan.ofSource src).Placed src := by
  have hchars : (String.ofList src.chars).toList = src.chars := String.toList_ofList
  refine ⟨?_, src.offset src.length, Source.stands_offset h le_rfl, ?_⟩
  · rw [scan_ofSource, scan_ofString, located, hchars]
    have hsame : List.Forall₂ (fun l l' => l = l' ∧ l ∈ locate [] (pieces src.chars))
        (locate [] (pieces src.chars)) (locate [] (pieces src.chars)) :=
      List.forall₂_same.2 fun l hl => ⟨rfl, hl⟩
    refine List.rel_filterMap (fun l l' hll' => ?_) hsame
    obtain ⟨rfl, hl⟩ := hll'
    exact places_itemIn? h hl
  · rw [scan_ofSource, scan_ofString, hchars]
    rfl

/-- Offsets with gaps, and out of order. -/
def unevenSource : Source := [(7, '"'), (9, '\n'), (3, '"'), (40, 'é'), (20, '1'), (21, '.')]

theorem scan_placed_uneven :
    (∀ o c, unevenSource.getLast? = some (o, c) → o.toNat + c.utf8Size < 2 ^ 32) ∧
      (Scan.ofSource unevenSource).Placed unevenSource ∧
      (Scan.ofSource unevenSource).drain.map Item.span =
        [⟨7, 40⟩, ⟨40, 20⟩, ⟨20, 21⟩, ⟨21, 22⟩, ⟨22, 22⟩] := by
  have h : ∀ o c, unevenSource.getLast? = some (o, c) → o.toNat + c.utf8Size < 2 ^ 32 := by
    rintro o c ⟨⟩
    decide
  exact ⟨h, scan_placed _ h, by decide +kernel⟩

end Lox.Token
