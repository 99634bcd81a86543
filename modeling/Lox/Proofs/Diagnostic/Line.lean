import Lox.Diagnostic.Snippet
import Lox.Proofs.Token.Places

/-!
# Proofs — Diagnostic — The line of an offset

A snippet finds the line of an offset among the lines of its source, by where they start; a scan
counts line breaks.  Both come to the same line wherever the offset lies between two characters, and
however the line is found: it is the last one that starts in front of the offset, or at it
(`Line.Finds.eq_lineBreaks`).
-/

namespace Lox

open Token (width lineBreaks width_append width_pos width_toList lineBreaks_append)

namespace Line

theorem bytes_eq_width (cs : List Char) : bytes cs = width cs := by
  induction cs with
  | nil => rfl
  | cons c cs ih => rw [bytes, width, ih]

theorem bytes_reverse (cs : List Char) : bytes cs.reverse = bytes cs := by
  induction cs with
  | nil => rfl
  | cons c cs ih =>
      rw [bytes_eq_width] at ih ⊢
      rw [List.reverse_cons, width_append, ih, bytes, width, width, Nat.add_zero, Nat.add_comm]

variable {start : Nat} {front cs : List Char} {c : Char}

theorem split_break : split start front ('\n' :: cs) =
    ⟨start, ('\n' :: front).reverse⟩ :: split (start + bytes ('\n' :: front)) [] cs := by
  rw [split, bytes_reverse]

theorem split_of_ne (h : c ≠ '\n') : split start front (c :: cs) = split start (c :: front) cs := by
  rw [split]
  exact h

/-- The first line starts where it is told to, and all others behind what is in front of the rest. -/
theorem split_cases (start : Nat) (front cs : List Char) :
    ∃ line lines, split start front cs = line :: lines ∧ line.start = start ∧
      ∀ l ∈ lines, start + bytes front < l.start := by
  induction cs generalizing start front with
  | nil => exact ⟨_, [], rfl, rfl, by simp⟩
  | cons c cs ih =>
      by_cases hc : c = '\n'
      · subst hc
        have hlt : start + bytes front < start + bytes ('\n' :: front) :=
          Nat.add_lt_add_left (Nat.lt_add_of_pos_left (Char.utf8Size_pos _)) _
        obtain ⟨line, lines, hsplit, hline, hlines⟩ := ih (start + bytes ('\n' :: front)) []
        refine ⟨_, _, split_break, rfl, fun l hl => ?_⟩
        rw [hsplit] at hl
        rcases List.mem_cons.1 hl with rfl | hl
        · rwa [hline]
        · exact Nat.lt_trans hlt (hlines l hl)
      · obtain ⟨line, lines, hsplit, hline, hlines⟩ := ih start (c :: front)
        refine ⟨line, lines, (split_of_ne hc).trans hsplit, hline, fun l hl => ?_⟩
        exact Nat.lt_of_le_of_lt (Nat.add_le_add_left (Nat.le_add_left _ _) _) (hlines l hl)

/-- As many lines start up to an offset as there are line breaks in front of it, and one more. -/
theorem length_takeWhile_split (start : Nat) (front before behind : List Char) :
    ((split start front (before ++ behind)).takeWhile
      (·.start ≤ start + bytes front + width before)).length = 1 + lineBreaks before := by
  induction before generalizing start front with
  | nil =>
      obtain ⟨line, lines, hsplit, rfl, hlines⟩ := split_cases start front behind
      have hnone : lines.takeWhile (·.start ≤ line.start + bytes front) = [] := by
        cases lines with
        | nil => rfl
        | cons l lines =>
            exact List.takeWhile_cons_of_neg (by simpa using hlines l List.mem_cons_self)
      rw [List.nil_append, hsplit, width, Nat.add_zero, List.takeWhile_cons_of_pos (by simp), hnone]
      rfl
  | cons c before ih =>
      by_cases hc : c = '\n'
      · subst hc
        have hoffset : start + bytes front + width ('\n' :: before) =
            start + bytes ('\n' :: front) + bytes [] + width before := by
          rw [bytes, bytes, width]
          omega
        rw [List.cons_append, split_break, List.takeWhile_cons_of_pos (by simp [Nat.add_assoc]),
          List.length_cons, hoffset, ih, lineBreaks, lineBreaks, List.count_cons_self, Nat.add_assoc]
      · have hoffset : start + bytes front + width (c :: before) =
            start + bytes (c :: front) + width before := by
          rw [bytes, width]
          omega
        rw [List.cons_append, split_of_ne hc, hoffset, ih, lineBreaks, lineBreaks,
          List.count_cons_of_ne hc]

/-! ### Where lines start -/

/-- A line of a source starts behind so many bytes, and so many other lines start in front of it. -/
def Starts (source : String) (index start : Nat) : Prop :=
  ∃ before behind : String, source = before ++ behind ∧ before.utf8ByteSize = start ∧
    lineBreaks before.toList = index ∧ (before = "" ∨ ∃ front, before = front ++ "\n")

/-- The lines of sources are found by offsets between characters: as the last one that starts in
front of the offset, or at it. -/
def Finds (indexAt : String → Nat → Nat) : Prop :=
  ∀ before behind : String,
    let index := indexAt (before ++ behind) before.utf8ByteSize
    (∃ start ≤ before.utf8ByteSize, Starts (before ++ behind) index start) ∧
      ∀ next, Starts (before ++ behind) (index + 1) next → before.utf8ByteSize < next

/-- Of two beginnings of a text, the narrower one is the beginning of the other. -/
theorem prefix_of_width_le {as bs : List Char} (has : as <+: cs) (hbs : bs <+: cs)
    (h : width as ≤ width bs) : as <+: bs := by
  rcases List.prefix_or_prefix_of_prefix has hbs with hprefix | ⟨ds, rfl⟩
  · exact hprefix
  · rw [width_append] at h
    have hds : ds = [] := by
      by_contra hne
      exact Nat.not_lt.2 h (Nat.lt_add_of_pos_right (width_pos hne))
    simp only [hds, List.append_nil, List.prefix_refl]

/-- Each line break has as many others in front of it as it is asked for. -/
theorem exists_lineBreak {cs : List Char} {n : Nat} (h : n < lineBreaks cs) :
    ∃ front, front ++ ['\n'] <+: cs ∧ lineBreaks front = n := by
  induction cs generalizing n with
  | nil => cases h
  | cons c cs ih =>
      by_cases hc : c = '\n'
      · subst hc
        cases n with
        | zero => exact ⟨[], List.prefix_append ['\n'] cs, rfl⟩
        | succ n =>
            rw [lineBreaks, List.count_cons_self] at h
            obtain ⟨front, hprefix, hfront⟩ := ih (Nat.lt_of_succ_lt_succ h)
            refine ⟨'\n' :: front, (List.prefix_cons_inj _).2 hprefix, ?_⟩
            rw [lineBreaks, List.count_cons_self]
            exact congrArg (· + 1) hfront
      · rw [lineBreaks, List.count_cons_of_ne hc] at h
        obtain ⟨front, hprefix, hfront⟩ := ih h
        refine ⟨c :: front, (List.prefix_cons_inj _).2 hprefix, ?_⟩
        rwa [lineBreaks, List.count_cons_of_ne hc]

/-- As many lines as there are line breaks in front of an offset start up to it, next to the first. -/
theorem exists_starts_iff {before behind : String} {index : Nat} :
    (∃ start ≤ before.utf8ByteSize, Starts (before ++ behind) index start) ↔
      index ≤ lineBreaks before.toList := by
  constructor
  · rintro ⟨_, hle, front, rest, hsource, rfl, rfl, -⟩
    rw [← width_toList, ← width_toList] at hle
    have hfront : front.toList <+: (before ++ behind).toList := by
      rw [hsource, String.toList_append]
      exact List.prefix_append _ _
    have hbefore : before.toList <+: (before ++ behind).toList := by
      rw [String.toList_append]
      exact List.prefix_append _ _
    exact (prefix_of_width_le hfront hbefore hle).sublist.count_le _
  · intro hindex
    cases index with
    | zero =>
        exact ⟨0, Nat.zero_le _, "", before ++ behind, String.empty_append.symm, rfl, rfl, .inl rfl⟩
    | succ n =>
        obtain ⟨front, ⟨rest, hrest⟩, rfl⟩ := exists_lineBreak hindex
        have hbefore : before = String.ofList front ++ "\n" ++ String.ofList rest := by
          rw [← String.toList_inj, ← hrest]
          simp
        refine ⟨_, ?_, String.ofList front ++ "\n", String.ofList rest ++ behind, ?_, rfl, ?_,
          .inr ⟨_, rfl⟩⟩
        · rw [hbefore]
          exact (Nat.le_add_right _ _).trans (Nat.le_of_eq String.utf8ByteSize_append.symm)
        · rw [hbefore, String.append_assoc]
        · rw [String.toList_append, String.toList_ofList, lineBreaks_append]
          rfl

/-- However it is found, the line of an offset has as many others in front of it as there are line
breaks. -/
theorem Finds.eq_lineBreaks {indexAt : String → Nat → Nat} (h : Finds indexAt)
    {source before behind : String} (hsource : source = before ++ behind) :
    indexAt source before.utf8ByteSize = lineBreaks before.toList := by
  subst hsource
  obtain ⟨hstarts, hnext⟩ := h before behind
  refine Nat.le_antisymm (exists_starts_iff.1 hstarts) (Nat.not_lt.1 fun hlt => ?_)
  obtain ⟨next, hle, hstarts⟩ := exists_starts_iff.2 (Nat.succ_le_of_lt hlt)
  exact Nat.not_lt.2 hle (hnext next hstarts)

/-! ### Where lines are found -/

/-- The line of an offset is found behind as many others as there are line breaks in front of it. -/
theorem indexAt_ofString {source before behind : String} (h : source = before ++ behind) :
    indexAt (ofString source) before.utf8ByteSize = lineBreaks before.toList := by
  have hlength := length_takeWhile_split 0 [] before.toList behind.toList
  rw [← String.toList_append, ← h, Token.width_toList] at hlength
  rw [indexAt, ofString, ← Nat.zero_add before.utf8ByteSize]
  exact (congrArg (· - 1) hlength).trans (Nat.add_sub_cancel_left 1 _)

/-- The line of an offset, found among the lines of its source. -/
def indexIn (source : String) (offset : Nat) : Nat := indexAt (ofString source) offset

theorem finds_indexIn : Finds indexIn := by
  intro before behind
  simp only [indexIn, indexAt_ofString rfl]
  refine ⟨exists_starts_iff.2 (Nat.le_refl _), fun next hnext => Nat.not_le.1 fun hle => ?_⟩
  exact Nat.not_succ_le_self _ (exists_starts_iff.1 ⟨next, hle, hnext⟩)

end Line

end Lox
