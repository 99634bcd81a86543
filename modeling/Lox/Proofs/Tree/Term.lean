import Lox.Proofs.Number.Numeral
import Lox.Proofs.Token.Lexeme

/-!
# Proofs — Tree — Terms

The texts between parentheses, whatever is written in them.  A `Term` is a word, a number, a string
between quotes, or a name with terms behind it, between parentheses.  In front of each operand
stands a space, so a term is followed by a space, by a closing parenthesis or by nothing
(`Term.Behind`).

**Unique readability** (`Term.text_append_inj`).  A text starts with at most one well-formed term
that such a thing stands behind.  Strings may contain spaces and parentheses, but no quotes.
-/

namespace Lox

open Token (IsWord InWord Front)

/-- What is written between parentheses. -/
inductive Term where
  | word (w : String)
  | number (x : Float)
  | string (s : String)
  | node (name : String) (operands : List Term)

namespace Term

mutual

/-- The text of a term. -/
def text : Term → List Char
  | .word w => w.toList
  | .number x => (Number.Layout.plain.text x).toList
  | .string s => '"' :: s.toList ++ ['"']
  | .node name operands => '(' :: name.toList ++ texts operands ++ [')']

/-- The texts of operands, a space in front of each. -/
def texts : List Term → List Char
  | [] => []
  | x :: xs => ' ' :: x.text ++ texts xs

end

/-- A character that neither ends a word, a number or a name nor starts anything else. -/
def IsPlain (c : Char) : Prop := c ∉ [' ', '(', ')', '"']

instance : DecidablePred IsPlain := fun c => inferInstanceAs (Decidable (c ∉ [' ', '(', ')', '"']))

/-- A text of such characters. -/
def Plain (text : List Char) : Prop := ∀ c ∈ text, IsPlain c

instance : DecidablePred Plain := fun text => List.decidableBAll IsPlain text

mutual

/-- A term that is told apart from all others. -/
def WellFormed : Term → Prop
  | .word w => IsWord w.toList
  | .number x => x.isFinite
  | .string s => '"' ∉ s.toList
  | .node name operands => Plain name.toList ∧ AllWellFormed operands

/-- Terms that are told apart from all others. -/
def AllWellFormed : List Term → Prop
  | [] => True
  | x :: xs => x.WellFormed ∧ AllWellFormed xs

end

/-- What may stand behind a term. -/
def Behind (rest : List Char) : Prop := ∀ c ∈ rest.head?, c = ' ' ∨ c = ')'

/-- What a term starts with. -/
def front : Term → Front
  | .word _ => .letter
  | .number _ => .digit
  | .string _ => .quote
  | .node .. => .symbol

/-- What a character starts, if a sign belongs to the number behind it. -/
def frontOf (c : Char) : Front := if c = '-' then .digit else .of c

variable {x y : Term} {xs ys : List Term} {c : Char} {s s' u v : List Char}

/-! ### Plain texts -/

theorem isPlain_of_inWord (h : InWord c) : IsPlain c := by
  intro hc
  simp only [List.mem_cons, List.not_mem_nil, or_false] at hc
  rcases hc with rfl | rfl | rfl | rfl <;> exact absurd h (by unfold InWord; decide)

theorem plain_of_isWord (h : IsWord s) : Plain s := fun c hc => isPlain_of_inWord (h.inWord c hc)

/-- The text of a finite double is a sign, or none, and a decimal. -/
theorem exists_text_number {x : Float} (h : x.isFinite) : ∃ d,
    (number x).text = '-' :: (Number.positionalText false d).toList ∨
      (number x).text = (Number.positionalText false d).toList := by
  refine ⟨Number.shortest x, ?_⟩
  rw [text, Number.text_plain h]
  split
  · exact .inl (String.toList_append ..)
  · exact .inr (congrArg String.toList (String.empty_append ..))

theorem plain_number {x : Float} (h : x.isFinite) : Plain (number x).text := by
  have hdecimal : ∀ d, Plain (Number.positionalText false d).toList := fun d c hc =>
    (Number.mem_positionalText hc).elim
      (fun hdigit => isPlain_of_inWord (Token.inWord_of_isDigit hdigit)) (· ▸ by decide)
  obtain ⟨d, htext | htext⟩ := exists_text_number h
  · rw [htext]
    exact List.forall_mem_cons.2 ⟨by decide, hdecimal d⟩
  · rw [htext]
    exact hdecimal d

/-- A plain text ends where something else follows. -/
theorem plain_append_inj (hs : Plain s) (hs' : Plain s') (hu : Behind u) (hv : Behind v)
    (h : s ++ u = s' ++ v) : s = s' ∧ u = v := by
  have hsplit : ∀ {s u : List Char}, Plain s → Behind u →
      (s ++ u).takeWhile (fun c => decide (IsPlain c)) = s := by
    intro s u hs hu
    rw [List.takeWhile_append_of_pos fun c hc => decide_eq_true (hs c hc)]
    cases u with
    | nil => exact List.append_nil s
    | cons d ds =>
        have hd : ¬ IsPlain d := by
          rcases hu d rfl with rfl | rfl <;> decide
        rw [List.takeWhile_cons_of_neg (by simpa using hd), List.append_nil]
  have heq : s = s' := by rw [← hsplit hs hu, h, hsplit hs' hv]
  subst heq
  exact ⟨rfl, List.append_cancel_left h⟩

/-- A string ends with the first quote behind its opening one. -/
theorem quoted_append_inj (hs : '"' ∉ s) (hs' : '"' ∉ s') (h : s ++ '"' :: u = s' ++ '"' :: v) :
    s = s' ∧ u = v := by
  have hsplit : ∀ {s u : List Char}, '"' ∉ s → (s ++ '"' :: u).takeWhile (· ≠ '"') = s := by
    intro s u hs
    have hno : ∀ c ∈ s, decide (c ≠ '"') := fun c hc =>
      decide_eq_true (ne_of_mem_of_not_mem hc hs)
    rw [List.takeWhile_append_of_pos hno]
    simp
  have heq : s = s' := by rw [← hsplit hs, h, hsplit hs']
  subst heq
  exact ⟨rfl, (List.cons.inj (List.append_cancel_left h)).2⟩

/-! ### Starts -/

theorem frontOf_of_ne {f : Front} (h : Front.of c = f) (hf : f ≠ .symbol) : frontOf c = f := by
  rw [frontOf, if_neg, h]
  rintro rfl
  exact hf h.symm

theorem exists_text (h : x.WellFormed) : ∃ c cs, x.text = c :: cs ∧ frontOf c = x.front := by
  cases x with
  | word w =>
      rw [WellFormed] at h
      cases htext : w.toList with
      | nil =>
          rw [htext] at h
          exact h.elim
      | cons c cs =>
          rw [htext] at h
          exact ⟨c, cs, htext, frontOf_of_ne (Token.front_letter h.1) nofun⟩
  | number x =>
      obtain ⟨d, htext | htext⟩ := exists_text_number h
      · exact ⟨'-', _, htext, rfl⟩
      · obtain ⟨c, hc, hdigit⟩ := Number.head?_positionalText d
        obtain ⟨cs, hcs⟩ := List.head?_eq_some_iff.1 hc
        exact ⟨c, cs, htext.trans hcs, frontOf_of_ne (Token.front_digit hdigit) nofun⟩
  | string s => exact ⟨'"', _, rfl, rfl⟩
  | node name operands => exact ⟨'(', _, rfl, rfl⟩

/-- Terms with the same text in front are of one sort. -/
theorem front_eq_of_text (hx : x.WellFormed) (hy : y.WellFormed) (h : x.text ++ u = y.text ++ v) :
    x.front = y.front := by
  obtain ⟨c, cs, hcs, hc⟩ := exists_text hx
  obtain ⟨d, ds, hds, hd⟩ := exists_text hy
  rw [hcs, hds, List.cons_append, List.cons_append] at h
  obtain ⟨rfl, -⟩ := List.cons.inj h
  exact hc.symm.trans hd

/-! ### Reading -/

theorem behind_close (rest : List Char) : Behind (')' :: rest) := fun _ hc => by
  cases hc
  exact .inr rfl

theorem behind_texts (xs : List Term) (rest : List Char) : Behind (texts xs ++ ')' :: rest) := by
  cases xs with
  | nil => exact behind_close rest
  | cons x xs =>
      intro c hc
      cases hc
      exact .inl rfl

mutual

/-- **Unique readability.**  A text starts with at most one well-formed term. -/
theorem text_append_inj : ∀ (x y : Term) {u v : List Char}, x.WellFormed → y.WellFormed →
    Behind u → Behind v → x.text ++ u = y.text ++ v → x = y ∧ u = v
  | .word w, y, u, v, hx, hy, hu, hv, h => by
      have hfront := front_eq_of_text hx hy h
      cases y with
      | word w' =>
          obtain ⟨hw, hrest⟩ :=
            plain_append_inj (plain_of_isWord hx) (plain_of_isWord hy) hu hv h
          exact ⟨congrArg word (String.toList_inj.1 hw), hrest⟩
      | number | string | node => cases hfront
  | .number x, y, u, v, hx, hy, hu, hv, h => by
      have hfront := front_eq_of_text hx hy h
      cases y with
      | number x' =>
          obtain ⟨htext, hrest⟩ :=
            plain_append_inj (plain_number hx) (plain_number hy) hu hv h
          exact ⟨congrArg number
            (Number.text_plain_injective hx hy (String.toList_inj.1 htext)), hrest⟩
      | word | string | node => cases hfront
  | .string s, y, u, v, hx, hy, hu, hv, h => by
      have hfront := front_eq_of_text hx hy h
      cases y with
      | string s' =>
          simp only [text, List.cons_append, List.append_assoc, List.nil_append] at h
          obtain ⟨hs, hrest⟩ := quoted_append_inj hx hy (List.cons.inj h).2
          exact ⟨congrArg string (String.toList_inj.1 hs), hrest⟩
      | word | number | node => cases hfront
  | .node name xs, y, u, v, hx, hy, hu, hv, h => by
      have hfront := front_eq_of_text hx hy h
      cases y with
      | node name' ys =>
          simp only [text, List.cons_append, List.append_assoc, List.nil_append] at h
          -- The name ends where the operands start, or else the closing parenthesis stands.
          obtain ⟨hname, hoperands⟩ := plain_append_inj hx.1 hy.1 (behind_texts xs u)
            (behind_texts ys v) (List.cons.inj h).2
          obtain ⟨rfl, hrest⟩ := texts_append_inj xs ys hx.2 hy.2 hoperands
          obtain rfl := String.toList_inj.1 hname
          exact ⟨rfl, hrest⟩
      | word | number | string => cases hfront

/-- Operands are told apart as well, up to the closing parenthesis. -/
theorem texts_append_inj : ∀ (xs ys : List Term) {u v : List Char}, AllWellFormed xs →
    AllWellFormed ys → texts xs ++ ')' :: u = texts ys ++ ')' :: v → xs = ys ∧ u = v
  | [], [], _, _, _, _, h => ⟨rfl, (List.cons.inj h).2⟩
  | [], y :: ys, _, _, _, _, h => by cases h
  | x :: xs, [], _, _, _, _, h => by cases h
  | x :: xs, y :: ys, u, v, hx, hy, h => by
      simp only [texts, List.cons_append, List.append_assoc] at h
      obtain ⟨rfl, hothers⟩ := text_append_inj x y hx.1 hy.1 (behind_texts xs u)
        (behind_texts ys v) (List.cons.inj h).2
      obtain ⟨rfl, hrest⟩ := texts_append_inj xs ys hx.2 hy.2 hothers
      exact ⟨rfl, hrest⟩

end

/-- Well-formed terms with the same text are the same. -/
theorem text_inj (hx : x.WellFormed) (hy : y.WellFormed) (h : x.text = y.text) : x = y :=
  (text_append_inj x y hx hy (u := []) (v := []) (fun _ hc => nomatch hc) (fun _ hc => nomatch hc)
    (by rw [h])).1

end Term

end Lox
