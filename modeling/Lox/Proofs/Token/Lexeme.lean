import Lox.Token.Piece
import Mathlib.Data.List.TakeWhile

/-!
# Proofs — Token — Lexemes

The lexical grammar, apart from how a source is cut: which texts are lexemes of which kind
(`Kind.Lexeme`), and what else may stand between them (`Piece.Regular`).  `Munches` takes off the
front of a source the longest piece that the grammar knows; where it knows none, a string without
its closing quote, or a character that nothing starts with.

**Longest match** (`munches_iff`).  What the grammar has at the front of a source is what is cut off
there, and nothing else.

The first character of a piece tells what the piece can be (`Piece.Regular.front`).  So a cut is as
long as can be if it is longer than what else starts with its first character, which is shown for
each kind of cut.
-/

namespace Lox.Token

/-! ### The lexical grammar -/

/-- Digits, at least one. -/
def IsDigits (ds : List Char) : Prop := ds ≠ [] ∧ ∀ d ∈ ds, d.isDigit

/-- A letter, a digit or an underscore. -/
def InWord (c : Char) : Prop := c.isAlphanum ∨ c = '_'

/-- A letter or an underscore, and then letters, digits and underscores. -/
def IsWord : List Char → Prop
  | [] => False
  | c :: cs => (c.isAlpha ∨ c = '_') ∧ ∀ d ∈ cs, InWord d

/-- The kinds that are spelled with neither letters nor digits, with their spelling. -/
def Kind.symbols : List (Kind × List Char) :=
  [(leftParen, ['(']), (rightParen, [')']), (leftBrace, ['{']), (rightBrace, ['}']),
    (comma, [',']), (dot, ['.']), (minus, ['-']), (plus, ['+']), (semicolon, [';']),
    (slash, ['/']), (star, ['*']), (bang, ['!']), (bangEqual, ['!', '=']), (equal, ['=']),
    (equalEqual, ['=', '=']), (greater, ['>']), (greaterEqual, ['>', '=']), (less, ['<']),
    (lessEqual, ['<', '='])]

/-- The lexemes of a kind. -/
inductive Kind.Lexeme : Kind → List Char → Prop where
  | whole {ds : List Char} (h : IsDigits ds) : Lexeme .number ds
  | fraction {ds fs : List Char} (h : IsDigits ds) (hf : IsDigits fs) :
      Lexeme .number (ds ++ '.' :: fs)
  | string {body : List Char} (h : '"' ∉ body) : Lexeme .string ('"' :: body ++ ['"'])
  | reserved {k : Kind} {w : List Char} (h : IsWord w)
      (hk : (String.ofList w, k) ∈ reservedWords) : Lexeme k w
  | identifier {w : List Char} (h : IsWord w)
      (hno : ∀ k, (String.ofList w, k) ∉ reservedWords) : Lexeme .identifier w
  | symbol {k : Kind} {text : List Char} (h : (k, text) ∈ symbols) : Lexeme k text

/-- Whether a character is white space. -/
def IsWhite (c : Char) : Prop := c = ' ' ∨ c = '\t' ∨ c = '\r' ∨ c = '\n'

/-- The pieces that the grammar knows: white space, comments and lexemes. -/
inductive Piece.Regular : Piece → Prop where
  | white {c : Char} (h : IsWhite c) : Regular ⟨[c], .skipped⟩
  | comment {body : List Char} (h : '\n' ∉ body) : Regular ⟨'/' :: '/' :: body, .skipped⟩
  | lexeme {k : Kind} {text : List Char} (h : k.Lexeme text) : Regular ⟨text, .token k⟩

/-- The piece at the front of a source, and what is left: the longest that the grammar knows.  If it
knows none, that is a string without its closing quote, or a character that nothing starts with. -/
inductive Munches (cs : List Char) : Piece → List Char → Prop where
  | longest {p : Piece} {rest : List Char} (hcs : cs = p.text ++ rest) (h : p.Regular)
      (hmax : ∀ q : Piece, q.Regular → q.text <+: cs → q.text.length ≤ p.text.length) :
      Munches cs p rest
  | unclosed {body : List Char} (hcs : cs = '"' :: body) (hb : '"' ∉ body) :
      Munches cs ⟨cs, .unclosed⟩ []
  | stray {c : Char} {rest : List Char} (hcs : cs = c :: rest)
      (h : ∀ q : Piece, q.Regular → q.text.head? ≠ some c) : Munches cs ⟨[c], .stray c⟩ rest

/-! ### Characters -/

theorem isDigit_eq (c : Char) : isDigit c = c.isDigit := rfl

theorem startsWord_iff {c : Char} : startsWord c ↔ c.isAlpha ∨ c = '_' := by
  have hlower : ('a' ≤ c && c ≤ 'z') = c.isLower := rfl
  have hupper : ('A' ≤ c && c ≤ 'Z') = c.isUpper := (Bool.decide_and _ _).symm
  have halpha : c.isAlpha = (c.isUpper || c.isLower) := rfl
  rw [startsWord, hlower, hupper, halpha, Bool.or_comm c.isUpper, Bool.or_eq_true, beq_iff_eq]

theorem not_isDigit_of_startsWord {c : Char} (h : startsWord c) : ¬ isDigit c := by
  intro hd
  rw [isDigit, Bool.and_eq_true, decide_eq_true_iff, decide_eq_true_iff] at hd
  simp only [startsWord, Bool.or_eq_true, Bool.and_eq_true, decide_eq_true_iff, beq_iff_eq] at h
  -- A letter or an underscore comes behind the last digit.
  rcases h with (h | h) | rfl
  · exact absurd (Char.le_trans h.1 hd.2) (by decide)
  · exact absurd (Char.le_trans h.1 hd.2) (by decide)
  · exact absurd hd.2 (by decide)

theorem continuesWord_iff {c : Char} : continuesWord c ↔ InWord c := by
  rw [continuesWord, Bool.or_eq_true, startsWord_iff, InWord, Char.isAlphanum, Bool.or_eq_true,
    isDigit_eq, or_right_comm]

theorem inWord_of_isDigit {c : Char} (h : c.isDigit) : InWord c :=
  .inl (by rw [Char.isAlphanum, h, Bool.or_true])

theorem IsWord.inWord {w : List Char} (h : IsWord w) : ∀ c ∈ w, InWord c := by
  cases w with
  | nil => exact h.elim
  | cons d w =>
      have hd : InWord d := h.1.imp_left fun ha => by rw [Char.isAlphanum, ha, Bool.true_or]
      exact List.forall_mem_cons.2 ⟨hd, h.2⟩

theorem isBlank_iff {c : Char} : isBlank c ↔ IsWhite c := by
  simp [isBlank, IsWhite, or_assoc]

/-- What the first character of a piece tells of it. -/
inductive Front where
  | white
  | digit
  | letter
  | quote
  | symbol
  | other
  deriving DecidableEq

/-- What a symbol starts with. -/
def symbolFronts : List Char :=
  ['(', ')', '{', '}', ',', '.', '-', '+', ';', '/', '*', '!', '=', '>', '<']

def Front.of (c : Char) : Front :=
  if isBlank c then .white
  else if isDigit c then .digit
  else if startsWord c then .letter
  else if c = '"' then .quote
  else if c ∈ symbolFronts then .symbol
  else .other

theorem front_white {c : Char} (h : IsWhite c) : Front.of c = .white := by
  rw [Front.of, if_pos (isBlank_iff.2 h)]

theorem front_digit {c : Char} (h : c.isDigit) : Front.of c = .digit := by
  have hb : ¬ isBlank c := by
    rw [isBlank_iff]
    rintro (rfl | rfl | rfl | rfl) <;> cases h
  rw [Front.of, if_neg hb, isDigit_eq, if_pos h]

theorem front_letter {c : Char} (h : c.isAlpha ∨ c = '_') : Front.of c = .letter := by
  have hb : ¬ isBlank c := by
    rw [isBlank_iff]
    rintro (rfl | rfl | rfl | rfl) <;> revert h <;> decide
  have hd : ¬ isDigit c := not_isDigit_of_startsWord (startsWord_iff.2 h)
  rw [Front.of, if_neg hb, if_neg hd, if_pos (startsWord_iff.2 h)]

theorem front_symbol {k : Kind} {c : Char} {text : List Char} (h : (k, c :: text) ∈ Kind.symbols) :
    Front.of c = .symbol := by
  have hfront : ∀ p ∈ Kind.symbols, p.2.head?.map Front.of = some .symbol := by decide
  exact Option.some.inj (hfront _ h)

theorem kindOfWord_lexeme {w : List Char} (h : IsWord w) : (kindOfWord w).Lexeme w := by
  rw [kindOfWord, Kind.ofReserved?]
  cases hk : Kind.reservedWords.lookup (String.ofList w) with
  | none =>
      refine .identifier h fun k hk' => ?_
      simpa using List.lookup_eq_none_iff.1 hk _ hk'
  | some k =>
      obtain ⟨l, l', hl, -⟩ := List.lookup_eq_some_iff.1 hk
      exact .reserved h (by rw [hl]; simp)

/-- A word is of one kind. -/
theorem kindOfWord_eq_of_mem {w : List Char} {k : Kind}
    (h : (String.ofList w, k) ∈ Kind.reservedWords) :
    kindOfWord w = k := by
  have hunique : ∀ p ∈ Kind.reservedWords, ∀ q ∈ Kind.reservedWords, p.1 = q.1 → p.2 = q.2 := by
    decide
  rw [kindOfWord, Kind.ofReserved?]
  cases hk : Kind.reservedWords.lookup (String.ofList w) with
  | none => simpa using List.lookup_eq_none_iff.1 hk _ h
  | some k' =>
      obtain ⟨l, l', hl, -⟩ := List.lookup_eq_some_iff.1 hk
      exact hunique (_, k') (by rw [hl]; simp) _ h rfl

theorem kindOfWord_eq_identifier {w : List Char}
    (h : ∀ k, (String.ofList w, k) ∉ Kind.reservedWords) :
    kindOfWord w = .identifier := by
  rw [kindOfWord, Kind.ofReserved?]
  cases hk : Kind.reservedWords.lookup (String.ofList w) with
  | none => rfl
  | some k =>
      obtain ⟨l, l', hl, -⟩ := List.lookup_eq_some_iff.1 hk
      exact absurd (by rw [hl]; simp) (h k)

/-- What a piece that the grammar knows can be, by its first character. -/
def Front.Fits : Front → Char → List Char → Piece.Role → Prop
  | white, _, more, role => more = [] ∧ role = .skipped
  | digit, c, more, role => role = .token .number ∧
      (IsDigits (c :: more) ∨ ∃ ds fs, c :: more = ds ++ '.' :: fs ∧ IsDigits ds ∧ IsDigits fs)
  | letter, c, more, role => role = .token (kindOfWord (c :: more)) ∧ ∀ d ∈ more, InWord d
  | quote, _, more, role => role = .token .string ∧ ∃ body, more = body ++ ['"'] ∧ '"' ∉ body
  | symbol, c, more, role =>
      (c = '/' ∧ role = .skipped ∧ ∃ body, more = '/' :: body ∧ '\n' ∉ body) ∨
        ∃ k, role = .token k ∧ (k, c :: more) ∈ Kind.symbols
  | other, _, _, _ => False

theorem Piece.Regular.front {q : Piece} (h : q.Regular) {c : Char} {more : List Char}
    (hq : q.text = c :: more) : (Front.of c).Fits c more q.role := by
  cases h with
  | white hc =>
      obtain ⟨rfl, rfl⟩ := List.cons.inj hq
      rw [front_white hc]
      exact ⟨rfl, rfl⟩
  | comment hb =>
      obtain ⟨rfl, rfl⟩ := List.cons.inj hq
      exact .inl ⟨rfl, rfl, _, rfl, hb⟩
  | lexeme h =>
      cases h with
      | whole h =>
          cases hq
          rw [front_digit (h.2 c List.mem_cons_self)]
          exact ⟨rfl, .inl h⟩
      | @fraction ds fs h hf =>
          obtain ⟨d, ds, rfl⟩ := List.exists_cons_of_ne_nil h.1
          obtain ⟨rfl, rfl⟩ := List.cons.inj hq
          rw [front_digit (h.2 d List.mem_cons_self)]
          exact ⟨rfl, .inr ⟨d :: ds, fs, rfl, h, hf⟩⟩
      | string h =>
          obtain ⟨rfl, rfl⟩ := List.cons.inj hq
          exact ⟨rfl, _, rfl, h⟩
      | reserved h hk =>
          cases hq
          rw [front_letter h.1]
          exact ⟨congrArg _ (kindOfWord_eq_of_mem hk).symm, h.2⟩
      | identifier h hno =>
          cases hq
          rw [front_letter h.1]
          exact ⟨congrArg _ (kindOfWord_eq_identifier hno).symm, h.2⟩
      | symbol h =>
          cases hq
          rw [front_symbol h]
          exact .inr ⟨_, rfl, h⟩

/-! ### What is cut off -/

section

variable {c : Char} {cs more behind rest : List Char} {p : Piece} {k : Kind}

/-- What stands in front of a character has none of it. -/
theorem not_mem_takeWhile (c : Char) (cs : List Char) : c ∉ cs.takeWhile (· ≠ c) := by
  intro h
  simpa using List.mem_takeWhile_imp h

/-- What is left then starts with the character, if anything is left. -/
theorem eq_of_head?_dropWhile (c : Char) (cs : List Char) :
    ∀ d ∈ (cs.dropWhile (· ≠ c)).head?, d = c := by
  intro d hd
  have h := List.head?_dropWhile_not (· ≠ c) cs
  rw [Option.mem_def.1 hd] at h
  simpa using h

/-- A list of such characters is not longer than as many of them as there are. -/
theorem length_le_takeWhile {f : Char → Bool} (h : ∀ d ∈ more, f d) (hcs : cs = more ++ behind) :
    more.length ≤ (cs.takeWhile f).length := by
  rw [hcs, List.takeWhile_append_of_pos h, List.length_append]
  exact Nat.le_add_right _ _

theorem munches_of_front (hsplit : c :: cs = p.text ++ rest) (h : p.Regular)
    (hmax : ∀ more behind role, cs = more ++ behind → (Front.of c).Fits c more role →
      more.length < p.text.length) : Munches (c :: cs) p rest := by
  refine .longest hsplit h fun q hq hprefix => ?_
  cases htext : q.text with
  | nil => exact Nat.zero_le _
  | cons d more =>
      rw [htext] at hprefix
      obtain ⟨behind, hbehind⟩ := hprefix
      obtain ⟨rfl, rfl⟩ := List.cons.inj hbehind
      exact hmax more behind q.role rfl (hq.front htext)

theorem munches_single (cs : List Char) (hk : (k, [c]) ∈ Kind.symbols) (hc : c ≠ '/')
    (hone : ∀ q ∈ Kind.symbols, q.2.head? = some c → q.2 = [c]) :
    Munches (c :: cs) (Piece.single c k) cs := by
  refine munches_of_front rfl (.lexeme (.symbol hk)) fun more behind role _ hfits => ?_
  rw [front_symbol hk] at hfits
  rcases hfits with ⟨rfl, -⟩ | ⟨k', -, hk'⟩
  · exact absurd rfl hc
  · obtain ⟨-, rfl⟩ := List.cons.inj (hone _ hk' rfl)
    exact Nat.one_pos

theorem munches_double (cs : List Char) {second : Char} {long short : Kind}
    (hl : (long, [c, second]) ∈ Kind.symbols) (hs : (short, [c]) ∈ Kind.symbols) (hc : c ≠ '/')
    (htwo : ∀ q ∈ Kind.symbols, q.2.head? = some c → q.2 = [c] ∨ q.2 = [c, second]) :
    ∃ rest, Munches (c :: cs) (Piece.double c cs second long short) rest := by
  have hmore : ∀ more role, (Front.of c).Fits c more role → more = [] ∨ more = [second] := by
    intro more role hfits
    rw [front_symbol hs] at hfits
    rcases hfits with ⟨rfl, -⟩ | ⟨k', -, hk'⟩
    · exact absurd rfl hc
    · exact (htwo _ hk' rfl).imp (fun h => (List.cons.inj h).2) fun h => (List.cons.inj h).2
  rw [Piece.double]
  split
  · rename_i h
    obtain ⟨rest, rfl⟩ := List.head?_eq_some_iff.1 h
    refine ⟨rest, munches_of_front rfl (.lexeme (.symbol hl)) fun more behind role _ hfits => ?_⟩
    rcases hmore more role hfits with rfl | rfl
    · exact Nat.two_pos
    · exact Nat.one_lt_two
  · rename_i h
    refine ⟨cs, munches_of_front rfl (.lexeme (.symbol hs)) fun more behind role hcs hfits => ?_⟩
    rcases hmore more role hfits with rfl | rfl
    · exact Nat.one_pos
    · exact absurd (by rw [hcs]; rfl) h

theorem munches_slash (cs : List Char) : ∃ rest, Munches ('/' :: cs) (Piece.slash cs) rest := by
  have hsymbol : ∀ k more, (k, '/' :: more) ∈ Kind.symbols → more = [] := by
    have : ∀ q ∈ Kind.symbols, q.2.head? = some '/' → q.2 = ['/'] := by decide
    exact fun k more hk => (List.cons.inj (this _ hk rfl)).2
  rw [Piece.slash]
  split
  · rename_i h
    obtain ⟨cs, rfl⟩ := List.head?_eq_some_iff.1 h
    have htext : ('/' :: cs).takeWhile (· ≠ '\n') = '/' :: cs.takeWhile (· ≠ '\n') := rfl
    refine ⟨cs.dropWhile (· ≠ '\n'), munches_of_front ?_ ?_ fun more behind role hcs hfits => ?_⟩
    · rw [htext, List.cons_append, List.cons_append, List.takeWhile_append_dropWhile]
    · rw [htext]
      exact .comment (not_mem_takeWhile '\n' cs)
    · rcases hfits with ⟨-, -, body, rfl, hbody⟩ | ⟨k, -, hk⟩
      · refine Nat.lt_succ_of_le (length_le_takeWhile (fun d hd => ?_) hcs)
        rcases List.mem_cons.1 hd with rfl | hd
        · rfl
        · exact decide_eq_true fun h => hbody (h ▸ hd)
      · rw [hsymbol k more hk]
        exact Nat.succ_pos _
  · rename_i h
    refine ⟨cs, munches_of_front rfl (.lexeme (.symbol (by decide)))
      fun more behind role hcs hfits => ?_⟩
    rcases hfits with ⟨-, -, body, rfl, -⟩ | ⟨k, -, hk⟩
    · exact absurd (by rw [hcs]; rfl) h
    · rw [hsymbol k more hk]
      exact Nat.one_pos

theorem munches_string (cs : List Char) : ∃ rest, Munches ('"' :: cs) (Piece.string cs) rest := by
  have hsplit : cs.takeWhile (· ≠ '"') ++ cs.dropWhile (· ≠ '"') = cs :=
    List.takeWhile_append_dropWhile
  rw [Piece.string]
  split
  · rename_i h
    rw [h, List.append_nil] at hsplit
    have hbody := not_mem_takeWhile '"' cs
    rw [hsplit] at hbody ⊢
    exact ⟨[], .unclosed rfl hbody⟩
  · rename_i d rest h
    obtain rfl : d = '"' := eq_of_head?_dropWhile '"' cs d (by rw [h]; rfl)
    rw [h] at hsplit
    have hstring := Kind.Lexeme.string (not_mem_takeWhile '"' cs)
    refine ⟨rest, munches_of_front ?_ (.lexeme hstring) ?_⟩
    · rw [List.cons_append, List.cons_append, List.append_assoc]
      exact congrArg _ hsplit.symm
    · rintro more behind role hcs ⟨-, body, rfl, hbody⟩
      have hne : ∀ d ∈ body, decide (d ≠ '"') = true := fun d hd =>
        decide_eq_true fun h => hbody (h ▸ hd)
      rw [List.append_assoc] at hcs
      have hle := length_le_takeWhile hne hcs
      simp only [List.length_append, List.length_cons, List.length_nil]
      omega

/-- The digits in front of a point, and what is left. -/
theorem split_at_point {ds : List Char} (h : ∀ d ∈ ds, isDigit d) (more : List Char) :
    (ds ++ '.' :: more).takeWhile isDigit = ds ∧
      (ds ++ '.' :: more).dropWhile isDigit = '.' :: more := by
  rw [List.takeWhile_append_of_pos h, List.dropWhile_append_of_pos h]
  exact ⟨List.append_nil ds, rfl⟩

/-- A digit and the digits behind it. -/
theorem isDigits_takeWhile (hc : c.isDigit) (cs : List Char) :
    IsDigits (c :: cs.takeWhile isDigit) := by
  refine ⟨List.cons_ne_nil _ _, fun d hd => ?_⟩
  rcases List.mem_cons.1 hd with rfl | hd
  · exact hc
  · exact List.mem_takeWhile_imp hd

/-- A number stops with the digits, or it has a point behind them and digits behind that. -/
theorem number_cases {role : Piece.Role} (hc : c.isDigit) (hcs : cs = more ++ behind)
    (hfits : (Front.of c).Fits c more role) :
    more.length ≤ (cs.takeWhile isDigit).length ∨
      ∃ d fs, cs.dropWhile isDigit = '.' :: d :: (fs ++ behind) ∧ d.isDigit ∧
        (∀ f ∈ fs, f.isDigit) ∧ more = cs.takeWhile isDigit ++ '.' :: d :: fs := by
  rw [front_digit hc] at hfits
  rcases hfits.2 with h | ⟨ds, fs, hmore, hds, hfs⟩
  · exact .inl (length_le_takeWhile (fun d hd => h.2 d (List.mem_cons_of_mem c hd)) hcs)
  · obtain ⟨d, ds, rfl⟩ := List.exists_cons_of_ne_nil hds.1
    obtain ⟨f, fs, rfl⟩ := List.exists_cons_of_ne_nil hfs.1
    obtain rfl : c = d := (List.cons.inj hmore).1
    obtain rfl : more = ds ++ '.' :: f :: fs := (List.cons.inj hmore).2
    rw [List.append_assoc] at hcs
    obtain ⟨htake, hdrop⟩ := split_at_point (fun d hd => hds.2 d (List.mem_cons_of_mem c hd))
      (f :: (fs ++ behind))
    refine .inr ⟨f, fs, ?_, hfs.2 f List.mem_cons_self,
      fun g hg => hfs.2 g (List.mem_cons_of_mem f hg), ?_⟩
    · rw [hcs]
      exact hdrop
    · rw [hcs]
      exact congrArg (· ++ '.' :: f :: fs) htake.symm

/-- Digits are a whole number unless a point and a digit stand behind them. -/
theorem munches_whole (hc : c.isDigit)
    (h : ∀ d rest, cs.dropWhile isDigit = '.' :: d :: rest → ¬ d.isDigit) :
    Munches (c :: cs) ⟨c :: cs.takeWhile isDigit, .token .number⟩ (cs.dropWhile isDigit) := by
  refine munches_of_front (by rw [List.cons_append, List.takeWhile_append_dropWhile])
    (.lexeme (.whole (isDigits_takeWhile hc cs))) fun more behind role hcs hfits => ?_
  rcases number_cases hc hcs hfits with hle | ⟨d, fs, hdrop, hd, -⟩
  · exact Nat.lt_succ_of_le hle
  · exact absurd hd (h d _ hdrop)

/-- If these do stand behind them, the number goes on up to the last digit. -/
theorem munches_fraction {d : Char} (hc : c.isDigit) (hd : d.isDigit)
    (h : cs.dropWhile isDigit = '.' :: d :: rest) :
    Munches (c :: cs) ⟨c :: cs.takeWhile isDigit ++ '.' :: d :: rest.takeWhile isDigit,
      .token .number⟩ (rest.dropWhile isDigit) := by
  have hsplit : cs.takeWhile isDigit ++ cs.dropWhile isDigit = cs :=
    List.takeWhile_append_dropWhile
  have hrest : rest.takeWhile isDigit ++ rest.dropWhile isDigit = rest :=
    List.takeWhile_append_dropWhile
  refine munches_of_front ?_
    (.lexeme (.fraction (isDigits_takeWhile hc cs) (isDigits_takeWhile hd rest)))
    fun more behind role hcs hfits => ?_
  · simp [hrest, ← h, hsplit]
  · simp only [List.length_append, List.length_cons]
    rcases number_cases hc hcs hfits with hle | ⟨f, fs, hdrop, -, hfs, rfl⟩
    · omega
    · rw [h] at hdrop
      have hle := length_le_takeWhile (f := isDigit) hfs (List.cons.inj (List.cons.inj hdrop).2).2
      simp only [List.length_append, List.length_cons]
      omega

theorem munches_number (cs : List Char) (hc : c.isDigit) :
    ∃ rest, Munches (c :: cs) (Piece.number c cs) rest := by
  rw [Piece.number]
  split
  · rename_i d rest h
    split
    · rename_i hd
      exact ⟨_, munches_fraction hc hd h⟩
    · rename_i hd
      refine ⟨_, munches_whole hc fun f fs hdrop => ?_⟩
      rw [h] at hdrop
      exact (List.cons.inj (List.cons.inj hdrop).2).1 ▸ hd
  · rename_i h
    exact ⟨_, munches_whole hc fun d rest hdrop => absurd hdrop (h d rest)⟩

theorem munches_word (cs : List Char) (hc : c.isAlpha ∨ c = '_') :
    ∃ rest, Munches (c :: cs) (Piece.word c cs) rest := by
  have hword : IsWord (c :: cs.takeWhile continuesWord) :=
    ⟨hc, fun d hd => continuesWord_iff.1 (List.mem_takeWhile_imp hd)⟩
  refine ⟨cs.dropWhile continuesWord, munches_of_front ?_ (.lexeme (kindOfWord_lexeme hword)) ?_⟩
  · rw [Piece.word, List.cons_append, List.takeWhile_append_dropWhile]
  · intro more behind role hcs hfits
    rw [front_letter hc] at hfits
    exact Nat.lt_succ_of_le
      (length_le_takeWhile (fun d hd => continuesWord_iff.2 (hfits.2 d hd)) hcs)

theorem munches_blank (cs : List Char) (hc : IsWhite c) : Munches (c :: cs) ⟨[c], .skipped⟩ cs := by
  refine munches_of_front rfl (.white hc) fun more behind role _ hfits => ?_
  rw [front_white hc] at hfits
  rw [hfits.1]
  exact Nat.one_pos

theorem munches_stray (cs : List Char) (hc : Front.of c = .other) :
    Munches (c :: cs) ⟨[c], .stray c⟩ cs := by
  refine .stray rfl fun q hq hhead => ?_
  obtain ⟨more, hmore⟩ := List.head?_eq_some_iff.1 hhead
  have := hq.front hmore
  rwa [hc] at this

/-- Something of what the grammar has is cut off. -/
theorem exists_munches (c : Char) (cs : List Char) :
    ∃ rest, Munches (c :: cs) (Piece.cut c cs) rest := by
  unfold Piece.cut
  split
  case h_11 | h_12 | h_13 | h_14 =>
    exact munches_double cs (by decide) (by decide) (by decide) (by decide)
  case h_15 => exact munches_slash cs
  case h_16 => exact munches_string cs
  case h_17 =>
    split
    · rename_i hd
      exact munches_number cs hd
    split
    · rename_i hw
      exact munches_word cs (startsWord_iff.1 hw)
    split
    · rename_i hb
      exact ⟨cs, munches_blank cs (isBlank_iff.1 hb)⟩
    · refine ⟨cs, munches_stray cs ?_⟩
      simp_all [Front.of, symbolFronts]
  all_goals exact ⟨cs, munches_single cs (by decide) (by decide) (by decide)⟩

end

/-! ### Nothing else is cut off -/

namespace Piece.Regular

variable {p q : Piece}

theorem text_ne_nil (h : p.Regular) : p.text ≠ [] := by
  cases h with
  | white | comment => exact List.cons_ne_nil _ _
  | lexeme h =>
      cases h with
      | whole h => exact h.1
      | fraction | string => simp
      | reserved h | identifier h => rintro rfl; exact h
      | symbol h =>
          have hne : ∀ q ∈ Kind.symbols, q.2 ≠ [] := by decide
          exact hne _ h

/-- A text is a piece of one role only. -/
theorem role_eq (hp : p.Regular) (hq : q.Regular) (h : p.text = q.text) : p.role = q.role := by
  have hunique : ∀ a ∈ Kind.symbols, ∀ b ∈ Kind.symbols, a.2 = b.2 → a.1 = b.1 := by decide
  have hslash : ∀ a ∈ Kind.symbols, a.2.take 2 ≠ ['/', '/'] := by decide
  obtain ⟨c, more, htext⟩ := List.exists_cons_of_ne_nil hp.text_ne_nil
  have hp' := hp.front htext
  have hq' := hq.front (h ▸ htext)
  generalize Front.of c = front at hp' hq'
  cases front with
  | white => exact hp'.2.trans hq'.2.symm
  | digit | letter | quote => exact hp'.1.trans hq'.1.symm
  | symbol =>
      rcases hp' with ⟨rfl, hp', body, rfl, -⟩ | ⟨k, hp', hk⟩
      · rcases hq' with ⟨-, hq', -⟩ | ⟨k', -, hk'⟩
        · rw [hp', hq']
        · exact absurd rfl (hslash _ hk')
      · rcases hq' with ⟨rfl, -, body, rfl, -⟩ | ⟨k', hq', hk'⟩
        · exact absurd rfl (hslash _ hk)
        · rw [hp', hq', show k = k' from hunique _ hk _ hk' rfl]
  | other => exact hp'.elim

/-- A piece that starts with a quote has another one. -/
theorem closed (h : p.Regular) {body : List Char} (hp : p.text = '"' :: body) : '"' ∈ body := by
  obtain ⟨-, inner, rfl, -⟩ := h.front hp
  simp

end Piece.Regular

section

variable {c : Char} {cs rest rest' : List Char} {p q : Piece}

theorem Munches.append (h : Munches cs p rest) : cs = p.text ++ rest := by
  cases h with
  | longest hcs => exact hcs
  | unclosed => exact (List.append_nil cs).symm
  | stray hcs => exact hcs

/-- The grammar knows no piece where it takes a string without its closing quote. -/
theorem Munches.not_unclosed (h : p.Regular) (hcs : cs = p.text ++ rest) {body : List Char}
    (hb : '"' ∉ body) : cs ≠ '"' :: body := by
  rintro rfl
  obtain ⟨d, more, htext⟩ := List.exists_cons_of_ne_nil h.text_ne_nil
  rw [htext] at hcs
  obtain ⟨rfl, rfl⟩ := List.cons.inj hcs
  exact hb (List.mem_append_left rest (h.closed htext))

/-- The grammar knows no piece where it takes a character that nothing starts with. -/
theorem Munches.not_stray (h : p.Regular) (hcs : cs = p.text ++ rest)
    (hno : ∀ q : Piece, q.Regular → q.text.head? ≠ some c) : cs ≠ c :: rest' := by
  rintro rfl
  obtain ⟨d, more, htext⟩ := List.exists_cons_of_ne_nil h.text_ne_nil
  rw [htext] at hcs
  obtain ⟨rfl, -⟩ := List.cons.inj hcs
  exact hno p h (by rw [htext]; rfl)

/-- A quote starts a piece. -/
theorem exists_head?_quote : ∃ q : Piece, q.Regular ∧ q.text.head? = some '"' :=
  ⟨_, .lexeme (.string List.not_mem_nil), rfl⟩

/-- The grammar has one piece at the front of a source. -/
theorem Munches.unique (h : Munches cs p rest) (h' : Munches cs q rest') :
    p = q ∧ rest = rest' := by
  have hpiece : p = q := by
    cases h with
    | longest hcs hp hmax =>
        cases h' with
        | longest hcs' hq hmax' =>
            have hprefix : p.text <+: cs := ⟨rest, hcs.symm⟩
            have hprefix' : q.text <+: cs := ⟨rest', hcs'.symm⟩
            have hlen := Nat.le_antisymm (hmax' p hp hprefix) (hmax q hq hprefix')
            have htext : p.text = q.text :=
              (List.prefix_of_prefix_length_le hprefix hprefix' (Nat.le_of_eq hlen)).eq_of_length
                hlen
            exact congrArg₂ Piece.mk htext (hp.role_eq hq htext)
        | unclosed hcs' hb => exact absurd hcs' (Munches.not_unclosed hp hcs hb)
        | stray hcs' hno => exact absurd hcs' (Munches.not_stray hp hcs hno)
    | unclosed hcs hb =>
        cases h' with
        | longest hcs' hq => exact absurd hcs (Munches.not_unclosed hq hcs' hb)
        | unclosed => rfl
        | stray hcs' hno =>
            obtain ⟨rfl, -⟩ := List.cons.inj (hcs.symm.trans hcs')
            obtain ⟨q, hq, hhead⟩ := exists_head?_quote
            exact absurd hhead (hno q hq)
    | stray hcs hno =>
        cases h' with
        | longest hcs' hq => exact absurd hcs (Munches.not_stray hq hcs' hno)
        | unclosed hcs' hb =>
            obtain ⟨rfl, -⟩ := List.cons.inj (hcs.symm.trans hcs')
            obtain ⟨q, hq, hhead⟩ := exists_head?_quote
            exact absurd hhead (hno q hq)
        | stray hcs' => rw [(List.cons.inj (hcs.symm.trans hcs')).1]
  subst hpiece
  exact ⟨rfl, List.append_cancel_left (h.append.symm.trans h'.append)⟩

/-- **Longest match.**  What the grammar has at the front of a source is what is cut off there. -/
theorem munches_iff : Munches (c :: cs) p rest ↔
    p = Piece.cut c cs ∧ c :: cs = p.text ++ rest := by
  obtain ⟨rest', hcut⟩ := exists_munches c cs
  constructor
  · intro h
    exact ⟨(h.unique hcut).1, h.append⟩
  · rintro ⟨rfl, hrest⟩
    rwa [List.append_cancel_left (hrest.symm.trans hcut.append)]

end

end Lox.Token
