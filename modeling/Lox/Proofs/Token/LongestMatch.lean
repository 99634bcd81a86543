import Lox.Proofs.Token.Coverage

/-!
# Proofs — Token — Longest match

**Longest match** (`scans_longest`).  The scan of a text is what the lexical grammar makes of it: at
every place that it comes to (`Comes`), the longest piece that the grammar knows.  So a token has a
lexeme of its kind, none that what is behind it could go on with (`EndsBefore`); and a character is
unexpected exactly where the scan comes to one that neither white space nor a lexeme starts with.

None of this depends on how large the text is.  What is found, is found behind some characters and in
front of others (`Finds`), also where offsets wrap.
-/

namespace Lox.Token

/-! ### What is found -/

/-- Where a scan comes to: the characters in front, and those that are left.  It goes on behind the
longest piece. -/
inductive Comes (cs : List Char) : List Char → List Char → Prop where
  | start : Comes cs [] cs
  | behind {before rest rest' : List Char} {p : Piece} (h : Comes cs before rest)
      (hp : Munches rest p rest') : Comes cs (before ++ p.text) rest'

/-- An item is found between some characters and others: it is what the longest piece there amounts
to. -/
def Finds (cs before : List Char) (i : Item) (behind : List Char) : Prop :=
  ∃ (p : Piece) (rest : List Char), Comes cs before rest ∧ Munches rest p behind ∧
    Located.item? ⟨before, p⟩ = some i

/-- A token that what is behind it does not make longer. -/
structure EndsBefore (t : Token) (behind : List Char) : Prop where
  digit : t.kind = .number → ∀ c ∈ behind.head?, ¬ c.isDigit
  point : t.kind = .number → '.' ∉ t.lexeme.toList →
    ∀ (d : Char) (rest : List Char), behind = '.' :: d :: rest → ¬ d.isDigit
  word : IsWord t.lexeme.toList → ∀ c ∈ behind.head?, ¬ InWord c
  equal : t.kind ∈ [.bang, .equal, .less, .greater] → behind.head? ≠ some '='
  slash : t.kind = .slash → behind.head? ≠ some '/'
  /-- Nor is it the beginning of a lexeme of another kind. -/
  longest : ∀ (k : Kind) (more : List Char), more ≠ [] → more <+: behind →
    ¬ k.Lexeme (t.lexeme.toList ++ more)

/-- A scan by longest match. -/
structure Scan.LongestMatch (scan : Scan) (s : String) : Prop where
  /-- A text has its longest pieces, and the scan is what they amount to, in order. -/
  items : ∃ ps, (∀ qs, Munched s.toList qs ↔ qs = ps) ∧
    scan.items = (locate [] ps).filterMap Located.item?
  mem_items : ∀ i, i ∈ scan.items ↔ ∃ before behind, Finds s.toList before i behind
  lexeme : ∀ t ∈ scan.tokens, t.kind.Lexeme t.lexeme.toList ∨
    t = scan.last ∧ t.kind = .eof ∧ t.lexeme = ""
  /-- A string stands for the text between its quotes. -/
  string : ∀ t ∈ scan.tokens, t.kind = .string → ∃ body : String, '"' ∉ body.toList ∧
    t.lexeme = "\"" ++ body ++ "\"" ∧ t.literal? = some (.string body)
  /-- A word is of its own kind if it is reserved, and otherwise an identifier. -/
  word : ∀ t ∈ scan.tokens, IsWord t.lexeme.toList →
    (t.lexeme, t.kind) ∈ Kind.reservedWords ∨
      t.kind = .identifier ∧ ∀ k, (t.lexeme, k) ∉ Kind.reservedWords
  token : ∀ before t behind, Finds s.toList before (.ok t) behind →
    s.toList = before ++ t.lexeme.toList ++ behind ∧ t.EndsBefore behind
  /-- A character is unexpected exactly where the scan comes to it and nothing starts with it. -/
  unexpectedCharacter : ∀ before c behind,
    (∃ e, e.cause = .unexpectedCharacter c ∧ Finds s.toList before (.error e) behind) ↔
      Comes s.toList before (c :: behind) ∧ ¬ IsWhite c ∧
        ∀ k text, Kind.Lexeme k text → text.head? ≠ some c

/-! ### Places that a scan comes to -/

section

variable {cs before rest behind : List Char} {p : Piece} {ps : List Piece} {l : Located}

theorem Comes.append (h : Comes cs before rest) : cs = before ++ rest := by
  induction h with
  | start => rfl
  | behind _ hp ih => rw [ih, hp.append, List.append_assoc]

/-- Pieces lie where the scan comes to. -/
theorem Munched.comes (h : Munched rest ps) (hc : Comes cs before rest)
    (hl : l ∈ locate before ps) :
    ∃ rest' behind, Comes cs l.before rest' ∧ Munches rest' l.piece behind := by
  induction h generalizing before with
  | nil => cases hl
  | cons hp _ ih =>
      rw [locate] at hl
      rcases List.mem_cons.1 hl with rfl | hl
      · exact ⟨_, _, hc, hp⟩
      · exact ih (hc.behind hp) hl

/-- From wherever the scan comes to, the pieces go on. -/
theorem Comes.munched (h : Comes cs before rest) (hps : Munched cs ps) :
    ∃ qs, Munched rest qs ∧ ∀ l ∈ locate before qs, l ∈ locate [] ps := by
  induction h with
  | start => exact ⟨ps, hps, fun _ hl => hl⟩
  | behind _ hp ih =>
      obtain ⟨qs, hqs, hsub⟩ := ih
      cases hqs with
      | nil => exact absurd hp.append.symm (by simp [hp.cuts.text_ne_nil])
      | cons hp' hqs =>
          obtain ⟨rfl, rfl⟩ := hp.unique hp'
          exact ⟨_, hqs, fun l hl => hsub l (List.mem_cons_of_mem _ hl)⟩

/-- The pieces of a text lie where its scan comes to. -/
theorem mem_locate_iff (hps : Munched cs ps) :
    l ∈ locate [] ps ↔ ∃ rest behind, Comes cs l.before rest ∧ Munches rest l.piece behind := by
  constructor
  · exact hps.comes .start
  · rintro ⟨rest, behind, hc, hp⟩
    obtain ⟨qs, hqs, hsub⟩ := hc.munched hps
    cases hqs with
    | nil => exact absurd hp.append.symm (by simp [hp.cuts.text_ne_nil])
    | cons hp' =>
        obtain ⟨rfl, rfl⟩ := hp.unique hp'
        exact hsub l List.mem_cons_self

/-- A text has one way to be cut into longest pieces. -/
theorem munched_iff : Munched cs ps ↔ ps = pieces cs := by
  constructor
  · intro h
    have hunique : ∀ qs, Munched cs qs → ps = qs := by
      induction h with
      | nil =>
          intro qs hqs
          cases hqs with
          | nil => rfl
          | cons hp => exact absurd hp.append.symm (by simp [hp.cuts.text_ne_nil])
      | cons hp _ ih =>
          intro qs hqs
          cases hqs with
          | nil => exact absurd hp.append.symm (by simp [hp.cuts.text_ne_nil])
          | cons hp' hqs =>
              obtain ⟨rfl, rfl⟩ := hp.unique hp'
              rw [ih _ hqs]
    exact hunique _ (munched_pieces cs)
  · rintro rfl
    exact munched_pieces cs

end

/-! ### Tokens that could not be longer -/

section

variable {t : Token} {text behind : List Char} {k : Kind}

/-- A kind that has a symbol has no other lexemes. -/
theorem Kind.Lexeme.mem_symbols (h : k.Lexeme text) (hk : k ∈ Kind.symbols.map Prod.fst) :
    (k, text) ∈ Kind.symbols := by
  have hword : ∀ p ∈ Kind.reservedWords, p.2 ∉ Kind.symbols.map Prod.fst := by decide
  cases h with
  | whole | fraction | string | identifier => exact absurd hk (by decide)
  | reserved _ hw => exact absurd hk (hword _ hw)
  | symbol h => exact h

/-- With a digit behind it, a number is a longer number. -/
theorem Kind.Lexeme.number_concat (h : Kind.Lexeme .number text) {c : Char} (hc : c.isDigit) :
    Kind.Lexeme .number (text ++ [c]) := by
  have hconcat : ∀ {ds : List Char}, IsDigits ds → IsDigits (ds ++ [c]) := by
    rintro ds ⟨-, hds⟩
    refine ⟨by simp, fun d hd => ?_⟩
    rcases List.mem_append.1 hd with hd | hd
    · exact hds d hd
    · exact List.mem_singleton.1 hd ▸ hc
  cases h with
  | whole h => exact .whole (hconcat h)
  | fraction h hf =>
      rw [List.append_assoc, List.cons_append]
      exact .fraction h (hconcat hf)
  | reserved _ hw => exact absurd hw (by simp [Kind.reservedWords])
  | symbol h => exact absurd h (by simp [Kind.symbols])

/-- With a point and a digit behind it, a number that has no point is a longer number. -/
theorem Kind.Lexeme.number_point (h : Kind.Lexeme .number text) (hno : '.' ∉ text) {d : Char}
    (hd : d.isDigit) : Kind.Lexeme .number (text ++ ['.', d]) := by
  cases h with
  | whole h => exact .fraction h ⟨List.cons_ne_nil _ _, fun e he => List.mem_singleton.1 he ▸ hd⟩
  | fraction => simp at hno
  | reserved _ hw => exact absurd hw (by simp [Kind.reservedWords])
  | symbol h => exact absurd h (by simp [Kind.symbols])

/-- With one more character of a word behind it, a word is a longer word. -/
theorem IsWord.concat (h : IsWord text) {c : Char} (hc : InWord c) : IsWord (text ++ [c]) := by
  cases text with
  | nil => exact h.elim
  | cons b text =>
      refine ⟨h.1, fun d hd => ?_⟩
      rcases List.mem_append.1 hd with hd | hd
      · exact h.2 d hd
      · exact List.mem_singleton.1 hd ▸ hc

/-- A token that is the longest piece where it stands is not made longer by what is behind it. -/
theorem endsBefore_of_longest (h : t.kind.Lexeme t.lexeme.toList)
    (hmax : ∀ q : Piece, q.Regular → q.text <+: t.lexeme.toList ++ behind →
      q.text.length ≤ t.lexeme.toList.length) : t.EndsBefore behind := by
  have hno : ∀ q : Piece, q.Regular → ∀ more, more ≠ [] → more <+: behind →
      q.text ≠ t.lexeme.toList ++ more := by
    intro q hq more hmore hbehind htext
    have hle := hmax q hq (by rw [htext]; exact (List.prefix_append_right_inj _).2 hbehind)
    have hpos := List.length_pos_iff.2 hmore
    rw [htext, List.length_append] at hle
    omega
  have hlongest : ∀ (k : Kind) (more : List Char), more ≠ [] → more <+: behind →
      ¬ k.Lexeme (t.lexeme.toList ++ more) :=
    fun k more hmore hbehind hk => hno _ (.lexeme hk) more hmore hbehind rfl
  have hsingle : ∀ (k : Kind) (c : Char), c ∈ behind.head? →
      ¬ k.Lexeme (t.lexeme.toList ++ [c]) := by
    intro k c hc
    obtain ⟨rest, rfl⟩ := List.head?_eq_some_iff.1 hc
    exact hlongest k [c] (List.cons_ne_nil _ _) ⟨rest, rfl⟩
  refine ⟨?_, ?_, ?_, ?_, ?_, hlongest⟩
  · intro hk c hc hd
    rw [hk] at h
    exact hsingle _ c hc (h.number_concat hd)
  · rintro hk hpoint d rest rfl hd
    rw [hk] at h
    exact hlongest _ ['.', d] (List.cons_ne_nil _ _) ⟨rest, rfl⟩ (h.number_point hpoint hd)
  · intro hw c hc hin
    exact hsingle _ c hc (kindOfWord_lexeme (hw.concat hin))
  · intro hk heq
    have hlonger : ∀ p ∈ Kind.symbols, p.1 ∈ [Kind.bang, .equal, .less, .greater] →
        p.2 ++ ['='] ∈ Kind.symbols.map Prod.snd := by decide
    have hsymbol : ∀ k ∈ [Kind.bang, .equal, .less, .greater],
        k ∈ Kind.symbols.map Prod.fst := by decide
    obtain ⟨⟨k, _⟩, hlong, rfl⟩ := List.mem_map.1 (hlonger _ (h.mem_symbols (hsymbol _ hk)) hk)
    exact hsingle k '=' heq (.symbol hlong)
  · intro hk heq
    have hslash : ∀ p ∈ Kind.symbols, p.1 = .slash → p.2 = ['/'] := by decide
    rw [hk] at h
    have htext : t.lexeme.toList = ['/'] := hslash _ (h.mem_symbols (by decide)) rfl
    obtain ⟨rest, rfl⟩ := List.head?_eq_some_iff.1 heq
    -- What would be longer here is a comment, not a token.
    exact hno _ (.comment List.not_mem_nil) ['/'] (List.cons_ne_nil _ _) ⟨rest, rfl⟩
      (by rw [htext]; rfl)

end

/-! ### Items that are found -/

section

variable {cs before behind : List Char} {t : Token} {c : Char} {s : String}

/-- What is found as a token. -/
theorem Finds.token (h : Finds cs before (.ok t) behind) :
    cs = before ++ t.lexeme.toList ++ behind ∧ t.kind.Lexeme t.lexeme.toList ∧
      t.literal? = Piece.literal? t.kind t.lexeme.toList ∧ t.EndsBefore behind := by
  obtain ⟨p, rest, hc, hp, hi⟩ := h
  rw [Located.item?, Piece.item?] at hi
  split at hi <;> rename_i hrole <;> cases hi
  cases hp with
  | longest hrest hreg hmax =>
      cases hreg with
      | white | comment => cases hrole
      | @lexeme _ text hk =>
          cases hrole
          subst hrest
          have htext : (String.ofList text).toList = text := String.toList_ofList
          rw [htext]
          refine ⟨?_, hk, rfl, endsBefore_of_longest (htext.symm ▸ hk) (htext.symm ▸ hmax)⟩
          rw [hc.append, List.append_assoc]
  | unclosed | stray => cases hrole

/-- What is found as an unexpected character. -/
theorem finds_unexpectedCharacter :
    (∃ e, e.cause = .unexpectedCharacter c ∧ Finds cs before (.error e) behind) ↔
      Comes cs before (c :: behind) ∧ ¬ IsWhite c ∧
        ∀ k text, Kind.Lexeme k text → text.head? ≠ some c := by
  constructor
  · rintro ⟨e, he, p, rest, hc, hp, hi⟩
    rw [Located.item?, Piece.item?] at hi
    split at hi <;> rename_i hrole <;> cases hi <;> cases he
    cases hp with
    | longest _ hreg => cases hreg <;> cases hrole
    | unclosed => cases hrole
    | stray hrest hno =>
        cases hrole
        subst hrest
        exact ⟨hc, fun h => hno _ (.white h) rfl, fun k text h => hno _ (.lexeme h)⟩
  · rintro ⟨hc, hwhite, hno⟩
    refine ⟨_, rfl, ⟨[c], .stray c⟩, _, hc, .stray rfl fun q hq hhead => ?_, rfl⟩
    cases hq with
    | white h =>
        cases hhead
        exact hwhite h
    | comment =>
        -- A slash starts a comment, but a token as well.
        cases hhead
        exact hno .slash ['/'] (.symbol (by decide)) rfl
    | lexeme h => exact hno _ _ h hhead

/-- What is scanned is what is found. -/
theorem mem_items_iff_finds {i : Item} :
    i ∈ (Scan.ofString s).items ↔ ∃ before behind, Finds s.toList before i behind := by
  rw [mem_items]
  constructor
  · rintro ⟨l, hl, hi⟩
    obtain ⟨rest, behind, hc, hp⟩ := (mem_locate_iff (munched_pieces s.toList)).1 hl
    exact ⟨l.before, behind, l.piece, rest, hc, hp, hi⟩
  · rintro ⟨before, behind, p, rest, hc, hp, hi⟩
    exact ⟨⟨before, p⟩, (mem_locate_iff (munched_pieces s.toList)).2 ⟨rest, behind, hc, hp⟩, hi⟩

/-- A token of a scan is found, or stands for the end of the text. -/
theorem finds_of_mem_tokens (ht : t ∈ (Scan.ofString s).tokens) :
    (∃ before behind, Finds s.toList before (.ok t) behind) ∨
      t = (Scan.ofString s).last ∧ t.kind = .eof ∧ t.lexeme = "" := by
  rcases List.mem_append.1 ht with ht | ht
  · exact .inl (mem_items_iff_finds.1 (mem_filterMap_toOption.1 ht))
  · refine .inr ⟨List.mem_singleton.1 ht, ?_⟩
    rw [List.mem_singleton.1 ht, scan_ofString]
    exact ⟨rfl, rfl⟩

end

/-! ### Lexemes of strings and words -/

section

variable {text : List Char} {k : Kind}

/-- A string, and the text between its quotes. -/
theorem Kind.Lexeme.exists_body (h : Kind.Lexeme .string text) :
    ∃ body, '"' ∉ body ∧ text = '"' :: body ++ ['"'] ∧
      Piece.literal? .string text = some (.string (String.ofList body)) := by
  cases h with
  | @string body hb => exact ⟨body, hb, rfl, by simp [Piece.literal?]⟩
  | reserved _ hw => exact absurd hw (by simp [Kind.reservedWords])
  | symbol h => exact absurd h (by simp [Kind.symbols])

/-- A lexeme that is no string is a symbol, or else it is made of what words are made of, and perhaps
of a point. -/
theorem Kind.Lexeme.inWord_or_symbol (h : k.Lexeme text) (hk : k ≠ .string) :
    (∀ c ∈ text, InWord c ∨ c = '.') ∨ (k, text) ∈ Kind.symbols := by
  have hdigits : ∀ {ds : List Char}, IsDigits ds → ∀ c ∈ ds, InWord c := fun hds c hc =>
    inWord_of_isDigit (hds.2 c hc)
  cases h with
  | whole h => exact .inl fun c hc => .inl (hdigits h c hc)
  | fraction h hf =>
      refine .inl fun c hc => ?_
      rcases List.mem_append.1 hc with hc | hc
      · exact .inl (hdigits h c hc)
      · exact (List.mem_cons.1 hc).symm.imp_left (hdigits hf c)
  | string => exact absurd rfl hk
  | reserved h | identifier h => exact .inl fun c hc => .inl (h.inWord c hc)
  | symbol h => exact .inr h

/-- The kind of a word. -/
theorem Kind.Lexeme.word_cases (h : k.Lexeme text) (hw : IsWord text) :
    (String.ofList text, k) ∈ Kind.reservedWords ∨
      k = .identifier ∧ ∀ k', (String.ofList text, k') ∉ Kind.reservedWords := by
  obtain ⟨c, more, rfl⟩ := List.exists_cons_of_ne_nil (Piece.Regular.lexeme h).text_ne_nil
  -- Nothing else starts with a letter.
  have hfits := (Piece.Regular.lexeme h).front rfl
  rw [front_letter hw.1] at hfits
  obtain rfl : k = kindOfWord (c :: more) := Piece.Role.token.inj hfits.1
  by_cases hk : ∃ k', (String.ofList (c :: more), k') ∈ Kind.reservedWords
  · obtain ⟨k', hk'⟩ := hk
    rw [kindOfWord_eq_of_mem hk']
    exact .inl hk'
  · have hno := not_exists.1 hk
    exact .inr ⟨kindOfWord_eq_identifier hno, hno⟩

end

/-- **Longest match.**  A scan is what the lexical grammar makes of its text. -/
theorem scans_longest (s : String) : (Scan.ofString s).LongestMatch s where
  items := by
    refine ⟨pieces s.toList, fun _ => munched_iff, ?_⟩
    rw [scan_ofString]
    rfl
  mem_items := fun _ => mem_items_iff_finds
  lexeme := by
    intro t ht
    rcases finds_of_mem_tokens ht with ⟨before, behind, h⟩ | hlast
    · exact .inl h.token.2.1
    · exact .inr hlast
  string := by
    intro t ht hk
    rcases finds_of_mem_tokens ht with ⟨before, behind, h⟩ | ⟨-, heof, -⟩
    · obtain ⟨-, hlexeme, hliteral, -⟩ := h.token
      rw [hk] at hlexeme hliteral
      obtain ⟨body, hb, htext, hvalue⟩ := hlexeme.exists_body
      refine ⟨String.ofList body, by rwa [String.toList_ofList], ?_, by rw [hliteral, hvalue]⟩
      rw [← String.toList_inj, htext]
      simp
    · rw [hk] at heof
      cases heof
  word := by
    intro t ht hw
    rcases finds_of_mem_tokens ht with ⟨before, behind, h⟩ | ⟨-, -, hempty⟩
    · have hcases := h.token.2.1.word_cases hw
      rwa [String.ofList_toList] at hcases
    · rw [hempty] at hw
      exact hw.elim
  token := by
    intro before t behind h
    exact ⟨h.token.1, h.token.2.2.2⟩
  unexpectedCharacter := fun _ _ _ => finds_unexpectedCharacter

end Lox.Token
