import Mathlib.Algebra.Order.Ring.Rat
import Mathlib.Data.List.TakeWhile
import Lox.Number.Shortest

/-!
# Proofs — Number — Decimal numerals

What stands for a number in a text: perhaps a sign, digits, perhaps a point and further digits,
perhaps an `e` and the power of ten that goes with it, which may have a sign of its own.  A
`Numeral` is such a text with its parts told apart, and `Numeral.value` is the number.

**One reading** (`Numeral.read?_eq_some_iff`).  A text is read as at most one numeral, the one whose
text it is.  Digits end where there is no other digit, and no mark is a digit, so every part is
known to be complete before the next one is read (`Reads`).
-/

namespace Lox.Number

/-- A sign in front of digits. -/
inductive Sign where
  | minus
  | plus

/-- One digit or more. -/
@[ext]
structure Digits where
  chars : List Char
  ne_nil : chars ≠ []
  isDigit : ∀ c ∈ chars, c.isDigit

/-- Digits, perhaps with a sign. -/
structure Signed where
  sign? : Option Sign
  digits : Digits

/-- A decimal numeral. -/
structure Numeral where
  whole : Signed
  fraction? : Option Digits
  exponent? : Option Signed

/-! ### Texts -/

def Sign.char : Sign → Char
  | minus => '-'
  | plus => '+'

def signText (sign? : Option Sign) : List Char := (sign?.map Sign.char).toList

def Signed.text (n : Signed) : List Char := signText n.sign? ++ n.digits.chars

/-- The text of a part that a mark announces, if the part is there. -/
def marked {α : Type} (mark : Char) (text : α → List Char) : Option α → List Char
  | none => []
  | some a => mark :: text a

def Numeral.text (n : Numeral) : List Char :=
  n.whole.text ++ (marked '.' Digits.chars n.fraction? ++ marked 'e' Signed.text n.exponent?)

/-! ### Values -/

/-- What a sign multiplies a number by. -/
def signFactor : Option Sign → Int
  | some .minus => -1
  | _ => 1

def Signed.value (n : Signed) : Int := signFactor n.sign? * ofDigits n.digits.chars

/-- The digits behind the point. -/
def Numeral.fraction (n : Numeral) : List Char := n.fraction?.elim [] Digits.chars

/-- The power of ten that goes with the digit in front of the point. -/
def Numeral.exponent (n : Numeral) : Int := n.exponent?.elim 0 Signed.value

/-- The number that a numeral denotes. -/
def Numeral.value (n : Numeral) : ℚ :=
  signFactor n.whole.sign? * ofDigits (n.whole.digits.chars ++ n.fraction) *
    10 ^ (n.exponent - n.fraction.length)

/-! ### Reading -/

def Sign.ofChar? : Char → Option Sign
  | '-' => some minus
  | '+' => some plus
  | _ => none

/-- All digits at the front of a text, and what is behind them. -/
def Digits.read? (text : List Char) : Option (Digits × List Char) :=
  if h : text.takeWhile Char.isDigit = [] then none
  else some (⟨text.takeWhile Char.isDigit, h, fun _ => List.mem_takeWhile_imp⟩,
    text.dropWhile Char.isDigit)

/-- A sign, if there is one in front, and what is behind it. -/
def Sign.read : List Char → Option Sign × List Char
  | [] => (none, [])
  | c :: cs =>
      match Sign.ofChar? c with
      | some s => (some s, cs)
      | none => (none, c :: cs)

def Signed.read? (text : List Char) : Option (Signed × List Char) :=
  (Digits.read? (Sign.read text).2).map fun r => (⟨(Sign.read text).1, r.1⟩, r.2)

/-- A part that a mark announces, if the mark is there. -/
def readMarked? {α : Type} (mark : Char) (read? : List Char → Option (α × List Char)) :
    List Char → Option (Option α × List Char)
  | [] => some (none, [])
  | c :: cs =>
      if c = mark then (read? cs).map fun r => (some r.1, r.2) else some (none, c :: cs)

/-- A whole text, read as a numeral. -/
def Numeral.read? (text : List Char) : Option Numeral := do
  let (whole, text) ← Signed.read? text
  let (fraction?, text) ← readMarked? '.' Digits.read? text
  let (exponent?, text) ← readMarked? 'e' Signed.read? text
  if text.isEmpty then some ⟨whole, fraction?, exponent?⟩ else none

/-! ### One reading -/

/-- Whether a text does not go on with a digit. -/
def Ends (text : List Char) : Prop := ∀ c ∈ text.head?, c.isDigit = false

/-- What a reader takes off the front is the text of what it answers, and it takes that off wherever
no digit is next. -/
structure Reads {α : Type} (read? : List Char → Option (α × List Char)) (text : α → List Char) :
    Prop where
  sound : ∀ {cs a rest}, read? cs = some (a, rest) → cs = text a ++ rest
  complete : ∀ a {rest}, Ends rest → read? (text a ++ rest) = some (a, rest)

theorem ends_nil : Ends [] := fun _ h => nomatch h

theorem ends_marked {α : Type} {mark : Char} {text : α → List Char} {rest : List Char}
    (hmark : mark.isDigit = false) (h : Ends rest) (a? : Option α) :
    Ends (marked mark text a? ++ rest) := by
  cases a? with
  | none => exact h
  | some a =>
      rintro c ⟨⟩
      exact hmark

theorem takeWhile_of_ends {rest : List Char} (h : Ends rest) :
    rest.takeWhile Char.isDigit = [] := by
  cases rest with
  | nil => rfl
  | cons c cs => exact List.takeWhile_cons_of_neg (by simp [h c rfl])

theorem dropWhile_of_ends {rest : List Char} (h : Ends rest) :
    rest.dropWhile Char.isDigit = rest := by
  cases rest with
  | nil => rfl
  | cons c cs => exact List.dropWhile_cons_of_neg (by simp [h c rfl])

theorem reads_digits : Reads Digits.read? Digits.chars where
  sound {cs ds rest} h := by
    unfold Digits.read? at h
    split at h
    · cases h
    · cases h
      exact List.takeWhile_append_dropWhile.symm
  complete ds rest h := by
    have htake : (ds.chars ++ rest).takeWhile Char.isDigit = ds.chars := by
      rw [List.takeWhile_append_of_pos ds.isDigit, takeWhile_of_ends h, List.append_nil]
    have hdrop : (ds.chars ++ rest).dropWhile Char.isDigit = rest := by
      rw [List.dropWhile_append_of_pos ds.isDigit, dropWhile_of_ends h]
    rw [Digits.read?, dif_neg (htake.symm ▸ ds.ne_nil)]
    exact congrArg some (Prod.ext (Digits.ext htake) hdrop)

theorem Sign.char_of_ofChar? {c : Char} {s : Sign} (h : Sign.ofChar? c = some s) :
    s.char = c := by
  unfold Sign.ofChar? at h
  split at h <;> cases h <;> rfl

theorem Sign.ofChar?_char (s : Sign) : Sign.ofChar? s.char = some s := by
  cases s <;> rfl

/-- A digit is not a sign. -/
theorem Sign.ofChar?_of_isDigit {c : Char} (h : c.isDigit) : Sign.ofChar? c = none := by
  unfold Sign.ofChar?
  split
  · cases h
  · cases h
  · rfl

theorem Sign.text_read (text : List Char) :
    signText (Sign.read text).1 ++ (Sign.read text).2 = text := by
  cases text with
  | nil => rfl
  | cons c cs =>
      rw [Sign.read]
      split
      · rename_i s hs
        rw [← Sign.char_of_ofChar? hs]
        rfl
      · rfl

theorem Sign.read_text (sign? : Option Sign) {c : Char} (h : c.isDigit) (cs : List Char) :
    Sign.read (signText sign? ++ c :: cs) = (sign?, c :: cs) := by
  cases sign? with
  | none =>
      change Sign.read (c :: cs) = _
      rw [Sign.read, Sign.ofChar?_of_isDigit h]
  | some s =>
      change Sign.read (s.char :: c :: cs) = _
      rw [Sign.read, Sign.ofChar?_char]

theorem reads_signed : Reads Signed.read? Signed.text where
  sound {cs n rest} h := by
    obtain ⟨⟨ds, rest'⟩, hread, hn⟩ := Option.map_eq_some_iff.1 h
    cases hn
    rw [Signed.text, List.append_assoc, ← reads_digits.sound hread, Sign.text_read]
  complete n rest h := by
    obtain ⟨c, cs, hcs⟩ := List.exists_cons_of_ne_nil n.digits.ne_nil
    have hdigit : c.isDigit := n.digits.isDigit c (hcs ▸ List.mem_cons_self)
    have hread : Sign.read (n.text ++ rest) = (n.sign?, n.digits.chars ++ rest) := by
      rw [Signed.text, hcs, List.append_assoc, List.cons_append, Sign.read_text n.sign? hdigit]
    rw [Signed.read?, hread, reads_digits.complete n.digits h]
    rfl

section Marked

variable {α : Type} {mark : Char} {read? : List Char → Option (α × List Char)}
  {text : α → List Char} {cs rest : List Char}

theorem marked_sound (hread : Reads read? text) {a? : Option α}
    (h : readMarked? mark read? cs = some (a?, rest)) : cs = marked mark text a? ++ rest := by
  cases cs with
  | nil =>
      cases h
      rfl
  | cons c cs =>
      rw [readMarked?] at h
      split at h
      · rename_i hmark
        obtain ⟨⟨a, rest'⟩, ha, heq⟩ := Option.map_eq_some_iff.1 h
        cases heq
        rw [hread.sound ha, hmark]
        rfl
      · cases h
        rfl

/-- Where neither a digit nor the mark is next, a marked part is read to its end. -/
theorem marked_complete (hread : Reads read? text) (a? : Option α) (hends : Ends rest)
    (hmark : ∀ c ∈ rest.head?, c ≠ mark) :
    readMarked? mark read? (marked mark text a? ++ rest) = some (a?, rest) := by
  cases a? with
  | none =>
      cases rest with
      | nil => rfl
      | cons c cs => exact if_neg (hmark c rfl)
  | some a =>
      change readMarked? mark read? (mark :: (text a ++ rest)) = _
      rw [readMarked?, if_pos rfl, hread.complete a hends]
      rfl

end Marked

/-- **One reading.**  A text is read as the numeral whose text it is, and as no other. -/
theorem Numeral.read?_eq_some_iff {text : List Char} {n : Numeral} :
    Numeral.read? text = some n ↔ n.text = text := by
  constructor
  · intro h
    simp only [Numeral.read?, Option.bind_eq_bind, Option.bind_eq_some_iff] at h
    obtain ⟨⟨whole, behind⟩, hwhole, ⟨fraction?, behind'⟩, hfraction, ⟨exponent?, behind''⟩,
      hexponent, hend⟩ := h
    dsimp only at hfraction hexponent hend
    split at hend
    · rename_i hnil
      cases hend
      rw [reads_signed.sound hwhole, marked_sound reads_digits hfraction,
        marked_sound reads_signed hexponent, List.isEmpty_iff.1 hnil, List.append_nil]
      rfl
    · cases hend
  · rintro rfl
    have hend : readMarked? 'e' Signed.read? (marked 'e' Signed.text n.exponent?) =
        some (n.exponent?, []) := by
      rw [← List.append_nil (marked 'e' Signed.text n.exponent?)]
      exact marked_complete reads_signed n.exponent? ends_nil fun c h => nomatch h
    have hexponent : Ends (marked 'e' Signed.text n.exponent?) := by
      rw [← List.append_nil (marked 'e' Signed.text n.exponent?)]
      exact ends_marked rfl ends_nil _
    have hpoint : ∀ c ∈ (marked 'e' Signed.text n.exponent?).head?, c ≠ '.' := by
      cases n.exponent? with
      | none => exact fun c h => nomatch h
      | some e =>
          rintro c ⟨⟩
          decide
    have hfraction := marked_complete reads_digits n.fraction? hexponent hpoint
    have hbehind : Ends (marked '.' Digits.chars n.fraction? ++
        marked 'e' Signed.text n.exponent?) := ends_marked rfl hexponent _
    simp [Numeral.read?, Numeral.text, reads_signed.complete n.whole hbehind, hfraction, hend]

example : (Numeral.read? "1.e5".toList).isNone := by decide

/-- Numerals with one text are one numeral. -/
theorem Numeral.text_injective : Function.Injective Numeral.text := fun n n' h => by
  have hn : Numeral.read? n'.text = some n := read?_eq_some_iff.2 h
  rw [read?_eq_some_iff.2 rfl] at hn
  exact (Option.some.inj hn).symm

end Lox.Number
