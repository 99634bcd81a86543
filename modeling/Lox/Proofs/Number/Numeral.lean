import Mathlib.Algebra.Order.Field.Rat
import Mathlib.Data.Int.CharZero
import Lox.Number.Numeral
import Lox.Proofs.Number.Binary64
import Lox.Proofs.Number.Decimal

/-!
# Proofs — Number — Doubles are written as numerals

**Shortest decimals** (`word_shortest`).  The shortest decimal of a double has its word, for a
candidate is only taken if it reads back, and the last one is the double itself.

**Numerals** (`toList_text`, `value_numeral`).  In every layout the text of a finite double is that
of a numeral, and the numeral denotes the shortest decimal with its sign.  Only zeros are trimmed,
behind the point or behind all digits, and where the point stands or what power of ten is written
makes up for them (`value_of_zeros`).

**Read back** (`text_plain_injective`).  Finite doubles that are written alike, without an exponent,
are the same.  What makes such a text is a digit, or the point (`mem_positionalText`), and it starts
with a digit (`head?_positionalText`), so that a sign in front is told apart.
-/

namespace Lox.Number

variable {x y : Float} {d n : Nat} {ds : List Char}

/-! ### Shortest decimals -/

theorem readsBack_iff (x : Float) (d : Nat) :
    readsBack x d ↔ word d decimalUnit = unsignedWord x := by
  unfold readsBack
  exact beq_iff_eq

/-- Of two candidates, none is taken that is not accepted. -/
theorem accepts_of_nearest? {accepts : Nat → Bool} {exact grid : Nat}
    (h : nearest? accepts exact grid = some d) : accepts d := by
  rw [nearest?] at h
  split at h <;> rename_i hbelow habove <;> cases h
  · split
    · exact hbelow
    · exact habove
  · exact hbelow
  · exact habove

theorem readsBack_of_onGrid? {grid : Nat} (h : onGrid? x grid = some d) : readsBack x d :=
  accepts_of_nearest? h

theorem readsBack_shortestFrom (h : x.isFinite) (e : Nat) : readsBack x (shortestFrom x e) := by
  unfold shortestFrom
  cases hfound : (List.range e).reverse.findSome? fun i => onGrid? x (Nat.pow 10 (i + 1)) with
  | some d =>
      obtain ⟨i, -, hi⟩ := List.exists_of_findSome?_eq_some hfound
      exact readsBack_of_onGrid? hi
  | none => exact (readsBack_iff x _).2 (word_exactDecimal h)

/-- The shortest decimal of a finite double reads back to it. -/
theorem word_shortest (h : x.isFinite) : word (shortest x) decimalUnit = unsignedWord x :=
  (readsBack_iff x _).1 (readsBack_shortestFrom h _)

/-- Nothing but the word decides on the shortest decimal. -/
theorem shortest_congr (h : unsignedWord x = unsignedWord y) : shortest x = shortest y := by
  have hexact : exactDecimal x = exactDecimal y := by
    rw [exactDecimal, exactDecimal, magnitude, magnitude, h]
  have hreads : readsBack x = readsBack y := by
    funext d
    rw [readsBack, readsBack, h]
  simp only [shortest, shortestFrom, onGrid?, hexact, hreads]

theorem magnitude_eq_zero_iff : magnitude x = 0 ↔ unsignedWord x = 0 := by
  have hunit := fieldUnit_pos
  rw [magnitude, unitsOfWord]
  split_ifs
  · rfl
  · have hpos := Nat.two_pow_pos (unsignedWord x / fieldUnit - 1)
    simp only [Nat.pow_eq, Nat.mul_eq_zero]
    omega

theorem shortest_eq_zero_iff (h : x.isFinite) : shortest x = 0 ↔ unsignedWord x = 0 := by
  constructor
  · intro hzero
    rw [← word_shortest h, hzero]
    exact word_zero _
  · intro hword
    have hexact : exactDecimal x = 0 := by
      unfold exactDecimal
      generalize 1074 = n
      rw [magnitude_eq_zero_iff.2 hword, Nat.zero_mul]
    simp [shortest, shortestFrom, leadingPower, hexact]

/-! ### Digits -/

theorem ofDigits_digits (n : Nat) : ofDigits (digits n) = n := by
  rw [ofDigits, ← Nat.ofDigitChars_eq_foldl, digits, Nat.ofDigitChars_ten_toDigits]

theorem isDigit_of_mem_digits {c : Char} (h : c ∈ digits n) : c.isDigit :=
  Nat.isDigit_of_mem_toDigits (by decide) (by decide) h

theorem digits_ne_nil (n : Nat) : digits n ≠ [] := Nat.toDigits_ne_nil

theorem length_digits_le (h : n < decimalUnit) : (digits n).length ≤ 1074 := by
  unfold decimalUnit at h
  generalize hk : 1074 = k at h ⊢
  exact (Nat.length_toDigits_le_iff (by decide) (by omega)).2 h

theorem ofDigits_append (ds es : List Char) :
    ofDigits (ds ++ es) = ofDigits ds * 10 ^ es.length + ofDigits es := by
  simp only [ofDigits, ← Nat.ofDigitChars_eq_foldl, Nat.ofDigitChars_append]
  rw [Nat.ofDigitChars_eq_ofDigitChars_zero, Nat.mul_comm]

theorem ofDigits_zeros (n : Nat) : ofDigits (List.replicate n '0') = 0 := by
  rw [ofDigits, ← Nat.ofDigitChars_eq_foldl, Nat.ofDigitChars_replicate_zero, Nat.mul_zero]

/-- Every zero behind digits is a factor of ten. -/
theorem ofDigits_append_zeros (ds : List Char) (k : Nat) :
    ofDigits (ds ++ List.replicate k '0') = ofDigits ds * 10 ^ k := by
  rw [ofDigits_append, ofDigits_zeros, List.length_replicate, Nat.add_zero]

/-- Only zeros are trimmed. -/
theorem exists_trimZeros (ds : List Char) : ∃ k, ds = trimZeros ds ++ List.replicate k '0' := by
  refine ⟨(ds.reverse.takeWhile (· = '0')).length, ?_⟩
  have hzeros : ds.reverse.takeWhile (· = '0') =
      List.replicate (ds.reverse.takeWhile (· = '0')).length '0' := by
    refine List.eq_replicate_iff.2 ⟨rfl, fun c hc => ?_⟩
    have hzero := List.mem_takeWhile_imp hc
    exact of_decide_eq_true hzero
  have hsplit := congrArg List.reverse
    (List.takeWhile_append_dropWhile (p := fun c => decide (c = '0')) (l := ds.reverse))
  rw [List.reverse_append, List.reverse_reverse, hzeros, List.reverse_replicate] at hsplit
  exact hsplit.symm

/-- The digits of a natural number. -/
def Digits.ofNat (n : Nat) : Digits := ⟨digits n, digits_ne_nil n, fun _ => isDigit_of_mem_digits⟩

/-- The digits in a list, if it is a list of digits and not empty. -/
def Digits.ofList? (cs : List Char) : Option Digits :=
  if h : cs ≠ [] ∧ cs.all Char.isDigit then some ⟨cs, h.1, List.all_eq_true.1 h.2⟩ else none

theorem Digits.ofList?_nil : Digits.ofList? [] = none := rfl

theorem Digits.ofList?_of_ne_nil {cs : List Char} (h : cs ≠ []) (hdigit : ∀ c ∈ cs, c.isDigit) :
    Digits.ofList? cs = some ⟨cs, h, hdigit⟩ := dif_pos ⟨h, List.all_eq_true.2 hdigit⟩

theorem Digits.elim_ofList? {cs : List Char} (h : ∀ c ∈ cs, c.isDigit) :
    (Digits.ofList? cs).elim [] Digits.chars = cs := by
  by_cases hnil : cs = []
  · rw [hnil, Digits.ofList?_nil]
    rfl
  · rw [Digits.ofList?_of_ne_nil hnil h]
    rfl

theorem trimZeros_ne_nil {ds : List Char} (h : ofDigits ds ≠ 0) : trimZeros ds ≠ [] := by
  intro hnil
  obtain ⟨k, hk⟩ := exists_trimZeros ds
  rw [hnil, List.nil_append] at hk
  rw [hk, ofDigits_zeros] at h
  exact h rfl

theorem mem_of_mem_trimZeros {c : Char} (h : c ∈ trimZeros ds) : c ∈ ds := by
  obtain ⟨k, hk⟩ := exists_trimZeros ds
  rw [hk]
  exact List.mem_append_left _ h

theorem cast_decimalUnit_pos : (0 : ℚ) < decimalUnit := Nat.cast_pos.2 decimalUnit_pos

theorem cast_decimalUnit_ne_zero : (decimalUnit : ℚ) ≠ 0 := cast_decimalUnit_pos.ne'

/-- Digits with zeros behind them, in units of 10^-1074. -/
theorem value_of_zeros {m k : Nat} {e : Int} (hd : m * 10 ^ k = d) (he : e + (1074 : Nat) = k) :
    (m : ℚ) * 10 ^ e = d / decimalUnit := by
  unfold decimalUnit
  generalize 1074 = n at he ⊢
  rw [eq_sub_of_add_eq he, ← hd, Nat.pow_eq, zpow_sub₀ (by decide), zpow_natCast, zpow_natCast,
    ← mul_div_assoc, Nat.cast_mul, Nat.cast_pow, Nat.cast_pow]
  rfl

/-! ### Decimals without an exponent -/

/-- The digits in front of the point. -/
def wholeDigits (d : Nat) : Digits := .ofNat (d / decimalUnit)

/-- All digits behind the point. -/
def paddedDigits (d : Nat) : List Char :=
  List.replicate (1074 - (digits (d % decimalUnit)).length) '0' ++ digits (d % decimalUnit)

/-- The digits that are written behind the point. If the decimal is whole, this is a zero or none. -/
def fractionDigits (pointZero : Bool) (d : Nat) : List Char :=
  if d % decimalUnit = 0 then if pointZero then ['0'] else [] else trimZeros (paddedDigits d)

/-- The numeral of a decimal, without an exponent. -/
def Numeral.positional (sign? : Option Sign) (pointZero : Bool) (d : Nat) : Numeral where
  whole := ⟨sign?, wholeDigits d⟩
  fraction? := Digits.ofList? (fractionDigits pointZero d)
  exponent? := none

theorem isDigit_of_mem_fractionDigits {pointZero : Bool} {c : Char}
    (h : c ∈ fractionDigits pointZero d) : c.isDigit := by
  rw [fractionDigits] at h
  split_ifs at h
  · rw [List.mem_singleton.1 h]
    rfl
  · cases h
  · rcases List.mem_append.1 (mem_of_mem_trimZeros h) with hmem | hmem
    · rw [List.eq_of_mem_replicate hmem]
      rfl
    · exact isDigit_of_mem_digits hmem

theorem length_paddedDigits (d : Nat) : (paddedDigits d).length = 1074 := by
  have hlen := length_digits_le (Nat.mod_lt d decimalUnit_pos)
  rw [paddedDigits, List.length_append, List.length_replicate]
  omega

theorem ofDigits_paddedDigits (d : Nat) : ofDigits (paddedDigits d) = d % decimalUnit := by
  rw [paddedDigits, ofDigits_append, ofDigits_zeros, Nat.zero_mul, Nat.zero_add, ofDigits_digits]

theorem decimalUnit_eq (d : Nat) : decimalUnit = 10 ^ (paddedDigits d).length := by
  rw [length_paddedDigits]
  unfold decimalUnit
  generalize 1074 = n
  rfl

/-- All digits of a decimal. -/
theorem ofDigits_padded (d : Nat) : ofDigits ((wholeDigits d).chars ++ paddedDigits d) = d := by
  have hwhole : ofDigits (wholeDigits d).chars = d / decimalUnit := ofDigits_digits _
  rw [ofDigits_append, ofDigits_paddedDigits, ← decimalUnit_eq, hwhole]
  exact Nat.div_add_mod' d decimalUnit

/-- The digits of a decimal are those that are written, and zeros. -/
theorem exists_zeros (pointZero : Bool) (d : Nat) :
    ∃ k, (fractionDigits pointZero d).length + k = 1074 ∧
      ofDigits ((wholeDigits d).chars ++ fractionDigits pointZero d) * 10 ^ k = d := by
  have hzeros : ∃ k, paddedDigits d = fractionDigits pointZero d ++ List.replicate k '0' := by
    rw [fractionDigits]
    split_ifs with hzero hpoint
    · rw [paddedDigits, hzero, digits, Nat.toDigits_zero, ← List.replicate_succ']
      have hcons : ∀ n, List.replicate (n + 1) '0' = ['0'] ++ List.replicate n '0' :=
        fun _ => List.replicate_succ
      exact ⟨_, hcons _⟩
    · rw [paddedDigits, hzero, digits, Nat.toDigits_zero, ← List.replicate_succ']
      exact ⟨_, (List.nil_append _).symm⟩
    · exact exists_trimZeros _
  obtain ⟨k, hk⟩ := hzeros
  refine ⟨k, ?_, ?_⟩
  · rw [← length_paddedDigits d, hk, List.length_append, List.length_replicate]
  · rw [← ofDigits_append_zeros, List.append_assoc, ← hk, ofDigits_padded]

/-- What is written behind the digits in front of the point. -/
def pointText (pointZero : Bool) (d : Nat) : List Char :=
  if d % decimalUnit = 0 then if pointZero then ['.', '0'] else []
  else '.' :: trimZeros (paddedDigits d)

theorem toList_positionalText (pointZero : Bool) (d : Nat) :
    (positionalText pointZero d).toList = (wholeDigits d).chars ++ pointText pointZero d := by
  unfold positionalText wholeDigits Digits.ofNat pointText paddedDigits
  generalize decimalUnit = unit, 1074 = n
  by_cases hzero : d % unit = 0
  · cases pointZero <;> simp [hzero]
  · simp [hzero]

/-- There is a point if there are digits behind it. -/
theorem pointText_eq (pointZero : Bool) (d : Nat) : pointText pointZero d =
    marked '.' Digits.chars (Digits.ofList? (fractionDigits pointZero d)) := by
  have hmarked : fractionDigits pointZero d ≠ [] →
      marked '.' Digits.chars (Digits.ofList? (fractionDigits pointZero d)) =
        '.' :: fractionDigits pointZero d := fun hne => by
    rw [Digits.ofList?_of_ne_nil hne fun _ => isDigit_of_mem_fractionDigits]
    rfl
  rw [pointText]
  split_ifs with hzero hpoint
  · have hfraction : fractionDigits pointZero d = ['0'] := by
      rw [fractionDigits, if_pos hzero, if_pos hpoint]
    rw [hmarked (hfraction ▸ List.cons_ne_nil _ _), hfraction]
  · rw [fractionDigits, if_pos hzero, if_neg hpoint]
    rfl
  · have hfraction : fractionDigits pointZero d = trimZeros (paddedDigits d) := if_neg hzero
    have hne : trimZeros (paddedDigits d) ≠ [] := by
      refine trimZeros_ne_nil ?_
      rwa [ofDigits_paddedDigits]
    rw [hmarked (hfraction ▸ hne), hfraction]

theorem text_positional (sign? : Option Sign) (pointZero : Bool) (d : Nat) :
    (Numeral.positional sign? pointZero d).text =
      signText sign? ++ (positionalText pointZero d).toList := by
  rw [Numeral.text, toList_positionalText, pointText_eq, Numeral.positional, Signed.text,
    List.append_assoc]
  exact congrArg _ (congrArg _ (List.append_nil _))

theorem value_positional (sign? : Option Sign) (pointZero : Bool) (d : Nat) :
    (Numeral.positional sign? pointZero d).value = signFactor sign? * (d / decimalUnit) := by
  obtain ⟨k, hlen, hd⟩ := exists_zeros pointZero d
  have hfraction : (Numeral.positional sign? pointZero d).fraction = fractionDigits pointZero d :=
    Digits.elim_ofList? fun _ => isDigit_of_mem_fractionDigits
  have hexponent : (Numeral.positional sign? pointZero d).exponent = 0 := rfl
  rw [Numeral.value, hfraction, hexponent, mul_assoc]
  exact congrArg _ (value_of_zeros hd (by omega))

/-! ### Decimals with an exponent -/

/-- The digits of a positive number, as far as the last one that is not zero. -/
def trimmed (d : Nat) (hd : d ≠ 0) : Digits where
  chars := trimZeros (digits d)
  ne_nil := trimZeros_ne_nil ((ofDigits_digits d).symm ▸ hd)
  isDigit _ h := isDigit_of_mem_digits (mem_of_mem_trimZeros h)

def Digits.lead (ds : Digits) : Digits where
  chars := [ds.chars.head ds.ne_nil]
  ne_nil := List.cons_ne_nil _ _
  isDigit c h := ds.isDigit c (List.mem_singleton.1 h ▸ List.head_mem ds.ne_nil)

def Digits.others? (ds : Digits) : Option Digits := ofList? ds.chars.tail

/-- An integer, with a sign if it is negative or if every sign is written. -/
def Signed.ofInt (plusSign : Bool) (e : Int) : Signed where
  sign? := if e < 0 then some .minus else if plusSign then some .plus else none
  digits := .ofNat e.natAbs

/-- The power of ten of the leading digit of a decimal. -/
def decimalExponent (d : Nat) : Int := (digits d).length - 1075

/-- The numeral of a positive decimal, with an exponent. -/
def Numeral.scientific (sign? : Option Sign) (plusSign : Bool) (d : Nat) (hd : d ≠ 0) : Numeral where
  whole := ⟨sign?, (trimmed d hd).lead⟩
  fraction? := (trimmed d hd).others?
  exponent? := some (.ofInt plusSign (decimalExponent d))

theorem value_ofInt (plusSign : Bool) (e : Int) : (Signed.ofInt plusSign e).value = e := by
  have hdigits : ofDigits (Signed.ofInt plusSign e).digits.chars = e.natAbs := ofDigits_digits _
  rw [Signed.value, hdigits, Signed.ofInt]
  split_ifs <;> simp only [signFactor] <;> omega

theorem Signed.isSome_sign?_ofInt (e : Int) : (Signed.ofInt true e).sign?.isSome := by
  simp only [Signed.ofInt, if_true]
  split_ifs <;> rfl

theorem text_ofInt (plusSign : Bool) (e : Int) : (Signed.ofInt plusSign e).text =
    (if e < 0 then "-" else if plusSign then "+" else "").toList ++ digits e.natAbs := by
  rw [Signed.text, Signed.ofInt]
  split_ifs <;> rfl

theorem text_scientific (sign? : Option Sign) (plusSign : Bool) {d : Nat} (hd : d ≠ 0) :
    (Numeral.scientific sign? plusSign d hd).text =
      signText sign? ++ (exponentText plusSign d).toList := by
  have htrim : (trimmed d hd).chars = trimZeros (digits d) := rfl
  obtain ⟨lead, others, hcons⟩ := List.exists_cons_of_ne_nil (trimmed d hd).ne_nil
  have hdigits : ∀ c ∈ others, c.isDigit := fun c hc =>
    (trimmed d hd).isDigit c (hcons ▸ List.mem_cons_of_mem _ hc)
  rw [Numeral.text, Numeral.scientific, Signed.text, List.append_assoc]
  refine congrArg _ ?_
  simp only [Digits.lead, Digits.others?, hcons, List.head_cons, List.tail_cons, marked, text_ofInt]
  rw [exponentText, ← htrim, hcons]
  cases others with
  | nil => simp [Digits.ofList?_nil, decimalExponent]
  | cons c cs =>
      rw [Digits.ofList?_of_ne_nil (List.cons_ne_nil c cs) hdigits]
      simp [decimalExponent]

theorem value_scientific (sign? : Option Sign) (plusSign : Bool) {d : Nat} (hd : d ≠ 0) :
    (Numeral.scientific sign? plusSign d hd).value = signFactor sign? * (d / decimalUnit) := by
  obtain ⟨k, hk⟩ := exists_trimZeros (digits d)
  have hzeros : ofDigits (trimmed d hd).chars * 10 ^ k = d := by
    rw [← ofDigits_append_zeros, trimmed, ← hk, ofDigits_digits]
  have hlen : (digits d).length = (trimmed d hd).chars.length + k := by
    rw [congrArg List.length hk, List.length_append, List.length_replicate]
    rfl
  have hfraction : (Numeral.scientific sign? plusSign d hd).fraction = (trimmed d hd).chars.tail :=
    Digits.elim_ofList? fun c hc => (trimmed d hd).isDigit c (List.mem_of_mem_tail hc)
  have hexponent : (Numeral.scientific sign? plusSign d hd).exponent = decimalExponent d :=
    value_ofInt plusSign _
  have hchars : (trimmed d hd).lead.chars ++ (trimmed d hd).chars.tail = (trimmed d hd).chars :=
    List.cons_head_tail _
  have hpos := List.length_pos_iff.2 (trimmed d hd).ne_nil
  rw [Numeral.value, hfraction, hexponent, mul_assoc, Numeral.scientific, hchars]
  refine congrArg _ (value_of_zeros hzeros ?_)
  rw [decimalExponent, hlen, List.length_tail]
  omega

/-! ### Texts of doubles -/

/-- The sign that a double is written with. -/
def Layout.sign? (l : Layout) (x : Float) : Option Sign :=
  if negative x && (l.signsZero || magnitude x != 0) then some .minus else none

/-- The numeral of a finite double. -/
def Layout.numeral (l : Layout) (x : Float) : Numeral :=
  if h : l.isPositional x ∨ shortest x = 0 then .positional (l.sign? x) l.pointZero (shortest x)
  else .scientific (l.sign? x) l.plusSign (shortest x) (not_or.1 h).2

/-- The shortest decimal of a double, with its sign. -/
def signedShortest (x : Float) : Int := if negative x then -shortest x else shortest x

theorem toList_sign (l : Layout) (x : Float) :
    (if negative x && (l.signsZero || magnitude x != 0) then "-" else "").toList =
      signText (l.sign? x) := by
  rw [Layout.sign?]
  split_ifs <;> rfl

/-- A zero has no exponent in any layout. -/
theorem isPositional_of_zero (l : Layout) (h : magnitude x = 0) : l.isPositional x := by
  rw [Layout.isPositional, h]
  cases l.positional <;> rfl

theorem isPositional_or (l : Layout) (h : x.isFinite) :
    l.isPositional x ∨ shortest x = 0 ↔ l.isPositional x := by
  refine or_iff_left_of_imp fun hzero => isPositional_of_zero l ?_
  rwa [magnitude_eq_zero_iff, ← shortest_eq_zero_iff h]

/-- A finite double is written as its numeral. -/
theorem toList_text (l : Layout) (h : x.isFinite) : (l.text x).toList = (l.numeral x).text := by
  obtain ⟨hnan, hinf⟩ := isNaN_isInf_of_isFinite h
  rw [Layout.text, hnan, hinf, Layout.numeral]
  by_cases hpositional : l.isPositional x
  · rw [dif_pos (.inl hpositional), text_positional, ← toList_sign, ← String.toList_append]
    simp [hpositional]
  · rw [dif_neg (mt (isPositional_or l h).1 hpositional), text_scientific, ← toList_sign,
      ← String.toList_append]
    simp [hpositional]

/-- The numeral of a finite double denotes its shortest decimal. -/
theorem value_numeral (l : Layout) (h : x.isFinite) :
    (l.numeral x).value = signedShortest x / decimalUnit := by
  have hsign : signFactor (l.sign? x) * shortest x = signedShortest x := by
    rw [Layout.sign?, signedShortest]
    by_cases hmagnitude : magnitude x = 0
    · have hzero : shortest x = 0 := (shortest_eq_zero_iff h).2 (magnitude_eq_zero_iff.1 hmagnitude)
      simp [hzero]
    · cases negative x <;> simp [hmagnitude, signFactor]
  have hvalue : (l.numeral x).value = signFactor (l.sign? x) * (shortest x / decimalUnit) := by
    rw [Layout.numeral]
    split
    · exact value_positional _ _ _
    · exact value_scientific _ _ _
  rw [hvalue, ← mul_div_assoc, ← hsign, Int.cast_mul, Int.cast_natCast]

theorem exponent?_numeral (l : Layout) (h : x.isFinite) :
    (l.numeral x).exponent? =
      if l.isPositional x then none else some (.ofInt l.plusSign (decimalExponent (shortest x))) := by
  rw [Layout.numeral]
  by_cases hpositional : l.isPositional x
  · rw [dif_pos (.inl hpositional), if_pos hpositional]
    rfl
  · rw [dif_neg (mt (isPositional_or l h).1 hpositional), if_neg hpositional]
    rfl

theorem sign?_numeral (l : Layout) (x : Float) : (l.numeral x).whole.sign? = l.sign? x := by
  rw [Layout.numeral]
  split <;> rfl

/-- Without an exponent, a finite double is written as its sign and its shortest decimal. -/
theorem text_plain (h : x.isFinite) : Layout.plain.text x =
    (if negative x then "-" else "") ++ positionalText false (shortest x) := by
  obtain ⟨hnan, hinf⟩ := isNaN_isInf_of_isFinite h
  rw [Layout.text, hnan, hinf]
  simp [Layout.plain, Layout.isPositional]

/-- A decimal is written in digits, and perhaps with a point among them. -/
theorem mem_positionalText {c : Char} (h : c ∈ (positionalText false d).toList) :
    c.isDigit ∨ c = '.' := by
  rw [toList_positionalText, pointText_eq] at h
  rcases List.mem_append.1 h with h | h
  · exact .inl ((wholeDigits d).isDigit c h)
  · cases hfraction : Digits.ofList? (fractionDigits false d) with
    | none =>
        rw [hfraction] at h
        cases h
    | some ds =>
        rw [hfraction] at h
        rcases List.mem_cons.1 h with rfl | h
        · exact .inr rfl
        · exact .inl (ds.isDigit c h)

theorem head?_positionalText (d : Nat) :
    ∃ c, (positionalText false d).toList.head? = some c ∧ c.isDigit := by
  obtain ⟨c, cs, hcs⟩ := List.exists_cons_of_ne_nil (wholeDigits d).ne_nil
  refine ⟨c, ?_, (wholeDigits d).isDigit c (hcs ▸ List.mem_cons_self)⟩
  rw [toList_positionalText, hcs]
  rfl

/-- Finite doubles that are written alike are written as one numeral. -/
theorem numeral_eq_of_text (l : Layout) (hx : x.isFinite) (hy : y.isFinite)
    (h : l.text x = l.text y) : l.numeral x = l.numeral y := by
  refine Numeral.text_injective ?_
  rw [← toList_text l hx, ← toList_text l hy, h]

/-- The shortest decimal, with its sign, is known from the numeral. -/
theorem signedShortest_eq_of_numeral (l : Layout) (hx : x.isFinite) (hy : y.isFinite)
    (h : l.numeral x = l.numeral y) : signedShortest x = signedShortest y := by
  have hvalue := congrArg Numeral.value h
  rw [value_numeral l hx, value_numeral l hy, div_left_inj' cast_decimalUnit_ne_zero] at hvalue
  exact Int.cast_injective hvalue

/-- **Read back.**  Finite doubles that are written alike are the same. -/
theorem text_plain_injective (hx : x.isFinite) (hy : y.isFinite)
    (h : Layout.plain.text x = Layout.plain.text y) : x = y := by
  have hnumeral := numeral_eq_of_text .plain hx hy h
  have hsign : negative x = negative y := by
    have hsign? : Layout.plain.sign? x = Layout.plain.sign? y := by
      rw [← sign?_numeral, hnumeral, sign?_numeral]
    simp only [Layout.sign?, Layout.plain, Bool.true_or, Bool.and_true] at hsign?
    revert hsign?
    cases negative x <;> cases negative y <;> simp
  have hshortest := signedShortest_eq_of_numeral .plain hx hy hnumeral
  rw [signedShortest, signedShortest, hsign] at hshortest
  refine eq_of_word_eq hsign ?_
  rw [← word_shortest hx, ← word_shortest hy]
  split_ifs at hshortest
  · rw [Int.natCast_inj.1 (Int.neg_inj.1 hshortest)]
  · rw [Int.natCast_inj.1 hshortest]

end Lox.Number
