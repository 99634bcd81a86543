import Mathlib.Algebra.Order.Field.Rat
import Mathlib.Algebra.Order.Field.Basic
import Mathlib.Data.Int.Cast.Lemmas
import Lox.Tree.Form
import Lox.Proofs.Number.Numeral
import Lox.Proofs.Number.Order

/-!
# Proofs — Number — What the texts of a double denote

A double is written in three ways: as a value that is printed, as a literal of a printed tree, and
as a literal of a token list.  `denoted?` is the number that a text denotes, `writtenExponent?` the
power of ten that it ends in.

**One number** (`texts_denote`).  The three texts of a finite double denote one number.  As rounding
is monotone, so is writing: finite doubles compare as the numbers that they are written as
(`value_le_iff`).  So the bounds of the display, which are doubles, can be told from the number that
is denoted, and doubles that are displayed alike are equal.  The lower bound is not a millionth but
the double nearest to it, which lies a little below; it is written as a millionth, and without an
exponent.
-/

namespace Lox.Number

variable {x y : Float}

/-- The number that a text denotes, if it is a decimal numeral. -/
def denoted? (text : String) : Option ℚ := (Numeral.read? text.toList).map Numeral.value

/-- The power of ten that a text ends in, if it is a decimal numeral that does. -/
def writtenExponent? (text : String) : Option Signed :=
  (Numeral.read? text.toList).bind Numeral.exponent?

/-! ### The order of what is denoted -/

theorem shortest_le_iff (hx : x.isFinite) (hy : y.isFinite) :
    shortest x ≤ shortest y ↔ unsignedWord x ≤ unsignedWord y := by
  constructor
  · intro h
    rw [← word_shortest hx, ← word_shortest hy]
    exact word_mono decimalUnit_pos h
  · intro h
    by_contra hlt
    have hword := word_mono decimalUnit_pos (Nat.le_of_not_le hlt)
    rw [word_shortest hx, word_shortest hy] at hword
    exact hlt (Nat.le_of_eq (shortest_congr (Nat.le_antisymm h hword)))

theorem signedShortest_le_iff (hx : x.isFinite) (hy : y.isFinite) :
    signedShortest x ≤ signedShortest y ↔ signedWord x ≤ signedWord y := by
  have hzero := shortest_eq_zero_iff hx
  have hzero' := shortest_eq_zero_iff hy
  have hle := shortest_le_iff hx hy
  have hge := shortest_le_iff hy hx
  rw [signedShortest, signedShortest, signedWord, signedWord]
  split_ifs <;> omega

/-- Finite doubles compare as the numbers that they are written as. -/
theorem value_le_iff (l l' : Layout) (hx : x.isFinite) (hy : y.isFinite) :
    (l.numeral x).value ≤ (l'.numeral y).value ↔ x ≤ y := by
  rw [value_numeral l hx, value_numeral l' hy, div_le_div_iff_of_pos_right cast_decimalUnit_pos,
    Int.cast_le, signedShortest_le_iff hx hy, le_iff hx hy]

theorem value_eq_iff (l l' : Layout) (hx : x.isFinite) (hy : y.isFinite) :
    (l.numeral x).value = (l'.numeral y).value ↔ x == y := by
  rw [beq_iff hx hy, le_antisymm_iff, le_antisymm_iff, value_le_iff l l' hx hy,
    value_le_iff l' l hy hx, le_iff hx hy, le_iff hy hx]

theorem not_le_iff (hx : x.isFinite) (hy : y.isFinite) : ¬ x ≤ y ↔ y < x := by
  rw [le_iff hx hy, lt_iff hy hx, not_le]

theorem value_lt_iff (l l' : Layout) (hx : x.isFinite) (hy : y.isFinite) :
    (l.numeral x).value < (l'.numeral y).value ↔ x < y := by
  rw [← not_le, value_le_iff l' l hy hx, not_le_iff hy hx]

theorem value_abs (l : Layout) (h : x.isFinite) :
    (l.numeral x.abs).value = |(l.numeral x).value| := by
  have hsigned : signedShortest x.abs = |signedShortest x| := by
    rw [signedShortest, signedShortest, negative_abs h, shortest_congr (unsignedWord_abs h)]
    split_ifs <;> simp_all
  rw [value_numeral l (isFinite_abs h), value_numeral l h, abs_div, abs_of_pos cast_decimalUnit_pos,
    hsigned, Int.cast_abs]

/-! ### Bounds of the display -/

theorem isFinite_zero : (0 : Float).isFinite := by decide +kernel

theorem isFinite_high : (1e21 : Float).isFinite := by decide +kernel

theorem isFinite_low : (1e-6 : Float).isFinite := by decide +kernel

/-- The upper bound is a whole number, and written as such. -/
theorem value_high (l : Layout) : (l.numeral 1e21).value = 10 ^ 21 := by
  have hsigned : signedShortest 1e21 = (Nat.pow 10 21 * decimalUnit : Nat) := by decide +kernel
  rw [value_numeral l isFinite_high, hsigned, Int.cast_natCast, Nat.cast_mul,
    mul_div_cancel_right₀ _ cast_decimalUnit_ne_zero]
  norm_num

/-- The lower bound lies a little below the millionth that it is written as. -/
theorem value_low (l : Layout) : (l.numeral 1e-6).value = 10 ^ (-6 : Int) := by
  have hsigned : signedShortest 1e-6 * Nat.pow 10 6 = decimalUnit := by decide +kernel
  have hcast : (signedShortest 1e-6 : ℚ) * 10 ^ 6 = decimalUnit := by exact_mod_cast hsigned
  have hcancel : (10 : ℚ) ^ 6 * 10 ^ (-6 : Int) = 1 := by norm_num
  rw [value_numeral l isFinite_low, div_eq_iff cast_decimalUnit_ne_zero, ← hcast, mul_comm,
    mul_assoc, hcancel, mul_one]

theorem beq_zero_iff (h : x.isFinite) : x == 0 ↔ unsignedWord x = 0 := by
  have hzero : signedWord 0 = 0 := by decide +kernel
  rw [beq_iff h isFinite_zero, hzero, signedWord]
  split_ifs <;> omega

theorem value_eq_zero_iff (l : Layout) (h : x.isFinite) : (l.numeral x).value = 0 ↔ x == 0 := by
  have hzero : (l.numeral 0).value = 0 := by
    have hsigned : signedShortest 0 = 0 := by decide +kernel
    rw [value_numeral l isFinite_zero, hsigned, Int.cast_zero, zero_div]
  rw [← value_eq_iff l l h isFinite_zero, hzero]

/-- Both zeros are displayed alike. -/
theorem display_zero (h : x.isFinite) (hzero : x == 0) : Layout.display.text x = "0" := by
  have hword := (beq_zero_iff h).1 hzero
  obtain ⟨hnan, hinf⟩ := isNaN_isInf_of_isFinite h
  have hmagnitude := magnitude_eq_zero_iff.2 hword
  rw [Layout.text, hnan, hinf, isPositional_of_zero _ hmagnitude, (shortest_eq_zero_iff h).2 hword,
    hmagnitude]
  simp [Layout.display, positionalText, digits]

/-- The display has an exponent exactly outside of its bounds. -/
theorem isSome_exponent?_display (h : x.isFinite) :
    (Layout.display.numeral x).exponent?.isSome ↔ ¬ x == 0 ∧ (1e21 ≤ x.abs ∨ x.abs < 1e-6) := by
  have hhigh := not_le_iff isFinite_high (isFinite_abs h)
  have hlow := not_le_iff isFinite_low (isFinite_abs h)
  have hsome : (Layout.display.numeral x).exponent?.isSome ↔ ¬ Layout.display.isPositional x := by
    rw [exponent?_numeral _ h]
    split_ifs with hpositional <;> simp [hpositional]
  have hpositional : Layout.display.isPositional x ↔ x == 0 ∨ 1e-6 ≤ x.abs ∧ x.abs < 1e21 := by
    rw [beq_zero_iff h, ← magnitude_eq_zero_iff]
    simp [Layout.isPositional, Layout.display]
  rw [hsome, hpositional, not_or, not_and_or, hlow, ← hhigh, not_not, or_comm (a := x.abs < 1e-6)]

/-- Every sign of an exponent is displayed. -/
theorem isSome_sign?_display (h : x.isFinite) {e : Signed}
    (he : e ∈ (Layout.display.numeral x).exponent?) : e.sign?.isSome := by
  rw [exponent?_numeral _ h] at he
  split_ifs at he
  · cases he
  · cases he
    exact Signed.isSome_sign?_ofInt _

/-- Finite doubles are displayed alike exactly if they are equal. -/
theorem display_eq_iff (hx : x.isFinite) (hy : y.isFinite) :
    Layout.display.text x = Layout.display.text y ↔ x == y := by
  constructor
  · intro h
    rw [← value_eq_iff .display .display hx hy, numeral_eq_of_text .display hx hy h]
  · intro h
    rcases eq_or_zero_of_beq hx hy h with rfl | ⟨hzero, hzero'⟩
    · rfl
    · rw [display_zero hx ((beq_zero_iff hx).2 hzero), display_zero hy ((beq_zero_iff hy).2 hzero')]

theorem read?_text (l : Layout) (h : x.isFinite) :
    Numeral.read? (l.text x).toList = some (l.numeral x) :=
  Numeral.read?_eq_some_iff.2 (toList_text l h).symm

/-- How a double is written in its three texts, if they denote `v`. -/
structure WrittenAs (x : Float) (v : ℚ) : Prop where
  display : denoted? (Value.number x).display = some v
  form : denoted? (Expr.literal (.number x)).form = some v
  listing : denoted? (Value.number x).listing = some v
  /-- Both zeros are displayed without a sign. -/
  zero : x == 0 → (Value.number x).display = "0"
  /-- The display has an exponent outside of its bounds, which are doubles. -/
  exponent_iff : (writtenExponent? (Value.number x).display).isSome ↔
    ¬ x == 0 ∧ (1e21 ≤ x.abs ∨ x.abs < 1e-6)
  /-- The number that is denoted tells the same. -/
  exponent_iff_value : (writtenExponent? (Value.number x).display).isSome ↔
    v ≠ 0 ∧ (10 ^ 21 ≤ |v| ∨ |v| < 10 ^ (-6 : Int))
  /-- An exponent that is displayed has a sign. -/
  sign : ∀ e ∈ writtenExponent? (Value.number x).display, e.sign?.isSome
  /-- Doubles are displayed alike exactly if they are equal. -/
  display_eq_iff : ∀ y : Float, y.isFinite →
    ((Value.number x).display = (Value.number y).display ↔ x == y)

/-- **One number.**  The three texts of a finite double denote one number. -/
theorem texts_denote (h : x.isFinite) : ∃ v, WrittenAs x v := by
  have hdisplay : Numeral.read? (Value.number x).display.toList = _ := read?_text .display h
  have hform : Numeral.read? (Expr.literal (.number x)).form.toList = _ := read?_text .plain h
  have hlisting : Numeral.read? (Value.number x).listing.toList = _ := read?_text .listing h
  have hexponent : writtenExponent? (Value.number x).display =
      (Layout.display.numeral x).exponent? := by
    rw [writtenExponent?, hdisplay]
    rfl
  refine ⟨(Layout.display.numeral x).value, ?_, ?_, ?_, display_zero h, ?_, ?_, ?_,
    fun y => display_eq_iff h⟩
  · rw [denoted?, hdisplay]
    rfl
  · rw [denoted?, hform, value_numeral .display h, ← value_numeral .plain h]
    rfl
  · rw [denoted?, hlisting, value_numeral .display h, ← value_numeral .listing h]
    rfl
  · rw [hexponent, isSome_exponent?_display h]
  · rw [hexponent, isSome_exponent?_display h, Ne, value_eq_zero_iff _ h, ← value_abs _ h,
      ← value_high .display, ← value_low .display, value_le_iff _ _ isFinite_high (isFinite_abs h),
      value_lt_iff _ _ (isFinite_abs h) isFinite_low]
  · rw [hexponent]
    exact fun e => isSome_sign?_display h

/-- The least positive double is displayed with an exponent. -/
theorem texts_denote_least : (5e-324 : Float).isFinite ∧
    ∃ v, WrittenAs 5e-324 v ∧ v ≠ 0 ∧ (writtenExponent? (Value.number 5e-324).display).isSome := by
  have hfinite : (5e-324 : Float).isFinite := by decide +kernel
  obtain ⟨v, hv⟩ := texts_denote hfinite
  have hexponent := hv.exponent_iff.2 ⟨by decide +kernel, .inr (by decide +kernel)⟩
  exact ⟨hfinite, v, hv, (hv.exponent_iff_value.1 hexponent).1, hexponent⟩

example : (Value.number (-1.5e300)).display = "-1.5e+300" := by decide +kernel

end Lox.Number
