import Mathlib.Data.Nat.Log
import Lox.Proofs.Number.Binary64

/-!
# Proofs — Number — The order of doubles

**Comparing** (`compare_unpacked`).  A finite double is compared by its sign, its exponent and its
significand.  These are taken from its word, the exponent from above the significand, so that words
are in the order of what they stand for; `signedWord` is the word with the sign, and finite doubles
compare as it does.  The magnitude of a double has the same word, without the sign
(`unsignedWord_abs`, `negative_abs`).

**Rounding** (`word_mono`).  Of two quotients, the greater does not have the lesser word.  Where the
two are shifted alike, this is so because `roundQuotient` is monotone; otherwise the lesser carries
into the next shift at most, where the greater has its leading bit.
-/

namespace Lox.Number

open Float.Model (UnpackedFloat)

variable {x y : Float} {w w' : Nat}

/-! ### Signs, exponents and significands -/

/-- The double as it is compared. -/
def unpacked (x : Float) : UnpackedFloat := .unpack .binary64 x.toBits.toBitVec

/-- The sign that a double is compared by. -/
def sign (x : Float) : UnpackedFloat.Sign := if negative x then .negative else .positive

/-- The significand of a word. -/
def significand (w : Nat) : Nat :=
  if w < fieldUnit then w else fieldUnit + w % fieldUnit

/-- The power of two that the last bit of the significand counts. -/
def exponent (w : Nat) : Int := (max (w / fieldUnit) 1 : Nat) - 1075

theorem toNat_unpackMantissa (x : Float) :
    (@UnpackedFloat.unpackMantissa .binary64 x.toBits.toBitVec).toNat =
      unsignedWord x % fieldUnit := by
  change (x.toBits.toNat >>> 0) % 2 ^ 52 = _
  rw [Nat.shiftRight_zero, unsignedWord, fieldUnit, Nat.pow_eq, Nat.pow_eq]
  omega

/-- The sign bit of a double. -/
theorem toNat_unpackSign (x : Float) :
    (@UnpackedFloat.unpackSign .binary64 x.toBits.toBitVec).toNat = x.toBits.toNat / 2 ^ 63 % 2 := by
  change (x.toBits.toNat >>> 63) % 2 ^ 1 = _
  rw [Nat.shiftRight_eq_div_pow]

theorem ofBitVec_unpackSign (x : Float) :
    UnpackedFloat.Sign.ofBitVec (@UnpackedFloat.unpackSign .binary64 x.toBits.toBitVec) = sign x := by
  have hbit := toNat_unpackSign x
  rw [UnpackedFloat.Sign.ofBitVec, sign, negative, Nat.pow_eq]
  by_cases h : x.toBits.toNat / 2 ^ 63 % 2 = 1 <;>
    simp_all [← BitVec.toNat_inj]

theorem unpackExponent_ne (h : x.isFinite) :
    ¬ @UnpackedFloat.unpackExponent .binary64 x.toBits.toBitVec = -1#_ := by
  rw [unpackExponent_eq_iff]
  exact Nat.not_le.2 (isFinite_iff.1 h)

/-- A zero has no bit below the sign. -/
theorem unpacked_zero (h : x.isFinite) (hw : unsignedWord x = 0) : unpacked x = .zero (sign x) := by
  have he : @UnpackedFloat.unpackExponent .binary64 x.toBits.toBitVec = 0#_ := by
    rw [← BitVec.toNat_inj, toNat_unpackExponent, hw]
    rfl
  have hm : @UnpackedFloat.unpackMantissa .binary64 x.toBits.toBitVec = 0#_ := by
    rw [← BitVec.toNat_inj, toNat_unpackMantissa, hw]
    rfl
  rw [← ofBitVec_unpackSign]
  exact (if_neg (unpackExponent_ne h)).trans ((if_pos he).trans (dif_pos hm))

theorem significand_pos (hw : w ≠ 0) : 0 < significand w := by
  have hunit := fieldUnit_pos
  rw [significand]
  split <;> omega

theorem toNat_append {m n : Nat} (a : BitVec m) (b : BitVec n) :
    (a ++ b).toNat = a.toNat * 2 ^ n + b.toNat := by
  rw [BitVec.toNat_append, ← Nat.shiftLeft_add_eq_or_of_lt b.isLt, Nat.shiftLeft_eq]

/-- The leading bit stands above the fraction. -/
theorem toNat_leading (m : BitVec 52) : ((1#1 : BitVec 1) ++ m).toNat = fieldUnit + m.toNat := by
  rw [toNat_append]
  rfl

theorem finite_congr {s : UnpackedFloat.Sign} {m m' : Nat} {e e' : Int} {h : 0 < m} {h' : 0 < m'}
    (hm : m = m') (he : e = e') :
    UnpackedFloat.finite s m e h = UnpackedFloat.finite s m' e' h' := by
  cases hm
  cases he
  rfl

/-- The exponent field is empty below the leading bit. -/
theorem unpackExponent_eq_zero_iff (x : Float) :
    @UnpackedFloat.unpackExponent .binary64 x.toBits.toBitVec = 0#_ ↔
      unsignedWord x < fieldUnit := by
  rw [← BitVec.toNat_inj, toNat_unpackExponent, BitVec.toNat_zero,
    Nat.div_eq_zero_iff_lt fieldUnit_pos]

theorem unpacked_finite (h : x.isFinite) (hw : unsignedWord x ≠ 0) :
    unpacked x = .finite (sign x) (significand (unsignedWord x)) (exponent (unsignedWord x))
      (significand_pos hw) := by
  have he := toNat_unpackExponent x
  have hm := toNat_unpackMantissa x
  rw [← ofBitVec_unpackSign]
  refine (if_neg (unpackExponent_ne h)).trans ?_
  -- Below the leading bit the field is empty, and the exponent that of a field of one.
  by_cases hlt : unsignedWord x < fieldUnit
  · have hfield := (unpackExponent_eq_zero_iff x).2 hlt
    rw [Nat.mod_eq_of_lt hlt] at hm
    have hmant : ¬ @UnpackedFloat.unpackMantissa .binary64 x.toBits.toBitVec = 0#_ := by
      rw [← BitVec.toNat_inj, hm]
      exact hw
    refine (if_pos hfield).trans ((dif_neg hmant).trans (finite_congr ?_ ?_))
    · rw [significand, if_pos hlt, hm]
    · rw [he, Nat.div_eq_of_lt hlt, exponent, Nat.div_eq_of_lt hlt]
      rfl
  · have hfield := mt (unpackExponent_eq_zero_iff x).1 hlt
    have hquot : 1 ≤ unsignedWord x / fieldUnit :=
      (Nat.one_le_div_iff fieldUnit_pos).2 (Nat.not_lt.1 hlt)
    refine (if_neg hfield).trans (finite_congr ?_ ?_)
    · rw [significand, if_neg hlt]
      exact (toNat_leading _).trans (congrArg (fieldUnit + ·) hm)
    · rw [he, exponent, Nat.max_eq_left hquot]
      rfl

/-! ### Comparing -/

/-- Of two words, the greater has the greater exponent, or else the greater significand. -/
theorem fields_lt (h : w < w') :
    exponent w < exponent w' ∨ exponent w = exponent w' ∧ significand w < significand w' := by
  rw [exponent, exponent, significand, significand, fieldUnit, Nat.pow_eq]
  split <;> split <;> omega

/-- So doubles of one sign are compared by their words. -/
theorem compare_fields (w w' : Nat) :
    (compare (exponent w) (exponent w')).then (compare (significand w) (significand w')) =
      compare (w : Int) w' := by
  rcases Nat.lt_trichotomy w w' with h | rfl | h
  · rw [Int.compare_eq_lt.2 (Int.ofNat_lt.2 h), Ordering.then_eq_lt, Int.compare_eq_lt,
      Int.compare_eq_eq, Nat.compare_eq_lt]
    exact fields_lt h
  · simp
  · rw [Int.compare_eq_gt.2 (Int.ofNat_lt.2 h), Ordering.then_eq_gt, Int.compare_eq_gt,
      Int.compare_eq_eq, Nat.compare_eq_gt]
    exact (fields_lt h).imp_right (And.imp_left Eq.symm)

/-- The word of a double, negated if its sign bit is set. -/
def signedWord (x : Float) : Int :=
  if negative x then -unsignedWord x else unsignedWord x

theorem signedWord_of_zero (h : unsignedWord x = 0) : signedWord x = 0 := by
  rw [signedWord, h]
  simp

/-- Finite doubles compare as their signed words do. -/
theorem compare_unpacked (hx : x.isFinite) (hy : y.isFinite) :
    (unpacked x).compare (unpacked y) = some (compare (signedWord x) (signedWord y)) := by
  by_cases hwx : unsignedWord x = 0 <;> by_cases hwy : unsignedWord y = 0
  · rw [unpacked_zero hx hwx, unpacked_zero hy hwy, signedWord_of_zero hwx, signedWord_of_zero hwy]
    rfl
  · have hpos : (0 : Int) < unsignedWord y := Int.natCast_pos.2 (Nat.pos_of_ne_zero hwy)
    rw [unpacked_zero hx hwx, unpacked_finite hy hwy, signedWord_of_zero hwx, signedWord, sign.eq_1 y]
    cases negative y <;> refine congrArg some (Eq.symm ?_)
    · exact Int.compare_eq_lt.2 hpos
    · exact Int.compare_eq_gt.2 (Int.neg_neg_of_pos hpos)
  · have hpos : (0 : Int) < unsignedWord x := Int.natCast_pos.2 (Nat.pos_of_ne_zero hwx)
    rw [unpacked_finite hx hwx, unpacked_zero hy hwy, signedWord_of_zero hwy, signedWord, sign.eq_1 x]
    cases negative x <;> refine congrArg some (Eq.symm ?_)
    · exact Int.compare_eq_gt.2 hpos
    · exact Int.compare_eq_lt.2 (Int.neg_neg_of_pos hpos)
  · have hpos : (0 : Int) < unsignedWord x := Int.natCast_pos.2 (Nat.pos_of_ne_zero hwx)
    have hpos' : (0 : Int) < unsignedWord y := Int.natCast_pos.2 (Nat.pos_of_ne_zero hwy)
    rw [unpacked_finite hx hwx, unpacked_finite hy hwy, signedWord, signedWord, sign, sign]
    cases negative x <;> cases negative y <;> refine congrArg some ?_
    · exact compare_fields _ _
    · exact (Int.compare_eq_gt.2 (Int.lt_trans (Int.neg_neg_of_pos hpos') hpos)).symm
    · exact (Int.compare_eq_lt.2 (Int.lt_trans (Int.neg_neg_of_pos hpos) hpos')).symm
    · refine (congrArg Ordering.swap (compare_fields _ _)).trans ?_
      rw [Int.compare_swap]
      simp [Int.compare_eq_ite_lt]

/-- The zeros, whose words are the same but for the sign, are equal. -/
theorem beq_iff (hx : x.isFinite) (hy : y.isFinite) : x == y ↔ signedWord x = signedWord y := by
  change ((unpacked x).compare (unpacked y) == some .eq) = true ↔ _
  rw [compare_unpacked hx hy, beq_iff_eq, Option.some_inj, Int.compare_eq_eq]

/-- But for the zeros, doubles that are equal are the same. -/
theorem eq_or_zero_of_beq (hx : x.isFinite) (hy : y.isFinite) (h : x == y) :
    x = y ∨ unsignedWord x = 0 ∧ unsignedWord y = 0 := by
  rw [beq_iff hx hy, signedWord, signedWord] at h
  cases hnx : negative x <;> cases hny : negative y <;>
    simp only [hnx, hny, Bool.false_eq_true, if_false, if_true] at h
  · exact .inl (eq_of_word_eq (hnx.trans hny.symm) (by omega))
  · exact .inr (by omega)
  · exact .inr (by omega)
  · exact .inl (eq_of_word_eq (hnx.trans hny.symm) (by omega))

theorem le_iff (hx : x.isFinite) (hy : y.isFinite) : x ≤ y ↔ signedWord x ≤ signedWord y := by
  refine decide_eq_true_iff.trans ?_
  change ((unpacked x).compare (unpacked y)).any (·.isLE) = true ↔ _
  rw [compare_unpacked hx hy, Option.any_some, Int.isLE_compare]

theorem lt_iff (hx : x.isFinite) (hy : y.isFinite) : x < y ↔ signedWord x < signedWord y := by
  refine decide_eq_true_iff.trans ?_
  change ((unpacked x).compare (unpacked y) == some .lt) = true ↔ _
  rw [compare_unpacked hx hy, beq_iff_eq, Option.some_inj, Int.compare_eq_lt]

/-! ### Magnitudes -/

/-- Without a sign, the exponent field stands above the fraction. -/
theorem toNat_packComponents (e : BitVec 11) (m : BitVec 52) :
    (UnpackedFloat.packComponents .binary64 .positive e m).toNat =
      e.toNat * fieldUnit + m.toNat := by
  rw [UnpackedFloat.packComponents, toNat_append, toNat_append, UnpackedFloat.Sign.toBitVec]
  simp [fieldUnit]

/-- A significand below the leading bit is subnormal. -/
theorem log2_significand_eq_iff (hw : w ≠ 0) :
    (significand w).log2 = 52 ↔ ¬ w < fieldUnit := by
  have hmod := Nat.mod_lt w fieldUnit_pos
  rw [Nat.log2_eq_iff (Nat.ne_of_gt (significand_pos hw)), significand]
  rw [fieldUnit, Nat.pow_eq] at *
  split <;> omega

/-- The exponent that is packed is the field, but for a word below the leading bit. -/
theorem toNat_biased (w : Nat) :
    (exponent w + (Float.Model.Format.binary64.exponentBias : Nat) + 52).toNat =
      max (w / fieldUnit) 1 := by
  change (exponent w + 1023 + 52).toNat = _
  rw [exponent]
  omega

/-- Significand and exponent are packed into the word they were taken from. -/
theorem toNat_pack (hw : w ≠ 0) (hfin : w < infinityWord) :
    (UnpackedFloat.pack .binary64
      (.finite .positive (significand w) (exponent w) (significand_pos hw))).toNat = w := by
  have hfit : ¬ 2 ^ 11 ≤ max (w / fieldUnit) 1 + 1 := by
    rw [infinityWord, fieldUnit, Nat.pow_eq] at *
    omega
  rw [← toNat_biased] at hfit
  by_cases hlt : w < fieldUnit
  · refine (congrArg BitVec.toNat ((if_neg hfit).trans (if_neg ?_))).trans ?_
    · exact fun hlead => (log2_significand_eq_iff hw).1 (Nat.succ.inj hlead) hlt
    · refine (toNat_packComponents _ _).trans ?_
      rw [BitVec.toNat_ofNat, BitVec.toNat_ofNat, significand, if_pos hlt, Nat.zero_mod,
        Nat.zero_mul, Nat.zero_add]
      exact Nat.mod_eq_of_lt hlt
  · refine (congrArg BitVec.toNat ((if_neg hfit).trans (if_pos ?_))).trans ?_
    · exact congrArg (· + 1) ((log2_significand_eq_iff hw).2 hlt)
    · refine (toNat_packComponents _ _).trans ?_
      rw [BitVec.toNat_ofNat, BitVec.toNat_ofNat, significand, if_neg hlt]
      refine (congrArg (fun e => e % 2 ^ 11 * fieldUnit + _) (toNat_biased w)).trans ?_
      -- Of the significand, 52 bits are packed: the leading one is left out.
      rw [infinityWord, fieldUnit, Nat.pow_eq] at *
      omega

/-- The magnitude of a double has its word, and no sign bit. -/
theorem toNat_toBits_abs (h : x.isFinite) : x.abs.toBits.toNat = unsignedWord x := by
  change (UnpackedFloat.pack .binary64 (unpacked x).abs).toNat = _
  by_cases hw : unsignedWord x = 0
  · rw [unpacked_zero h hw, hw]
    rfl
  · rw [unpacked_finite h hw]
    exact toNat_pack hw (isFinite_iff.1 h)

theorem unsignedWord_abs (h : x.isFinite) : unsignedWord x.abs = unsignedWord x := by
  rw [unsignedWord, toNat_toBits_abs h]
  exact Nat.mod_eq_of_lt (unsignedWord_lt x)

theorem negative_abs (h : x.isFinite) : negative x.abs = false := by
  rw [negative, Nat.pow_eq, toNat_toBits_abs h, Nat.div_eq_of_lt (unsignedWord_lt x)]
  rfl

theorem isFinite_abs (h : x.isFinite) : x.abs.isFinite := by
  rw [isFinite_iff, unsignedWord_abs h]
  exact isFinite_iff.1 h

/-! ### Rounding keeps the order -/

section Rounding

variable {num num' den n : Nat}

theorem roundQuotient_mono (h : num ≤ num') :
    roundQuotient num den ≤ roundQuotient num' den := by
  have hdiv := Nat.div_add_mod num den
  have hdiv' := Nat.div_add_mod num' den
  rcases Nat.lt_or_eq_of_le (Nat.div_le_div_right (c := den) h) with hlt | heq
  · have hle : roundQuotient num den ≤ num / den + 1 := by
      simp only [roundQuotient]
      split_ifs <;> omega
    have hge : num' / den ≤ roundQuotient num' den := by
      simp only [roundQuotient]
      split_ifs <;> omega
    exact Nat.le_trans hle (Nat.le_trans hlt hge)
  · have hmod : num % den ≤ num' % den := by
      rw [← heq] at hdiv'
      omega
    simp only [roundQuotient, heq]
    split_ifs <;> omega

/-- A quotient is not rounded past a whole number. -/
theorem roundQuotient_le (hden : 0 < den) (h : num ≤ n * den) : roundQuotient num den ≤ n :=
  (roundQuotient_mono h).trans_eq (roundQuotient_mul n hden)

theorem le_roundQuotient (hden : 0 < den) (h : n * den ≤ num) : n ≤ roundQuotient num den :=
  (roundQuotient_mul n hden).symm.trans_le (roundQuotient_mono h)

/-- The shift leaves at most one bit to carry. -/
theorem roundQuotient_le_carry (hden : 0 < den) :
    roundQuotient num (den * 2 ^ ((num / den).log2 - 52)) ≤ 2 * fieldUnit := by
  refine roundQuotient_le (Nat.mul_pos hden (Nat.two_pow_pos _)) (Nat.le_of_lt ?_)
  have hlog : num / den < 2 ^ (53 + ((num / den).log2 - 52)) :=
    Nat.lt_of_lt_of_le Nat.lt_log2_self (Nat.pow_le_pow_right Nat.two_pos (by omega))
  rw [Nat.pow_add] at hlog
  calc num < 2 ^ 53 * 2 ^ ((num / den).log2 - 52) * den := (Nat.div_lt_iff_lt_mul hden).1 hlog
    _ = 2 * fieldUnit * (den * 2 ^ ((num / den).log2 - 52)) := by
      rw [Nat.mul_assoc, Nat.mul_comm den]
      rfl

/-- If anything is shifted out, then the leading bit is left. -/
theorem leading_le_roundQuotient (hden : 0 < den) (hshift : 0 < (num / den).log2 - 52) :
    fieldUnit ≤ roundQuotient num (den * 2 ^ ((num / den).log2 - 52)) := by
  refine le_roundQuotient (Nat.mul_pos hden (Nat.two_pow_pos _)) ?_
  have hne : num / den ≠ 0 := by
    intro hzero
    rw [hzero] at hshift
    cases hshift
  have hlog : 2 ^ (52 + ((num / den).log2 - 52)) ≤ num / den := by
    rw [Nat.add_sub_cancel' (Nat.le_of_lt (Nat.lt_of_sub_pos hshift))]
    exact Nat.log2_self_le hne
  rw [Nat.pow_add] at hlog
  calc fieldUnit * (den * 2 ^ ((num / den).log2 - 52))
      = 2 ^ 52 * 2 ^ ((num / den).log2 - 52) * den := by
        rw [Nat.mul_comm den, Nat.mul_assoc]
        rfl
    _ ≤ num := (Nat.le_div_iff_mul_le hden).1 hlog

/-- **Monotone.**  Of two quotients, the greater is not rounded to the lesser word. -/
theorem word_mono (hden : 0 < den) (h : num ≤ num') : word num den ≤ word num' den := by
  have hunits : num * Nat.pow 2 1074 ≤ num' * Nat.pow 2 1074 := Nat.mul_le_mul_right _ h
  unfold word
  generalize num * Nat.pow 2 1074 = units, num' * Nat.pow 2 1074 = units' at hunits
  refine Nat.le_min.2 ⟨Nat.le_trans (Nat.min_le_left _ _) ?_, Nat.min_le_right _ _⟩
  have hshift : (units / den).log2 - 52 ≤ (units' / den).log2 - 52 := by
    rw [Nat.log2_eq_log_two, Nat.log2_eq_log_two]
    exact Nat.sub_le_sub_right (Nat.log_mono_right (Nat.div_le_div_right hunits)) 52
  rcases Nat.lt_or_eq_of_le hshift with hlt | heq
  · calc ((units / den).log2 - 52) * fieldUnit + roundQuotient units _
      _ ≤ ((units / den).log2 - 52) * fieldUnit + 2 * fieldUnit :=
        Nat.add_le_add_left (roundQuotient_le_carry hden) _
      _ = ((units / den).log2 - 52 + 1) * fieldUnit + fieldUnit := by
        rw [Nat.two_mul, ← Nat.add_assoc, Nat.succ_mul]
      _ ≤ ((units' / den).log2 - 52) * fieldUnit + fieldUnit :=
        Nat.add_le_add_right (Nat.mul_le_mul_right _ hlt) _
      _ ≤ _ := Nat.add_le_add_left (leading_le_roundQuotient hden (Nat.zero_lt_of_lt hlt)) _
  · rw [heq]
    exact Nat.add_le_add_left
      (roundQuotient_mono hunits) _

end Rounding

end Lox.Number
