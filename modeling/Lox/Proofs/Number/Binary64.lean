import Mathlib.Algebra.Group.Nat.Defs
import Lox.Number.Shortest

/-!
# Proofs — Number — Words of doubles

A double is its sign and its word, the bits below the sign (`eq_of_word_eq`), and it is finite if
the word is below that of infinity (`isFinite_iff`).

**Rounding** (`word_exact`).  A quotient that is exactly what a word stands for is rounded to that
word.  So the exact decimal of a finite double reads back to it (`word_exactDecimal`).  What is
rounded is the quotient, however numerator and denominator are chosen (`word_mul_right`).
-/

namespace Lox.Number

open Float.Model (UnpackedFloat)

variable {x y : Float} {w : Nat}

/-! ### Bits -/

/-- Sign and word make the bits of a double. -/
theorem toNat_toBits (x : Float) :
    x.toBits.toNat = (if negative x then 2 ^ 63 else 0) + unsignedWord x := by
  have hlt := x.toBits.toNat_lt
  rw [negative, unsignedWord, Nat.pow_eq]
  split <;> rename_i h <;> simp only [beq_iff_eq] at h <;> omega

/-- A double is its sign and its word. -/
theorem eq_of_word_eq (hsign : negative x = negative y) (hword : unsignedWord x = unsignedWord y) :
    x = y := by
  have hbits : x.toBits = y.toBits := by
    rw [← UInt64.toNat_inj, toNat_toBits, toNat_toBits, hsign, hword]
  cases x with
  | ofModel x =>
      cases y with
      | ofModel y =>
          cases x
          cases y
          cases hbits
          rfl

theorem unsignedWord_lt (x : Float) : unsignedWord x < 2 ^ 63 :=
  Nat.mod_lt _ (by decide)

theorem fieldUnit_pos : 0 < fieldUnit := Nat.two_pow_pos 52

/-- The exponent field of a double. -/
theorem toNat_unpackExponent (x : Float) :
    (@UnpackedFloat.unpackExponent .binary64 x.toBits.toBitVec).toNat =
      unsignedWord x / fieldUnit := by
  change (x.toBits.toNat >>> 52) % 2 ^ 11 = _
  rw [Nat.shiftRight_eq_div_pow, unsignedWord, fieldUnit, Nat.pow_eq, Nat.pow_eq]
  omega

/-- The exponent field is full from the word of infinity on. -/
theorem unpackExponent_eq_iff (x : Float) :
    @UnpackedFloat.unpackExponent .binary64 x.toBits.toBitVec = -1#_ ↔
      infinityWord ≤ unsignedWord x := by
  have hlt := unsignedWord_lt x
  rw [← BitVec.toNat_inj, toNat_unpackExponent, infinityWord, fieldUnit, Nat.pow_eq]
  change _ = 2047 ↔ _
  omega

/-- A full exponent field stands for no finite value. -/
theorem unpack_of_full
    (h : @UnpackedFloat.unpackExponent .binary64 x.toBits.toBitVec = -1#_) :
    (UnpackedFloat.unpack .binary64 x.toBits.toBitVec).isFinite = false := by
  by_cases hm : @UnpackedFloat.unpackMantissa .binary64 x.toBits.toBitVec = 0#_
  · exact congrArg UnpackedFloat.isFinite ((if_pos h).trans (if_pos hm))
  · exact congrArg UnpackedFloat.isFinite ((if_pos h).trans (if_neg hm))

/-- Every other exponent field stands for a finite value. -/
theorem unpack_of_not_full
    (h : ¬ @UnpackedFloat.unpackExponent .binary64 x.toBits.toBitVec = -1#_) :
    (UnpackedFloat.unpack .binary64 x.toBits.toBitVec).isFinite = true := by
  by_cases he : @UnpackedFloat.unpackExponent .binary64 x.toBits.toBitVec = 0#_
  · by_cases hm : @UnpackedFloat.unpackMantissa .binary64 x.toBits.toBitVec = 0#_
    · exact congrArg UnpackedFloat.isFinite ((if_neg h).trans ((if_pos he).trans (dif_pos hm)))
    · exact congrArg UnpackedFloat.isFinite ((if_neg h).trans ((if_pos he).trans (dif_neg hm)))
  · exact congrArg UnpackedFloat.isFinite ((if_neg h).trans (if_neg he))

theorem isFinite_iff : x.isFinite ↔ unsignedWord x < infinityWord := by
  rw [← Nat.not_le, ← unpackExponent_eq_iff]
  change (UnpackedFloat.unpack .binary64 x.toBits.toBitVec).isFinite ↔ _
  by_cases hfull : @UnpackedFloat.unpackExponent .binary64 x.toBits.toBitVec = -1#_
  · rw [unpack_of_full hfull]
    exact iff_of_false Bool.false_ne_true (Decidable.not_not.2 hfull)
  · exact iff_of_true (unpack_of_not_full hfull) hfull

/-- A finite double is neither infinite nor NaN. -/
theorem isNaN_isInf_of_isFinite (h : x.isFinite) : x.isNaN = false ∧ x.isInf = false := by
  change (UnpackedFloat.unpack .binary64 x.toBits.toBitVec).isFinite = true at h
  change (UnpackedFloat.unpack .binary64 x.toBits.toBitVec).isNaN = false ∧
    (UnpackedFloat.unpack .binary64 x.toBits.toBitVec).isInf = false
  generalize UnpackedFloat.unpack .binary64 x.toBits.toBitVec = u at h ⊢
  cases u with
  | infinity | notANumber => cases h
  | zero | finite => exact ⟨rfl, rfl⟩

/-! ### Rounding -/

/-- A whole quotient is not rounded. -/
theorem roundQuotient_mul (n : Nat) {den : Nat} (hden : 0 < den) :
    roundQuotient (n * den) den = n := by
  simp [roundQuotient, Nat.mul_div_cancel n hden, hden]

theorem roundQuotient_mul_right (num den : Nat) {k : Nat} (hk : 0 < k) :
    roundQuotient (num * k) (den * k) = roundQuotient num den := by
  have hlt : ∀ a b, a * k < b * k ↔ a < b := fun a b => Nat.mul_lt_mul_right hk
  simp only [roundQuotient, Nat.mul_div_mul_right _ _ hk, Nat.mul_mod_mul_right, ← Nat.mul_assoc,
    hlt]

/-- A quotient has one word, however it is written. -/
theorem word_mul_right (num den : Nat) {k : Nat} (hk : 0 < k) :
    word (num * k) (den * k) = word num den := by
  simp only [word, Nat.mul_right_comm _ k, Nat.mul_div_mul_right _ _ hk,
    roundQuotient_mul_right _ _ hk]

/-- A significand below the leading bit has no shift. -/
theorem log2_of_lt (h : w < fieldUnit) : w.log2 - 52 = 0 := by
  rw [Nat.sub_eq_zero_iff_le]
  by_cases hw : w = 0
  · rw [hw, Nat.log2_zero]
    exact Nat.zero_le 52
  · exact Nat.le_of_lt ((Nat.log2_lt hw).2 h)

/-- Otherwise the leading bit tells the shift. -/
theorem log2_of_shifted {m s : Nat} (h : m < fieldUnit) :
    ((fieldUnit + m) * Nat.pow 2 s).log2 - 52 = s := by
  simp only [fieldUnit, Nat.pow_eq] at h ⊢
  have hpos : 0 < 2 ^ s := Nat.two_pow_pos s
  have hlog : ((2 ^ 52 + m) * 2 ^ s).log2 = 52 + s := by
    refine (Nat.log2_eq_iff (Nat.mul_ne_zero (by omega) (Nat.ne_of_gt hpos))).2 ⟨?_, ?_⟩
    · rw [Nat.pow_add]
      exact Nat.mul_le_mul_right _ (Nat.le_add_right _ _)
    · rw [Nat.add_right_comm, Nat.pow_add]
      exact Nat.mul_lt_mul_of_pos_right (by omega) hpos
  rw [hlog, Nat.add_sub_cancel_left]

/-- What a word stands for has that word. -/
theorem word_exact {num den : Nat} (hden : 0 < den) (hw : w ≤ infinityWord)
    (h : num * Nat.pow 2 1074 = unitsOfWord w * den) : word num den = w := by
  rw [word, h]
  simp only [Nat.mul_div_cancel _ hden]
  rw [unitsOfWord]
  split
  · rename_i hlt
    rw [log2_of_lt hlt, Nat.zero_mul, Nat.zero_add, Nat.pow_eq, Nat.pow_zero, Nat.mul_one,
      roundQuotient_mul w hden, Nat.min_eq_left hw]
  · rename_i hle
    have hdiv := Nat.div_add_mod w fieldUnit
    have hquot : 1 ≤ w / fieldUnit := (Nat.one_le_div_iff fieldUnit_pos).2 (Nat.not_lt.1 hle)
    have hshift : 0 < den * Nat.pow 2 (w / fieldUnit - 1) := Nat.mul_pos hden (Nat.two_pow_pos _)
    rw [log2_of_shifted (Nat.mod_lt w fieldUnit_pos), Nat.mul_assoc, Nat.mul_comm (Nat.pow 2 _) den,
      roundQuotient_mul _ hshift]
    -- The leading bit of the significand raises the field by one.
    have hsum : (w / fieldUnit - 1) * fieldUnit + (fieldUnit + w % fieldUnit) = w := by
      rw [← Nat.add_assoc, ← Nat.succ_mul, Nat.succ_eq_add_one, Nat.sub_add_cancel hquot,
        Nat.mul_comm, hdiv]
    rw [hsum, Nat.min_eq_left hw]

theorem word_zero (den : Nat) : word 0 den = 0 := by
  unfold word
  generalize Nat.pow 2 1074 = unit
  simp [roundQuotient]

theorem decimalUnit_pos : 0 < decimalUnit := by
  unfold decimalUnit
  generalize 1074 = n
  exact Nat.pow_pos (by decide)

/-- The exact decimal of a finite double reads back to it. -/
theorem word_exactDecimal (h : x.isFinite) : word (exactDecimal x) decimalUnit = unsignedWord x := by
  refine word_exact decimalUnit_pos (Nat.le_of_lt (isFinite_iff.1 h)) ?_
  unfold exactDecimal decimalUnit magnitude
  generalize 1074 = n
  rw [Nat.mul_assoc, Nat.pow_eq, Nat.pow_eq, Nat.pow_eq, ← Nat.mul_pow]

end Lox.Number
