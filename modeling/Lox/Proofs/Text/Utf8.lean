import Mathlib.Data.List.Basic
import Mathlib.Tactic.SplitIfs
import Lox.Text.Utf8

/-!
# Proofs — Text — Characters as bytes

A sequence of bytes spells a character if it is complete and has the bits of the character, which no
shorter sequence has (`Spells`).  Each character is written as a sequence that spells it
(`exists_spells`), and as the only one (`Spells.encode`).  For each length there is one lemma: the
bits of a character decide on its bytes once shorter sequences are ruled out.

The byte of a character that has only one is not met in the bytes of another character
(`mem_utf8EncodeChar`).
-/

namespace Lox.Text.Utf8

variable {n : Nat} {c : Char} {f : Form} {b b₁ b₂ b₃ x : UInt8} {more bs : List UInt8}

/-! ### Forms -/

theorem isFurther_iff : isFurther b ↔ 0x80 ≤ b.toNat ∧ b.toNat < 0xC0 := by
  simp [isFurther, UInt8.le_iff_toNat_le, UInt8.lt_iff_toNat_lt]

theorem form?_eq (b : UInt8) : form? b =
    if b.toNat < 0x80 then some ⟨0, 0, 0⟩
    else if b.toNat < 0xC0 then none
    else if b.toNat < 0xE0 then some ⟨1, 0xC0, 0x80⟩
    else if b.toNat < 0xF0 then some ⟨2, 0xE0, 0x800⟩
    else if b.toNat < 0xF8 then some ⟨3, 0xF0, 0x10000⟩
    else none := by
  simp only [form?, UInt8.lt_iff_toNat_lt]
  rfl

/-- The first bytes of sequences of one, two, three and four bytes. -/
theorem form_cases (h : form? b = some f) :
    (b.toNat < 0x80 ∧ f = ⟨0, 0, 0⟩) ∨
      (0xC0 ≤ b.toNat ∧ b.toNat < 0xE0 ∧ f = ⟨1, 0xC0, 0x80⟩) ∨
      (0xE0 ≤ b.toNat ∧ b.toNat < 0xF0 ∧ f = ⟨2, 0xE0, 0x800⟩) ∨
      (0xF0 ≤ b.toNat ∧ b.toNat < 0xF8 ∧ f = ⟨3, 0xF0, 0x10000⟩) := by
  rw [form?_eq] at h
  split_ifs at h
  · exact .inl ⟨by omega, (Option.some.inj h).symm⟩
  · exact .inr (.inl ⟨by omega, by omega, (Option.some.inj h).symm⟩)
  · exact .inr (.inr (.inl ⟨by omega, by omega, (Option.some.inj h).symm⟩))
  · exact .inr (.inr (.inr ⟨by omega, by omega, (Option.some.inj h).symm⟩))

theorem form?_ofNat (h : n < 256) : form? (UInt8.ofNat n) =
    if n < 0x80 then some ⟨0, 0, 0⟩
    else if n < 0xC0 then none
    else if n < 0xE0 then some ⟨1, 0xC0, 0x80⟩
    else if n < 0xF0 then some ⟨2, 0xE0, 0x800⟩
    else if n < 0xF8 then some ⟨3, 0xF0, 0x10000⟩
    else none := by
  rw [form?_eq, UInt8.toNat_ofNat_of_lt' h]

theorem form?_one (h : n < 0x80) : form? (UInt8.ofNat n) = some ⟨0, 0, 0⟩ := by
  rw [form?_ofNat (by omega), if_pos h]

theorem form?_two (h : n < 0x20) : form? (UInt8.ofNat (n + 0xC0)) = some ⟨1, 0xC0, 0x80⟩ := by
  rw [form?_ofNat (by omega), if_neg (by omega), if_neg (by omega), if_pos (by omega)]

theorem form?_three (h : n < 0x10) : form? (UInt8.ofNat (n + 0xE0)) = some ⟨2, 0xE0, 0x800⟩ := by
  rw [form?_ofNat (by omega), if_neg (by omega), if_neg (by omega), if_neg (by omega),
    if_pos (by omega)]

theorem form?_four (h : n < 0x08) : form? (UInt8.ofNat (n + 0xF0)) = some ⟨3, 0xF0, 0x10000⟩ := by
  rw [form?_ofNat (by omega), if_neg (by omega), if_neg (by omega), if_neg (by omega),
    if_neg (by omega), if_pos (by omega)]

theorem isFurther_ofNat (n : Nat) : isFurther (UInt8.ofNat (n % 0x40 + 0x80)) := by
  rw [isFurther_iff, UInt8.toNat_ofNat']
  omega

/-! ### Sequences -/

/-- The beginning of a sequence, of which bytes are missing. -/
structure Begun (f : Form) (b : UInt8) (more : List UInt8) : Prop where
  form : form? b = some f
  further : ∀ x ∈ more, isFurther x
  missing : more.length < f.further

/-- A sequence with all of its bytes. -/
structure Complete (f : Form) (b : UInt8) (more : List UInt8) : Prop where
  form : form? b = some f
  further : ∀ x ∈ more, isFurther x
  length : more.length = f.further

/-- A sequence that stands for a character, and is the shortest that could. -/
structure Spells (f : Form) (b : UInt8) (more : List UInt8) (c : Char) : Prop where
  complete : Complete f b more
  code : f.code b more = c.toNat
  least : f.least ≤ c.toNat

/-- As many further bytes as are asked for, or the end of input or another byte before. -/
theorem further_cases (n : Nat) (bs : List UInt8) :
    (∃ more rest, bs = more ++ rest ∧ (∀ x ∈ more, isFurther x) ∧ more.length = n) ∨
      ((∀ x ∈ bs, isFurther x) ∧ bs.length < n) ∨
      ∃ more x rest, bs = more ++ x :: rest ∧ (∀ x ∈ more, isFurther x) ∧ more.length < n ∧
        isFurther x = false := by
  induction n generalizing bs with
  | zero => exact .inl ⟨[], bs, rfl, by simp, rfl⟩
  | succ n ih =>
      cases bs with
      | nil => exact .inr (.inl ⟨by simp, Nat.succ_pos n⟩)
      | cons b bs =>
          cases hb : isFurther b with
          | false => exact .inr (.inr ⟨[], b, bs, rfl, by simp, Nat.succ_pos n, hb⟩)
          | true =>
              rcases ih bs with ⟨more, rest, rfl, hmore, hlength⟩ | ⟨hmore, hlength⟩ |
                ⟨more, x, rest, rfl, hmore, hlength, hx⟩
              · exact .inl ⟨b :: more, rest, rfl, List.forall_mem_cons.2 ⟨hb, hmore⟩,
                  congrArg (· + 1) hlength⟩
              · exact .inr (.inl ⟨List.forall_mem_cons.2 ⟨hb, hmore⟩, Nat.succ_lt_succ hlength⟩)
              · exact .inr (.inr ⟨b :: more, x, rest, rfl, List.forall_mem_cons.2 ⟨hb, hmore⟩,
                  Nat.succ_lt_succ hlength, hx⟩)

/-- A sequence is complete, or it is cut short by the end of input or by another byte. -/
theorem sequence_cases (h : form? b = some f) (bs : List UInt8) :
    (∃ more rest, bs = more ++ rest ∧ Complete f b more) ∨ Begun f b bs ∨
      ∃ more x rest, bs = more ++ x :: rest ∧ Begun f b more ∧ isFurther x = false := by
  rcases further_cases f.further bs with ⟨more, rest, hbs, hmore, hlength⟩ | ⟨hmore, hlength⟩ |
    ⟨more, x, rest, hbs, hmore, hlength, hx⟩
  · exact .inl ⟨more, rest, hbs, h, hmore, hlength⟩
  · exact .inr (.inl ⟨h, hmore, hlength⟩)
  · exact .inr (.inr ⟨more, x, rest, hbs, ⟨h, hmore, hlength⟩, hx⟩)

/-- A complete sequence spells a character, or it is too long for its code point, or that is no
character. -/
theorem Complete.cases (h : Complete f b more) :
    (∃ c, Spells f b more c) ∨ f.code b more < f.least ∨
      (0xD800 ≤ f.code b more ∧ f.code b more < 0xE000) ∨ 0x110000 ≤ f.code b more := by
  by_cases hvalid : (f.code b more).isValidChar
  · by_cases hleast : f.code b more < f.least
    · exact .inr (.inl hleast)
    · exact .inl ⟨Char.ofNatAux _ hvalid, h, rfl, Nat.le_of_not_lt hleast⟩
  · simp only [Nat.isValidChar] at hvalid
    exact .inr (.inr (by omega))

/-! ### Characters -/

/-- A character is written as a sequence that spells it. -/
theorem exists_spells (c : Char) :
    ∃ f b more, String.utf8EncodeChar c = b :: more ∧ Spells f b more c := by
  have hmax : c.toNat < 0x110000 := by
    rcases c.valid with h | ⟨-, h⟩
    · exact Nat.lt_trans h (by decide)
    · exact h
  have hv : c.val.toNat = c.toNat := rfl
  fun_cases String.utf8EncodeChar c with
  | case1 v h =>
      refine ⟨_, _, _, rfl, ⟨form?_one (by omega), by simp, rfl⟩, ?_, Nat.zero_le _⟩
      simp only [Form.code, List.foldl_nil, UInt8.toNat_ofNat']
      omega
  | case2 v h h' =>
      refine ⟨_, _, _, rfl, ⟨form?_two (by omega), ?_, rfl⟩, ?_, by simp only; omega⟩
      · simp only [List.forall_mem_cons, isFurther_ofNat, List.not_mem_nil, false_imp_iff,
          implies_true, and_self]
      · simp only [Form.code, List.foldl_cons, List.foldl_nil, UInt8.toNat_ofNat']
        omega
  | case3 v h h' h'' =>
      refine ⟨_, _, _, rfl, ⟨form?_three (by omega), ?_, rfl⟩, ?_, by simp only; omega⟩
      · simp only [List.forall_mem_cons, isFurther_ofNat, List.not_mem_nil, false_imp_iff,
          implies_true, and_self]
      · simp only [Form.code, List.foldl_cons, List.foldl_nil, UInt8.toNat_ofNat']
        omega
  | case4 v h h' h'' =>
      refine ⟨_, _, _, rfl, ⟨form?_four (by omega), ?_, rfl⟩, ?_, by simp only; omega⟩
      · simp only [List.forall_mem_cons, isFurther_ofNat, List.not_mem_nil, false_imp_iff,
          implies_true, and_self]
      · simp only [Form.code, List.foldl_cons, List.foldl_nil, UInt8.toNat_ofNat']
        omega

/-- One byte that stands for a character is the one that it is written as. -/
theorem encode_one (hb : b.toNat < 0x80) (hc : b.toNat = c.toNat) : String.utf8EncodeChar c = [b] := by
  have hv : c.val.toNat = c.toNat := rfl
  fun_cases String.utf8EncodeChar c <;>
    simp only [List.cons.injEq, reduceCtorEq, and_true, and_false, ← UInt8.toNat_inj,
      UInt8.toNat_ofNat'] <;> omega

/-- Two bytes that stand for a character are those that it is written as. -/
theorem encode_two (hb : 0xC0 ≤ b.toNat ∧ b.toNat < 0xE0) (h₁ : isFurther b₁)
    (hc : 64 * (b.toNat - 0xC0) + (b₁.toNat - 0x80) = c.toNat) (hleast : 0x80 ≤ c.toNat) :
    String.utf8EncodeChar c = [b, b₁] := by
  rw [isFurther_iff] at h₁
  have hv : c.val.toNat = c.toNat := rfl
  fun_cases String.utf8EncodeChar c <;>
    simp only [List.cons.injEq, reduceCtorEq, and_true, and_false, ← UInt8.toNat_inj,
      UInt8.toNat_ofNat'] <;> omega

theorem encode_three (hb : 0xE0 ≤ b.toNat ∧ b.toNat < 0xF0) (h₁ : isFurther b₁) (h₂ : isFurther b₂)
    (hc : 64 * (64 * (b.toNat - 0xE0) + (b₁.toNat - 0x80)) + (b₂.toNat - 0x80) = c.toNat)
    (hleast : 0x800 ≤ c.toNat) : String.utf8EncodeChar c = [b, b₁, b₂] := by
  rw [isFurther_iff] at h₁ h₂
  have hv : c.val.toNat = c.toNat := rfl
  fun_cases String.utf8EncodeChar c <;>
    simp only [List.cons.injEq, reduceCtorEq, and_true, and_false, ← UInt8.toNat_inj,
      UInt8.toNat_ofNat'] <;> omega

theorem encode_four (hb : 0xF0 ≤ b.toNat ∧ b.toNat < 0xF8) (h₁ : isFurther b₁) (h₂ : isFurther b₂)
    (h₃ : isFurther b₃)
    (hc : 64 * (64 * (64 * (b.toNat - 0xF0) + (b₁.toNat - 0x80)) + (b₂.toNat - 0x80)) +
      (b₃.toNat - 0x80) = c.toNat)
    (hleast : 0x10000 ≤ c.toNat) : String.utf8EncodeChar c = [b, b₁, b₂, b₃] := by
  rw [isFurther_iff] at h₁ h₂ h₃
  have hv : c.val.toNat = c.toNat := rfl
  fun_cases String.utf8EncodeChar c <;>
    simp only [List.cons.injEq, reduceCtorEq, and_true, and_false, ← UInt8.toNat_inj,
      UInt8.toNat_ofNat'] <;> omega

/-- A sequence that spells a character is the one that it is written as. -/
theorem Spells.encode (h : Spells f b more c) : String.utf8EncodeChar c = b :: more := by
  obtain ⟨⟨hform, hfurther, hlength⟩, hcode, hleast⟩ := h
  rcases form_cases hform with ⟨hb, rfl⟩ | ⟨hb, hb', rfl⟩ | ⟨hb, hb', rfl⟩ | ⟨hb, hb', rfl⟩
  · obtain rfl := List.length_eq_zero_iff.1 hlength
    exact encode_one hb hcode
  · obtain ⟨b₁, rfl⟩ := List.length_eq_one_iff.1 hlength
    exact encode_two ⟨hb, hb'⟩ (hfurther b₁ (by simp)) hcode hleast
  · obtain ⟨b₁, b₂, rfl⟩ := List.length_eq_two.1 hlength
    exact encode_three ⟨hb, hb'⟩ (hfurther b₁ (by simp)) (hfurther b₂ (by simp)) hcode hleast
  · obtain ⟨b₁, b₂, b₃, rfl⟩ := List.length_eq_three.1 hlength
    exact encode_four ⟨hb, hb'⟩ (hfurther b₁ (by simp)) (hfurther b₂ (by simp))
      (hfurther b₃ (by simp)) hcode hleast

/-! ### Texts -/

/-- The bytes of a text, character by character. -/
theorem toList_toUTF8 (s : String) :
    s.toUTF8.data.toList = s.toList.flatMap String.utf8EncodeChar := by
  rw [String.toUTF8, ← String.utf8Encode_toList, List.utf8Encode, List.toList_data_toByteArray]

theorem toList_toUTF8_append (s t : String) :
    (s ++ t).toUTF8.data.toList = s.toUTF8.data.toList ++ t.toUTF8.data.toList := by
  rw [toList_toUTF8, String.toList_append, List.flatMap_append, ← toList_toUTF8, ← toList_toUTF8]

/-- A character of one byte is not met in the bytes of another one. -/
theorem mem_utf8EncodeChar {d : Char} (h : d.toNat < 0x80) :
    UInt8.ofNat d.toNat ∈ String.utf8EncodeChar c ↔ c = d := by
  have hv : c.val.toNat = c.toNat := rfl
  rw [← Char.toNat_inj]
  fun_cases String.utf8EncodeChar c <;>
    simp only [List.mem_cons, List.not_mem_nil, or_false, ← UInt8.toNat_inj, UInt8.toNat_ofNat'] <;>
    omega

/-- A character of one byte is met in the bytes of a text just where it stands in the text. -/
theorem mem_toUTF8 {d : Char} (h : d.toNat < 0x80) (s : String) :
    UInt8.ofNat d.toNat ∈ s.toUTF8.data.toList ↔ d ∈ s.toList := by
  simp only [toList_toUTF8, List.mem_flatMap, mem_utf8EncodeChar h, exists_eq_right]

end Lox.Text.Utf8
