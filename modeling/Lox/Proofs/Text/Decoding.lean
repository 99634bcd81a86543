import Lox.Proofs.Text.Utf8
import Lox.Run.File

/-!
# Proofs — Text — Bytes that are a text

**Exactly UTF-8** (`File.reads_utf8`).  A file is read as a text if its bytes are what that text is
written as, and as no other.  Any other file cannot be read: it ends too early if it ends inside a
sequence (`EndsInside`), and is invalid otherwise.

That is so however single characters are read, as long as each is read from its sequence, and what
is wrong with a sequence is told apart (`CharReader.ReadsUtf8`).  One character is read from the
bytes that it is written as, or the first problem is one of the two (`ReadsUtf8.cases`); what all
bytes come to is proved from that, from the first one on (`Answers`).
-/

namespace Lox.Text

open Utf8 (Form Begun Complete Spells form? isFurther)

variable {next : CharReader} {b : UInt8} {c : Char} {done cs : List Char}
  {more tail bs : List UInt8} {kind : IoKind} {bytes : ByteArray} {s : String}

/-! ### Characters -/

/-- How a character that is written in UTF-8 is read.  The first byte tells the length of the
sequence. -/
structure CharReader.ReadsUtf8 (next : CharReader) : Prop where
  /-- A byte that begins no sequence is invalid. -/
  lead {b : UInt8} {bs : List UInt8} (h : form? b = none) : next b bs = .error .invalidData
  /-- So is a byte that is no further byte where one is missing. -/
  further {f : Form} {b x : UInt8} {more bs : List UInt8} (h : Begun f b more)
    (hx : isFurther x = false) : next b (more ++ x :: bs) = .error .invalidData
  /-- The end of input where a further byte is missing is too early. -/
  missing {f : Form} {b : UInt8} {more : List UInt8} (h : Begun f b more) :
    next b more = .error .unexpectedEof
  /-- A sequence is invalid if there is a shorter one for its code point. -/
  overlong {f : Form} {b : UInt8} {more bs : List UInt8} (h : Complete f b more)
    (hcode : f.code b more < f.least) : next b (more ++ bs) = .error .invalidData
  /-- So is the sequence of a surrogate. -/
  surrogate {f : Form} {b : UInt8} {more bs : List UInt8} (h : Complete f b more)
    (hfirst : 0xD800 ≤ f.code b more) (hlast : f.code b more ≤ 0xDFFF) :
    next b (more ++ bs) = .error .invalidData
  /-- So is that of a code point behind the last character. -/
  beyond {f : Form} {b : UInt8} {more bs : List UInt8} (h : Complete f b more)
    (hcode : 0x10FFFF < f.code b more) : next b (more ++ bs) = .error .invalidData
  /-- Any other sequence stands for a character, which is read from it and from no more bytes. -/
  char {f : Form} {b : UInt8} {more bs : List UInt8} {c : Char} (h : Spells f b more c) :
    next b (more ++ bs) = .ok (c, more.length)

/-- The beginning of a sequence, of which bytes are missing. -/
inductive Utf8.CutShort : List UInt8 → Prop where
  | intro {f : Form} {b : UInt8} {more : List UInt8} (h : Begun f b more) : CutShort (b :: more)

open Utf8 (CutShort)

namespace CharReader

namespace ReadsUtf8

/-- A character is read from the bytes that it is written as, or there is a problem. -/
theorem cases (h : next.ReadsUtf8) (b : UInt8) (bs : List UInt8) :
    (∃ c more rest, bs = more ++ rest ∧ String.utf8EncodeChar c = b :: more ∧
        next b bs = .ok (c, more.length)) ∨
      next b bs = .error .invalidData ∨
      (CutShort (b :: bs) ∧ next b bs = .error .unexpectedEof) := by
  cases hform : form? b with
  | none => exact .inr (.inl (h.lead hform))
  | some f =>
      rcases Utf8.sequence_cases hform bs with ⟨more, rest, rfl, hcomplete⟩ | hbegun |
        ⟨more, x, rest, rfl, hbegun, hx⟩
      · rcases hcomplete.cases with ⟨c, hspells⟩ | hcode | ⟨hfirst, hlast⟩ | hcode
        · exact .inl ⟨c, more, rest, rfl, hspells.encode, h.char hspells⟩
        · exact .inr (.inl (h.overlong hcomplete hcode))
        · exact .inr (.inl (h.surrogate hcomplete hfirst (Nat.le_of_lt_succ hlast)))
        · exact .inr (.inl (h.beyond hcomplete hcode))
      · exact .inr (.inr ⟨.intro hbegun, h.missing hbegun⟩)
      · exact .inr (.inl (h.further hbegun hx))

end ReadsUtf8

/-! ### Characters, one after the other -/

/-- Bytes that belong to the last character are passed over. -/
theorem readFrom_further (next : CharReader) (done : List Char) (more bs : List UInt8) :
    next.readFrom done more.length (more ++ bs) = next.readFrom done 0 bs := by
  induction more with
  | nil => rfl
  | cons b more ih => exact ih

theorem readFrom_ok (h : next b (more ++ bs) = .ok (c, more.length)) :
    next.readFrom done 0 (b :: (more ++ bs)) = next.readFrom (c :: done) 0 bs := by
  rw [readFrom, h]
  exact readFrom_further next (c :: done) more bs

theorem readFrom_error (h : next b bs = .error kind) :
    next.readFrom done 0 (b :: bs) = .error kind := by
  rw [readFrom, h]

namespace ReadsUtf8

/-- Characters are read from their bytes, and what stands behind these is left. -/
theorem readFrom_append (h : next.ReadsUtf8) (done cs : List Char) (bs : List UInt8) :
    next.readFrom done 0 (cs.flatMap String.utf8EncodeChar ++ bs) =
      next.readFrom (cs.reverse ++ done) 0 bs := by
  induction cs generalizing done with
  | nil => rfl
  | cons c cs ih =>
      obtain ⟨f, b, more, hencode, hspells⟩ := Utf8.exists_spells c
      rw [List.flatMap_cons, hencode, List.append_assoc, List.cons_append,
        readFrom_ok (h.char hspells), ih, List.reverse_cons, List.append_assoc,
        List.singleton_append]

/-- Text is read back from the bytes that it is written as. -/
theorem decode_toUTF8 (h : next.ReadsUtf8) (s : String) : next.decode s.toUTF8 = .ok s := by
  rw [decode, Utf8.toList_toUTF8, ← List.append_nil (s.toList.flatMap _), h.readFrom_append,
    readFrom, List.append_nil, List.reverse_reverse]
  exact congrArg Except.ok String.ofList_toList

end ReadsUtf8

/-! ### Answers -/

/-- What bytes are if reading them comes to this. -/
def Answers (bytes : List UInt8) : Except IoKind (List Char) → Prop
  | .ok cs => bytes = cs.flatMap String.utf8EncodeChar
  | .error kind => kind = .invalidData ∨ kind = .unexpectedEof ∧
      ∃ (cs : List Char) (tail : List UInt8),
        bytes = cs.flatMap String.utf8EncodeChar ++ tail ∧ CutShort tail

namespace ReadsUtf8

/-- Behind characters, reading on answers for all bytes. -/
theorem answers_readFrom (h : next.ReadsUtf8) (done : List Char) (bs : List UInt8) :
    Answers (done.reverse.flatMap String.utf8EncodeChar ++ bs) (next.readFrom done 0 bs) := by
  induction hlength : bs.length using Nat.strongRecOn generalizing done bs with
  | _ n ih =>
    cases bs with
    | nil =>
        rw [readFrom, List.append_nil]
        rfl
    | cons b bs =>
        rcases h.cases b bs with ⟨c, more, rest, rfl, hencode, hnext⟩ | hnext | ⟨hcut, hnext⟩
        · have hlt : rest.length < n := by
            rw [← hlength, List.length_cons, List.length_append]
            omega
          rw [readFrom_ok hnext, ← List.cons_append, ← hencode]
          simpa using ih rest.length hlt (c :: done) rest rfl
        · rw [readFrom_error hnext]
          exact .inl rfl
        · rw [readFrom_error hnext]
          exact .inr ⟨rfl, done.reverse, b :: bs, rfl, hcut⟩

theorem answers_decode (h : next.ReadsUtf8) (bytes : ByteArray) :
    Answers bytes.data.toList ((next.decode bytes).map String.toList) := by
  have hanswers : Answers bytes.data.toList (next.readFrom [] 0 bytes.data.toList) :=
    h.answers_readFrom [] _
  rw [decode]
  cases hcs : next.readFrom [] 0 bytes.data.toList with
  | ok cs =>
      rw [hcs] at hanswers
      exact hanswers.trans (by simp)
  | error kind =>
      rw [hcs] at hanswers
      exact hanswers

end ReadsUtf8

end CharReader

/-! ### Whole texts -/

/-- Bytes that end inside a sequence: characters, and the beginning of another one. -/
def Utf8.EndsInside (bytes : ByteArray) : Prop :=
  ∃ (s : String) (tail : List UInt8),
    bytes.data.toList = s.toUTF8.data.toList ++ tail ∧ CutShort tail

open Utf8 (EndsInside)

namespace CharReader.ReadsUtf8

/-- Text is read exactly from the bytes that it is written as. -/
theorem decode_eq_ok_iff (h : next.ReadsUtf8) : next.decode bytes = .ok s ↔ bytes = s.toUTF8 := by
  constructor
  · intro hdecode
    have hanswers := h.answers_decode bytes
    rw [hdecode] at hanswers
    refine ByteArray.ext (Array.toList_inj.1 ?_)
    rw [Utf8.toList_toUTF8]
    exact hanswers
  · rintro rfl
    exact h.decode_toUTF8 s

/-- Bytes end too early exactly if they end inside a sequence. -/
theorem decode_eq_unexpectedEof_iff (h : next.ReadsUtf8) :
    next.decode bytes = .error .unexpectedEof ↔ EndsInside bytes := by
  constructor
  · intro hdecode
    have hanswers := h.answers_decode bytes
    rw [hdecode] at hanswers
    rcases hanswers with hkind | ⟨-, cs, tail, hbytes, htail⟩
    · cases hkind
    · refine ⟨String.ofList cs, tail, ?_, htail⟩
      rw [hbytes, Utf8.toList_toUTF8, String.toList_ofList]
  · rintro ⟨s, _, hbytes, ⟨hbegun⟩⟩
    rw [decode, hbytes, Utf8.toList_toUTF8, h.readFrom_append, readFrom_error (h.missing hbegun)]
    rfl

/-- Bytes are wrong in these two ways only. -/
theorem kind_of_decode (h : next.ReadsUtf8) (hdecode : next.decode bytes = .error kind) :
    kind = .invalidData ∨ kind = .unexpectedEof := by
  have hanswers := h.answers_decode bytes
  rw [hdecode] at hanswers
  exact hanswers.imp_right And.left

theorem decode_eq_invalidData_iff (h : next.ReadsUtf8) :
    next.decode bytes = .error .invalidData ↔
      (∀ s : String, bytes ≠ s.toUTF8) ∧ ¬ EndsInside bytes := by
  simp only [Ne, ← h.decode_eq_ok_iff, ← h.decode_eq_unexpectedEof_iff]
  cases hdecode : next.decode bytes with
  | ok s => simp
  | error kind => rcases h.kind_of_decode hdecode with rfl | rfl <;> simp

end CharReader.ReadsUtf8

namespace Utf8

/-! ### A reader of sequences -/

variable {f : Form} {x : UInt8}

theorem sequence_of_begun (h : Begun f b more) : sequence b more = .error .unexpectedEof := by
  have htake : more.take f.further = more := List.take_of_length_le (Nat.le_of_lt h.missing)
  simp only [sequence, h.form, htake, List.all_eq_true.2 h.further, if_true, if_pos h.missing]

theorem sequence_of_not_further (h : Begun f b more) (hx : isFurther x = false) :
    sequence b (more ++ x :: bs) = .error .invalidData := by
  obtain ⟨k, hk⟩ := Nat.exists_eq_add_of_lt h.missing
  have htake : (more ++ x :: bs).take f.further = more ++ x :: bs.take k := by
    rw [hk, Nat.add_assoc, List.take_length_add_append, List.take_succ_cons]
  have hall : (more ++ x :: bs.take k).all isFurther = false :=
    List.all_eq_false.2 ⟨x, by simp, by simp [hx]⟩
  simp only [sequence, h.form, htake, hall, Bool.false_eq_true, if_false]

/-- A complete sequence stands for a character, or it is invalid. -/
theorem sequence_of_complete (h : Complete f b more) (bs : List UInt8) :
    sequence b (more ++ bs) =
      (f.char? (f.code b more)).elim (.error .invalidData) fun c => .ok (c, more.length) := by
  simp only [sequence, h.form, ← h.length, List.take_left, List.all_eq_true.2 h.further, if_true,
    Nat.lt_irrefl, if_false]
  cases f.char? (f.code b more) <;> rfl

theorem sequence_of_not_char (h : Complete f b more)
    (hcode : ¬ (f.least ≤ f.code b more ∧ (f.code b more).isValidChar)) :
    sequence b (more ++ bs) = .error .invalidData := by
  have hchar : f.char? (f.code b more) = none := dif_neg hcode
  rw [sequence_of_complete h, hchar, Option.elim_none]

theorem Spells.char?_eq (h : Spells f b more c) : f.char? (f.code b more) = some c := by
  have hvalid : f.least ≤ f.code b more ∧ (f.code b more).isValidChar := h.code ▸ ⟨h.least, c.valid⟩
  rw [Form.char?, dif_pos hvalid]
  exact congrArg some (Char.toNat_inj.1 h.code)

/-- Sequences are read as they are to be read. -/
theorem readsUtf8_sequence : sequence.ReadsUtf8 where
  lead h := by simp only [sequence, h]
  further := sequence_of_not_further
  missing := sequence_of_begun
  overlong h hcode := sequence_of_not_char h fun hchar => Nat.not_lt.2 hchar.1 hcode
  surrogate h hfirst hlast := sequence_of_not_char h fun hchar => by
    have hvalid := hchar.2
    simp only [Nat.isValidChar] at hvalid
    omega
  beyond h hcode := sequence_of_not_char h fun hchar => by
    have hvalid := hchar.2
    simp only [Nat.isValidChar] at hvalid
    omega
  char h := by rw [sequence_of_complete h.complete, h.char?_eq, Option.elim_some]

theorem decode_toUTF8 (s : String) : decode s.toUTF8 = .ok s := readsUtf8_sequence.decode_toUTF8 s

end Utf8

end Lox.Text

namespace Lox.File

open Text (CharReader)
open Text.Utf8 (EndsInside readsUtf8_sequence)

/-! ### Files -/

variable {next : CharReader} {path s : String} {bytes : ByteArray} {kind : IoKind}

theorem result_textBy : ((⟨path, .ok bytes⟩ : File).textBy next).result =
    (next.decode bytes).mapError Failure.unreadable := by
  have hcontents : (Except.ok bytes >>= next.decode) = next.decode bytes := rfl
  simp only [textBy, hcontents]
  cases next.decode bytes <;> rfl

theorem textBy_eq_ok_iff :
    ((⟨path, .ok bytes⟩ : File).textBy next).result = .ok s ↔ next.decode bytes = .ok s := by
  rw [result_textBy]
  cases next.decode bytes <;> simp [Except.mapError]

theorem textBy_eq_error_iff :
    ((⟨path, .ok bytes⟩ : File).textBy next).result = .error (.unreadable kind) ↔
      next.decode bytes = .error kind := by
  rw [result_textBy]
  cases next.decode bytes <;> simp [Except.mapError]

/-- **Exactly UTF-8.**  Let characters be read from their sequences.  Then a file is read as a text
exactly if its bytes are what that text is written as.  Otherwise it ends too early, if it ends
inside a sequence behind a text, or it is invalid. -/
theorem reads_utf8 (h : next.ReadsUtf8) (path : String) (bytes : ByteArray) :
    let result := ((⟨path, .ok bytes⟩ : File).textBy next).result
    (∀ s, result = .ok s ↔ bytes = s.toUTF8) ∧
      (result = .error (.unreadable .unexpectedEof) ↔ EndsInside bytes) ∧
      (result = .error (.unreadable .invalidData) ↔
        (∀ s : String, bytes ≠ s.toUTF8) ∧ ¬ EndsInside bytes) := by
  refine ⟨fun s => ?_, ?_, ?_⟩
  · rw [textBy_eq_ok_iff, h.decode_eq_ok_iff]
  · rw [textBy_eq_error_iff, h.decode_eq_unexpectedEof_iff]
  · rw [textBy_eq_error_iff, h.decode_eq_invalidData_iff]

/-- A byte order mark, a NUL and a line break of two characters are kept.  Two bytes that would stand
for one of them are no text, and a euro sign that lacks its last byte is none yet. -/
theorem reads_utf8_marked : Text.Utf8.sequence.ReadsUtf8 ∧
    (⟨"a.lox", .ok ⟨#[0xEF, 0xBB, 0xBF, 0x00, 0x0D, 0x0A]⟩⟩ : File).text.result =
      .ok "\uFEFF\x00\r\n" ∧
    (∀ s : String, (⟨#[0xC0, 0x80]⟩ : ByteArray) ≠ s.toUTF8) ∧
    EndsInside ⟨#[0x61, 0xE2, 0x82]⟩ := by
  refine ⟨readsUtf8_sequence, ?_, ?_, ?_⟩
  · exact ((reads_utf8 readsUtf8_sequence _ _).1 _).2 (by decide)
  · exact ((reads_utf8 readsUtf8_sequence "a.lox" _).2.2.1 rfl).1
  · exact (reads_utf8 readsUtf8_sequence "a.lox" _).2.1.1 rfl

end Lox.File
