import Lox.Grammar.Program

/-!
# Proofs — Grammar — Readings without an error

`r.Yields last ts a rest`: the reader `r`, in front of `ts`, answers with `a`, leaves `rest` and
reports no error on the way.  A reader that is put together yields exactly what its parts yield one
after the other (`yields_bind`), so a rule of the grammar, read without an error, turns into a
statement about the tokens in front.

`r.Total`: the reader never fails, whatever it reports.  Recovering makes a reader total.
-/

namespace Lox.Grammar

namespace Reader

variable {α β : Type} {last : Token} {ts rest : List Token}

/-- The reader answers with `a`, leaves `rest`, and reports no error. -/
def Yields (r : Reader α) (last : Token) (ts : List Token) (a : α) (rest : List Token) : Prop :=
  ∃ notices, r last ts = ⟨.ok a, rest, notices⟩ ∧ ∀ e, Notice.error e ∉ notices

@[simp] theorem yields_pure {a b : α} :
    (Pure.pure a : Reader α).Yields last ts b rest ↔ b = a ∧ rest = ts := by
  constructor
  · rintro ⟨n, h, -⟩
    cases h
    exact ⟨rfl, rfl⟩
  · rintro ⟨rfl, rfl⟩
    exact ⟨[], rfl, by simp⟩

/-- What two readers yield, one after the other. -/
theorem yields_bind {r : Reader α} {f : α → Reader β} {b : β} :
    (r >>= f).Yields last ts b rest ↔
      ∃ a mid, r.Yields last ts a mid ∧ (f a).Yields last mid b rest := by
  constructor
  · rintro ⟨n, h, hn⟩
    change Reader.bind r f last ts = _ at h
    rw [Reader.bind] at h
    split at h
    next a mid n₁ hr =>
      cases hf : f a last mid with
      | mk result rest' n₂ =>
          rw [hf] at h
          cases h
          simp only [List.mem_append, not_or] at hn
          exact ⟨a, mid, ⟨n₁, hr, fun e => (hn e).1⟩, ⟨n₂, hf, fun e => (hn e).2⟩⟩
    next => cases h
  · rintro ⟨a, mid, ⟨n₁, hr, h₁⟩, ⟨n₂, hf, h₂⟩⟩
    refine ⟨n₁ ++ n₂, ?_, fun e he => (List.mem_append.1 he).elim (h₁ e) (h₂ e)⟩
    change Reader.bind r f last ts = _
    rw [Reader.bind, hr]
    simp only [hf]

@[simp] theorem yields_map {r : Reader α} {f : α → β} {b : β} :
    (f <$> r).Yields last ts b rest ↔ ∃ a, r.Yields last ts a rest ∧ b = f a := by
  change (r >>= fun a => Pure.pure (f a)).Yields last ts b rest ↔ _
  simp only [yields_bind, yields_pure]
  constructor
  · rintro ⟨a, mid, hr, rfl, rfl⟩
    exact ⟨a, hr, rfl⟩
  · rintro ⟨a, hr, rfl⟩
    exact ⟨a, rest, hr, rfl, rfl⟩

@[simp] theorem yields_peek {t : Token} :
    peek.Yields last ts t rest ↔ t = ts.headD last ∧ rest = ts := by
  constructor
  · rintro ⟨n, h, -⟩
    cases h
    exact ⟨rfl, rfl⟩
  · rintro ⟨rfl, rfl⟩
    exact ⟨[], rfl, by simp⟩

@[simp] theorem yields_advance {t : Token} :
    advance.Yields last ts t rest ↔ t = ts.headD last ∧ rest = ts.tail := by
  constructor
  · rintro ⟨n, h, -⟩
    cases h
    exact ⟨rfl, rfl⟩
  · rintro ⟨rfl, rfl⟩
    exact ⟨[], rfl, by simp⟩

@[simp] theorem not_yields_fail {cause : GrammarError.Cause} {a : α} :
    ¬ (fail cause : Reader α).Yields last ts a rest := by
  rintro ⟨n, h, -⟩
  cases h

@[simp] theorem not_yields_report {e : GrammarError} {u : Unit} :
    ¬ (report e).Yields last ts u rest := by
  rintro ⟨n, h, hn⟩
  cases h
  exact hn e (by simp)

theorem yields_ite {c : Prop} [Decidable c] {r s : Reader α} {a : α} :
    (if c then r else s).Yields last ts a rest ↔
      (c ∧ r.Yields last ts a rest) ∨ (¬ c ∧ s.Yields last ts a rest) := by
  by_cases h : c <;> simp [h]

/-- A token that is looked at is the one in front. -/
@[simp] theorem yields_peek_bind {f : Token → Reader β} {b : β} :
    (peek >>= f).Yields last ts b rest ↔ (f (ts.headD last)).Yields last ts b rest := by
  simp only [yields_bind, yields_peek]
  constructor
  · rintro ⟨t, mid, ⟨rfl, rfl⟩, h⟩
    exact h
  · exact fun h => ⟨_, _, ⟨rfl, rfl⟩, h⟩

/-- A token that is consumed is the one in front. -/
@[simp] theorem yields_advance_bind {f : Token → Reader β} {b : β} :
    (advance >>= f).Yields last ts b rest ↔ (f (ts.headD last)).Yields last ts.tail b rest := by
  simp only [yields_bind, yields_advance]
  constructor
  · rintro ⟨t, mid, ⟨rfl, rfl⟩, h⟩
    exact h
  · exact fun h => ⟨_, _, ⟨rfl, rfl⟩, h⟩

/-- A token that is expected, and that is not an end of input, is there. -/
theorem yields_expect {kind : Token.Kind} {cause : GrammarError.Cause} {t : Token}
    (hl : last.kind = .eof) (hk : kind ≠ .eof) :
    (expect kind cause).Yields last ts t rest ↔ t.kind = kind ∧ ts = t :: rest := by
  rw [expect, yields_peek_bind, yields_ite]
  cases ts with
  | nil => simp [hl, hk.symm]
  | cons u us =>
      simp only [List.headD_cons, yields_advance, List.tail_cons, not_yields_fail, and_false,
        or_false, List.cons.injEq]
      constructor
      · rintro ⟨hk, rfl, rfl⟩
        exact ⟨hk, rfl, rfl⟩
      · rintro ⟨hk, rfl, rfl⟩
        exact ⟨hk, rfl, rfl⟩

end Reader

open Reader

variable {last : Token} {ts rest : List Token}

/-- Whatever is in front, the reader answers. -/
def Reader.Total {α : Type} (r : Reader α) : Prop := ∀ last ts, ∃ a, (r last ts).result = .ok a

namespace Reader.Total

variable {α β : Type}

theorem pure (a : α) : (Pure.pure a : Reader α).Total := fun _ _ => ⟨a, rfl⟩

theorem peek : Reader.peek.Total := fun _ _ => ⟨_, rfl⟩

theorem bind {r : Reader α} {f : α → Reader β} (hr : r.Total) (hf : ∀ a, (f a).Total) :
    (r >>= f).Total := by
  intro last ts
  obtain ⟨a, ha⟩ := hr last ts
  obtain ⟨b, hb⟩ := hf a last (r last ts).rest
  refine ⟨b, ?_⟩
  change (Reader.bind r f last ts).result = _
  rw [Reader.bind]
  split <;> rename_i h <;> rw [h] at ha
  · cases ha
    rw [h] at hb
    exact hb
  · cases ha

theorem recovering (r : Reader Stmt) : (Grammar.recovering r).Total := by
  intro last ts
  rw [Grammar.recovering]
  split
  · exact ⟨_, rfl⟩
  · exact ⟨none, rfl⟩

end Reader.Total

/-- Recovering from no error is reading. -/
theorem yields_recovering {r : Reader Stmt} {s? : Option Stmt} :
    (recovering r).Yields last ts s? rest ↔ ∃ s, s? = some s ∧ r.Yields last ts s rest := by
  constructor
  · rintro ⟨n, h, hn⟩
    rw [recovering] at h
    split at h
    next s mid n₁ hr =>
      cases h
      exact ⟨s, rfl, n, hr, hn⟩
    next e mid n₁ hr =>
      cases h
      exact absurd (by simp) (hn e)
  · rintro ⟨s, rfl, n, hr, hn⟩
    exact ⟨n, by rw [recovering, hr], hn⟩

end Lox.Grammar
