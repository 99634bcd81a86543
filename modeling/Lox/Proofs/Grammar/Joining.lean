import Lox.Proofs.Grammar.Completeness

/-!
# Proofs — Grammar — Programs one behind the other

Two programs without an error, one behind the other, are read as the statements of both
(`parse_append`).  Nothing at the seam can join them to one statement: a statement is at its end
where the first program ends, and no program without an error starts with `else`.

What stands behind an end of input is never read, so a token list may be `Closing`, or nothing may
stand behind the tokens at all.
-/

namespace Lox.Grammar

variable {us vs e : List Token}

/-- What ends a token list, or is never read: nothing, or what starts with an end of input. -/
def Closing (e : List Token) : Prop := ∀ t ∈ e.head?, t.isEof

/-- What stands behind the end of input is not read. -/
theorem body_append_closing (hus : ∀ t ∈ us, t.kind ≠ .eof) (he : Closing e) :
    (Input.ofTokens (us ++ e)).body = us := by
  rw [Input.ofTokens, List.takeWhile_append_of_pos fun t ht => by simpa [Token.isEof] using hus t ht]
  cases e with
  | nil => simp
  | cons t e => simp [he t rfl]

theorem writtenAll_append (ss ss' : List Stmt) :
    Stmt.writtenAll (ss ++ ss') = Stmt.writtenAll ss ++ Stmt.writtenAll ss' := by
  induction ss with
  | nil => rfl
  | cons s ss ih => rw [List.cons_append, Stmt.writtenAll, ih, Stmt.writtenAll, List.append_assoc]

theorem allShaped_append {ss ss' : List Stmt} (h : Stmt.AllShaped ss) (h' : Stmt.AllShaped ss') :
    Stmt.AllShaped (ss ++ ss') := by
  induction ss with
  | nil => exact h'
  | cons s ss ih => exact ⟨h.1, ih h.2⟩

/-- Two programs without an error, one behind the other. -/
theorem parse_append (hus : ∀ t ∈ us, t.kind ≠ .eof) (he : Closing e)
    (h : (Parse.ofTokens (us ++ e)).errors = []) (h' : (Parse.ofTokens vs).errors = []) :
    (Parse.ofTokens (us ++ vs)).errors = [] ∧
      (Parse.ofTokens (us ++ vs)).statements =
        (Parse.ofTokens (us ++ e)).statements ++ (Parse.ofTokens vs).statements := by
  obtain ⟨hw, hs⟩ := writes_statements h
  obtain ⟨hw', hs'⟩ := writes_statements h'
  rw [body_append_closing hus he] at hw
  have hbody : (Input.ofTokens (us ++ vs)).body = us ++ (Input.ofTokens vs).body :=
    List.takeWhile_append_of_pos fun t ht => by simpa [Token.isEof] using hus t ht
  have hlast := Input.ofTokens_last (us ++ vs)
  refine errors_eq_nil_iff.2 ⟨[], ?_⟩
  rw [hbody]
  have hd := declarationsComplete hlast _ (allShaped_append hs hs') .program _ []
    (2 * (us ++ (Input.ofTokens vs).body).length) (writtenAll_append _ _ ▸ hw.append hw') (by simp)
    (by simp [Enclosure.endsBefore, Token.isEof, hlast])
  rw [List.append_nil] at hd
  exact hd

end Lox.Grammar
