import Mathlib.Order.Monotone.Basic
import Lox.Proofs.Grammar.Recovery

/-!
# Proofs — Grammar — Readers that stop promptly

A reader is prompt in front of some tokens if it comes to a result that stands whatever of the
`follow` tokens comes next, or else stops at a token such that

* the tokens in front of it could have been continued to a result, and
* no continuation makes up for the token itself: with it, reading stops there.

`Prompt cost lead follow r last ts` says so of a family of readers, one for each budget.  The tokens
that continue a list are chosen when it is too late to ask the readers that came before, each of
which looked one token ahead; so a continuation, and what takes no token at all, starts with a
`lead` token, and one reader may stand in front of another if what leads the second one may follow
the first one (`Prompt.bind`).

An invalid assignment target is reported, but nothing stops at it, and so it does not count.
-/

namespace Lox

/-- Whether reading stops at the error, be it to resume behind it. -/
def GrammarError.stops (e : GrammarError) : Bool := e.cause ≠ .invalidAssignmentTarget

/-- The first error that reading stopped at. -/
def Parse.firstStop? (p : Parse) : Option GrammarError := p.errors.find? (·.stops)

namespace Grammar

variable {α β : Type} {last t : Token} {ts us us' mid rest : List Token} {a : α} {b : β}
  {e : GrammarError}

/-- The errors that were met: those that were noticed, and the one that ended it. -/
def Step.errors (step : Step α) : List GrammarError :=
  errorsIn step.notices ++ match step.result with
    | .ok _ => []
    | .error e => [e]

/-- A program fails at no error, so all its errors are noticed. -/
theorem errors_ofTokens (ts : List Token) :
    (Parse.ofTokens ts).errors =
      (program (Input.ofTokens ts).last (Input.ofTokens ts).body).errors := by
  obtain ⟨ss, hss⟩ := @declarations_total (2 * (Input.ofTokens ts).body.length)
    .program (Input.ofTokens ts).last (Input.ofTokens ts).body
  rw [Step.errors, program, Reader.budgeted, hss, List.append_nil]
  rfl

/-- The first error that reading stopped at. -/
def Step.firstStop? (step : Step α) : Option GrammarError := step.errors.find? (·.stops)

theorem headD_append (us rest : List Token) (last : Token) :
    (us ++ rest).headD last = us.headD (rest.headD last) := by
  cases us <;> rfl

namespace Reader

/-- The reader answers with `a` and leaves `rest`, without an error that it stopped at. -/
def Passes (r : Reader α) (last : Token) (ts : List Token) (a : α) (rest : List Token) : Prop :=
  ∃ notices, r last ts = ⟨.ok a, rest, notices⟩ ∧ ∀ e ∈ errorsIn notices, e.stops = false

/-- The first error that the reader stops at is `e`. -/
def Stops (r : Reader α) (last : Token) (ts : List Token) (e : GrammarError) : Prop :=
  (r last ts).firstStop? = some e

theorem Passes.firstStop? {r : Reader α} (h : r.Passes last ts a rest) :
    (r last ts).firstStop? = none := by
  obtain ⟨notices, hr, hn⟩ := h
  rw [hr, Step.firstStop?, Step.errors, List.append_nil, List.find?_eq_none]
  simpa using hn

theorem Stops.not_passes {r : Reader α} (h : r.Stops last ts e) : ¬ r.Passes last ts a rest := by
  intro hp
  have := hp.firstStop?.symm.trans h
  cases this

theorem Passes.bind {r : Reader α} {f : α → Reader β} (h : r.Passes last ts a mid)
    (h' : (f a).Passes last mid b rest) : (r >>= f).Passes last ts b rest := by
  obtain ⟨notices, hr, hn⟩ := h
  obtain ⟨notices', hr', hn'⟩ := h'
  refine ⟨notices ++ notices', by rw [bind_ok hr, hr'], fun e he => ?_⟩
  rw [errorsIn_append, List.mem_append] at he
  exact he.elim (hn e) (hn' e)

/-- What follows a result stops where it stops. -/
theorem Passes.stops_bind {r : Reader α} {f : α → Reader β} (h : r.Passes last ts a mid)
    (h' : (f a).Stops last mid e) : (r >>= f).Stops last ts e := by
  obtain ⟨notices, hr, hn⟩ := h
  have hnone : (errorsIn notices).find? (·.stops) = none := by
    rw [List.find?_eq_none]
    simpa using hn
  rw [Stops, bind_ok hr, Step.firstStop?, Step.errors, errorsIn_append, List.append_assoc,
    List.find?_append, hnone, Option.none_or]
  exact h'

/-- Whatever follows, the first error stays the first. -/
theorem Stops.bind {r : Reader α} {f : α → Reader β} (h : r.Stops last ts e) :
    (r >>= f).Stops last ts e := by
  rw [Stops] at h ⊢
  cases hr : r last ts with
  | mk result mid notices =>
      rw [hr] at h
      cases result with
      | error e' =>
          rw [bind_error hr]
          exact h
      | ok a =>
          rw [bind_ok hr, Step.firstStop?, Step.errors, errorsIn_append, List.append_assoc,
            List.find?_append]
          rw [Step.firstStop?, Step.errors, List.append_nil] at h
          rw [h, Option.some_or]

theorem passes_pure (a : α) : (Pure.pure a : Reader α).Passes last ts a ts :=
  ⟨[], rfl, by simp [errorsIn]⟩

theorem stops_fail {cause : GrammarError.Cause} (h : cause ≠ .invalidAssignmentTarget)
    (last : Token) (ts : List Token) :
    (fail cause : Reader α).Stops last ts ⟨cause, ts.headD last⟩ := by
  simp [Stops, fail, Step.firstStop?, Step.errors, errorsIn, GrammarError.stops, h]

theorem passes_expect {kind : Token.Kind} (cause : GrammarError.Cause) (h : t.kind = kind) :
    (expect kind cause).Passes last (t :: ts) t ts := by
  refine ⟨[], ?_, by simp [errorsIn]⟩
  rw [expect, peek_bind_apply, List.headD_cons, if_pos h]
  rfl

theorem Passes.recovering {r : Reader Stmt} {s : Stmt} (h : r.Passes last ts s rest) :
    (recovering r).Passes last ts (some s) rest := by
  obtain ⟨notices, hr, hn⟩ := h
  exact ⟨notices, by rw [Grammar.recovering, hr], hn⟩

/-- Recovering from an error does not undo it. -/
theorem Stops.recovering {r : Reader Stmt} (h : r.Stops last ts e) :
    (recovering r).Stops last ts e := by
  rw [Stops, Grammar.recovering]
  rw [Stops] at h
  cases hr : r last ts with
  | mk result mid notices =>
      rw [hr] at h
      cases result with
      | ok s => exact h
      | error e' =>
          simp only [Step.firstStop?, Step.errors, errorsIn_append, List.append_nil]
          exact h

end Reader

open Reader

/-! ### Stretches of tokens -/

/-- Any token. -/
def Anything (_ : Token) : Prop := True

variable {cost cost' : Nat → Nat} {lead lead' mean follow follow' : Token → Prop}
  {r r' : Nat → Reader α}

/-- Of the tokens `us` the reader makes `a`, if a `follow` token comes next and the budget is
enough. -/
def Accepts (cost : Nat → Nat) (follow : Token → Prop) (r : Nat → Reader α) (us : List Token)
    (a : α) : Prop :=
  ∀ (budget : Nat) (last : Token) (rest : List Token), last.kind = .eof → follow (rest.headD last) →
    cost (us ++ rest).length ≤ budget → (r budget).Passes last (us ++ rest) a rest

/-- Behind the tokens `us` the reader stops at the token that the error blames. -/
def Rejects (cost : Nat → Nat) (r : Nat → Reader α) (us : List Token) (e : GrammarError) : Prop :=
  ∀ (budget : Nat) (last : Token) (rest : List Token), last.kind = .eof → rest.headD last = e.token →
    cost (us ++ rest).length ≤ budget → (r budget).Stops last (us ++ rest) e

namespace Accepts

theorem mono (h : Accepts cost follow r us a) (hf : ∀ t, follow' t → follow t) :
    Accepts cost follow' r us a :=
  fun budget last rest hl hfollow hlen => h budget last rest hl (hf _ hfollow) hlen

/-- A budget that is smaller for the rest is enough for what reads the rest. -/
theorem bind {g : α → Nat → Reader β} (h : Accepts cost mean r us a)
    (h' : Accepts cost' follow (g a) us' b) (hcost : ∀ n, cost' n ≤ cost (us.length + n))
    (hlead : ∀ t, follow t → mean (us'.headD t)) :
    Accepts cost follow (fun budget => r budget >>= fun a => g a budget) (us ++ us') b := by
  intro budget last rest hl hfollow hlen
  rw [List.append_assoc] at hlen ⊢
  refine (h budget last (us' ++ rest) hl ?_ hlen).bind (h' budget last rest hl hfollow ?_)
  · rw [headD_append]
    exact hlead _ hfollow
  · rw [List.length_append] at hlen
    exact (hcost _).trans hlen

theorem recovering {r : Nat → Reader Stmt} {s : Stmt} (h : Accepts cost follow r us s) :
    Accepts cost follow (fun budget => Grammar.recovering (r budget)) us (some s) :=
  fun budget last rest hl hfollow hlen => (h budget last rest hl hfollow hlen).recovering

end Accepts

namespace Rejects

theorem bind_left {g : α → Nat → Reader β} (h : Rejects cost r us e) :
    Rejects cost (fun budget => r budget >>= fun a => g a budget) us e :=
  fun budget last rest hl hhead hlen => (h budget last rest hl hhead hlen).bind

theorem bind_right {g : α → Nat → Reader β} (h : Accepts cost mean r us a)
    (h' : Rejects cost' (g a) us' e) (hcost : ∀ n, cost' n ≤ cost (us.length + n))
    (hlead : mean (us'.headD e.token)) :
    Rejects cost (fun budget => r budget >>= fun a => g a budget) (us ++ us') e := by
  intro budget last rest hl hhead hlen
  rw [List.append_assoc] at hlen ⊢
  refine (h budget last (us' ++ rest) hl ?_ hlen).stops_bind (h' budget last rest hl hhead ?_)
  · rw [headD_append, hhead]
    exact hlead
  · rw [List.length_append] at hlen
    exact (hcost _).trans hlen

end Rejects

/-! ### Continuations -/

/-- There are tokens of which the reader makes something, and which start with a `lead` token. -/
def Completes (cost : Nat → Nat) (lead follow : Token → Prop) (r : Nat → Reader α) : Prop :=
  ∃ (ws : List Token) (a : α), (∀ t ∈ ws, t.isEof = false) ∧
    (∀ t, follow t → lead (ws.headD t)) ∧ Accepts cost follow r ws a

namespace Completes

theorem mono (h : Completes cost lead follow r) (hlead : ∀ t, lead t → lead' t)
    (hf : ∀ t, follow' t → follow t) : Completes cost lead' follow' r := by
  obtain ⟨ws, a, heof, hfirst, h⟩ := h
  exact ⟨ws, a, heof, fun t ht => hlead _ (hfirst t (hf t ht)), h.mono hf⟩

theorem anyLead (h : Completes cost lead follow r) : Completes cost Anything follow r :=
  h.mono (fun _ _ => trivial) fun _ ht => ht

/-- A reader that takes nothing needs nothing. -/
theorem idle {r : Reader α} (h : ∀ last ts, r.Passes last ts a ts)
    (hlead : ∀ t, follow t → lead t) : Completes cost lead follow fun _ => r :=
  ⟨[], a, by simp, hlead, fun _ last rest _ _ _ => h last rest⟩

theorem pure (a : α) (hlead : ∀ t, follow t → lead t) :
    Completes cost lead follow fun _ => (Pure.pure a : Reader α) :=
  .idle (fun _ _ => passes_pure a) hlead

theorem bind {g : α → Nat → Reader β} (hcost : Monotone cost) (h : Completes cost lead mean r)
    (hg : ∀ a, Completes cost mean follow (g a)) :
    Completes cost lead follow fun budget => r budget >>= fun a => g a budget := by
  obtain ⟨ws, a, heof, hfirst, h⟩ := h
  obtain ⟨ws', b, heof', hfirst', h'⟩ := hg a
  refine ⟨ws ++ ws', b, ?_, fun t ht => ?_, h.bind h' (fun n => hcost (Nat.le_add_left _ _)) hfirst'⟩
  · exact fun t ht => (List.mem_append.1 ht).elim (heof t) (heof' t)
  · rw [headD_append]
    exact hfirst _ (hfirst' t ht)

theorem map (f : α → β) (h : Completes cost lead follow r) :
    Completes cost lead follow fun budget => r budget >>= fun a => Pure.pure (f a) := by
  obtain ⟨ws, a, heof, hfirst, h⟩ := h
  refine ⟨ws, f a, heof, hfirst, fun budget last rest hl hfollow hlen => ?_⟩
  exact (h budget last rest hl hfollow hlen).bind (passes_pure _)

/-- A budget that the number of tokens determines is enough. -/
theorem budgeted (h : Completes cost lead follow r) :
    Completes cost' lead follow fun _ => Reader.budgeted cost r := by
  obtain ⟨ws, a, heof, hfirst, h⟩ := h
  exact ⟨ws, a, heof, hfirst, fun _ last rest hl hfollow _ =>
    h _ last rest hl hfollow (Nat.le_refl _)⟩

/-- A token that is expected. -/
theorem expect {kind : Token.Kind} (cause : GrammarError.Cause) (hk : kind ≠ .eof)
    (hlead : ∀ t : Token, t.kind = kind → lead t) :
    Completes cost lead follow fun _ => Reader.expect kind cause := by
  refine ⟨[bare kind ""], bare kind "", ?_, fun t _ => hlead _ rfl, fun _ _ _ _ _ _ => passes_expect cause rfl⟩
  simp [Token.isEof, bare, hk]

end Completes

/-! ### Prompt readers -/

/-- In front of `ts`, the reader comes to a result, or stops at a token as early as possible. -/
inductive Prompt (cost : Nat → Nat) (lead follow : Token → Prop) (r : Nat → Reader α) (last : Token)
    (ts : List Token) : Prop where
  /-- What it makes of the tokens `us` depends on the token behind them, and is the same if that is
  any of the `follow` tokens. -/
  | accepts (us rest : List Token) (a : α) (hts : ts = us ++ rest)
      (hlead : us = [] → ∀ t, follow t → lead t)
      (h : Accepts cost (fun t => t = rest.headD last ∨ follow t) r us a)
  /-- The tokens `us` can be continued with `ws`, but not with the token behind them. -/
  | rejects (us rest ws : List Token) (e : GrammarError) (a : α) (hts : ts = us ++ rest)
      (htoken : rest.headD last = e.token) (heof : ∀ t ∈ ws, t.isEof = false)
      (hlead : us = [] → ∀ t, follow t → lead (ws.headD t)) (h : Rejects cost r us e)
      (hcontinued : Accepts cost follow r (us ++ ws) a)

namespace Prompt

theorem mono (h : Prompt cost lead follow r last ts) (hlead : ∀ t, lead t → lead' t)
    (hf : ∀ t, follow' t → follow t) : Prompt cost lead' follow' r last ts := by
  cases h with
  | accepts us rest a hts hfirst h =>
      refine .accepts us rest a hts (fun hus t ht => hlead t (hfirst hus t (hf t ht))) ?_
      exact h.mono fun t ht => ht.imp_right (hf t)
  | rejects us rest ws e a hts htoken heof hfirst h hcontinued =>
      exact .rejects us rest ws e a hts htoken heof
        (fun hus t ht => hlead _ (hfirst hus t (hf t ht))) h (hcontinued.mono hf)

/-- In front, the reader may start with anything. -/
theorem anyLead (h : Prompt cost lead follow r last ts) : Prompt cost Anything follow r last ts :=
  h.mono (fun _ _ => trivial) fun _ ht => ht

theorem idle {r : Reader α} (h : ∀ last ts, r.Passes last ts a ts)
    (hlead : ∀ t, follow t → lead t) : Prompt cost lead follow (fun _ => r) last ts :=
  .accepts [] ts a rfl (fun _ => hlead) fun _ last rest _ _ _ => h last rest

theorem pure (a : α) (hlead : ∀ t, follow t → lead t) :
    Prompt cost lead follow (fun _ => (Pure.pure a : Reader α)) last ts :=
  .idle (fun _ _ => passes_pure a) hlead

/-- What stops at the token in front stops promptly, if anything could have stood there. -/
theorem of_fail (cause : GrammarError.Cause) (hcause : cause ≠ .invalidAssignmentTarget)
    (hr : ∀ (budget : Nat) (last' : Token) (ts' : List Token), last'.kind = .eof →
      ts'.headD last' = ts.headD last → r budget last' ts' = Reader.fail cause last' ts')
    (hc : Completes cost lead follow r) : Prompt cost lead follow r last ts := by
  obtain ⟨ws, a, heof, hlead, hc⟩ := hc
  refine .rejects [] ts ws ⟨cause, ts.headD last⟩ a rfl rfl heof (fun _ => hlead) ?_ hc
  intro budget last' rest hl hhead _
  rw [Stops, List.nil_append, hr budget last' rest hl hhead]
  rw [show ts.headD last = _ from hhead.symm]
  exact stops_fail hcause last' rest

/-- A token that is expected, or another one. -/
theorem expect {kind : Token.Kind} {cause : GrammarError.Cause} (hl : last.kind = .eof)
    (hk : kind ≠ .eof) (hcause : cause ≠ .invalidAssignmentTarget)
    (hlead : ∀ t : Token, t.kind = kind → lead t) :
    Prompt cost lead follow (fun _ => Reader.expect kind cause) last ts := by
  by_cases ht : (ts.headD last).kind = kind
  · cases ts with
    | nil => exact absurd (ht.symm.trans hl) hk
    | cons t us =>
        exact .accepts [t] us t rfl (by simp) fun _ last' rest _ _ _ => passes_expect cause ht
  · refine .of_fail cause hcause (fun _ last' ts' _ hhead => ?_) (.expect cause hk hlead)
    rw [Reader.expect, peek_bind_apply, hhead, if_neg ht]

/-- Two readers, of which the second one needs a budget for the rest only. -/
theorem bind_of_cost {g : α → Nat → Reader β} (h : Prompt cost lead mean r last ts)
    (hcost : ∀ us a, Accepts cost mean r us a → ∀ n, cost' n ≤ cost (us.length + n))
    (hg : ∀ us rest a, ts = us ++ rest → Accepts cost mean r us a →
      Prompt cost' mean follow (g a) last rest)
    (hc : ∀ a, Completes cost' mean follow (g a)) :
    Prompt cost lead follow (fun budget => r budget >>= fun a => g a budget) last ts := by
  cases h with
  | rejects us rest ws e a hts htoken heof hlead h hcontinued =>
      -- What completes the first reader is chosen before the second one has a token in front.
      obtain ⟨ws', b, heof', hlead', hc⟩ := hc a
      refine .rejects us rest (ws ++ ws') e b hts htoken ?_ ?_ h.bind_left ?_
      · exact fun t ht => (List.mem_append.1 ht).elim (heof t) (heof' t)
      · intro hus t ht
        rw [headD_append]
        exact hlead hus _ (hlead' t ht)
      · rw [← List.append_assoc]
        exact hcontinued.bind hc (hcost _ _ hcontinued) hlead'
  | accepts us rest a hts hlead h =>
      have hmean : Accepts cost mean r us a := h.mono fun t => .inr
      cases hg us rest a hts hmean with
      | accepts us' rest' b hrest hlead' h' =>
          refine .accepts (us ++ us') rest' b (by rw [hts, hrest, List.append_assoc]) ?_ ?_
          · intro hnil t ht
            obtain ⟨hus, hus'⟩ := List.append_eq_nil_iff.1 hnil
            exact hlead hus t (hlead' hus' t ht)
          · refine h.bind h' (hcost us a hmean) fun t ht => ?_
            -- The first reader sees the token that it saw, or else the second one took nothing.
            rw [hrest, headD_append]
            cases us' with
            | nil => exact ht.imp_right (hlead' rfl t)
            | cons => exact .inl rfl
      | rejects us' rest' ws e b hrest htoken heof hlead' h' hcontinued =>
          refine .rejects (us ++ us') rest' ws e b (by rw [hts, hrest, List.append_assoc]) htoken heof
            ?_ (.bind_right h h' (hcost us a hmean) ?_) ?_
          · intro hnil t ht
            obtain ⟨hus, hus'⟩ := List.append_eq_nil_iff.1 hnil
            exact hlead hus _ (hlead' hus' t ht)
          · exact .inl (by rw [hrest, headD_append, htoken])
          · rw [List.append_assoc]
            refine h.bind hcontinued (hcost us a hmean) fun t ht => ?_
            rw [hrest, headD_append, headD_append]
            cases us' with
            | nil => exact .inr (hlead' rfl t ht)
            | cons => exact .inl rfl

/-- Two readers, one behind the other. -/
theorem bind {g : α → Nat → Reader β} (hcost : Monotone cost) (h : Prompt cost lead mean r last ts)
    (hg : ∀ a rest, rest <:+ ts → Prompt cost mean follow (g a) last rest)
    (hc : ∀ a, Completes cost mean follow (g a)) :
    Prompt cost lead follow (fun budget => r budget >>= fun a => g a budget) last ts :=
  h.bind_of_cost (fun _ _ _ _ => hcost (Nat.le_add_left _ _))
    (fun us rest a hts _ => hg a rest ⟨us, hts.symm⟩) hc

/-- What follows a reader may be made of its result. -/
theorem map (f : α → β) (h : Prompt cost lead follow r last ts) :
    Prompt cost lead follow (fun budget => r budget >>= fun a => Pure.pure (f a)) last ts :=
  h.bind_of_cost (fun _ _ _ _ => Nat.zero_le _) (fun _ _ a _ _ => .pure (f a) fun _ ht => ht)
    fun a => .pure (f a) fun _ ht => ht

theorem recovering {r : Nat → Reader Stmt} (h : Prompt cost lead follow r last ts) :
    Prompt cost lead follow (fun budget => Grammar.recovering (r budget)) last ts := by
  cases h with
  | accepts us rest s hts hlead h => exact .accepts us rest (some s) hts hlead h.recovering
  | rejects us rest ws e s hts htoken heof hlead h hcontinued =>
      refine .rejects us rest ws e (some s) hts htoken heof hlead ?_ hcontinued.recovering
      exact fun budget last' rest' hl hhead hlen => (h budget last' rest' hl hhead hlen).recovering

/-- What reads alike is prompt alike, with a budget that is enough for the same. -/
theorem congr (h : Prompt cost lead follow r last ts)
    (hr : ∀ (budget : Nat) (last' : Token) (ts' : List Token), last'.kind = .eof →
      ts'.headD last' = ts.headD last ∨ lead (ts'.headD last') → cost' ts'.length ≤ budget →
        ∃ budget', cost ts'.length ≤ budget' ∧ r' budget last' ts' = r budget' last' ts') :
    Prompt cost' lead follow r' last ts := by
  have haccepts {us : List Token} {a : α} {follow' : Token → Prop}
      (h : Accepts cost follow' r us a)
      (hfront : ∀ t, follow' t → us.headD t = ts.headD last ∨ lead (us.headD t)) :
      Accepts cost' follow' r' us a := by
    intro budget last' rest hl hfollow hlen
    obtain ⟨budget', hlen', heq⟩ := hr budget last' (us ++ rest) hl
      (by rw [headD_append]; exact hfront _ hfollow) hlen
    rw [Passes, heq]
    exact h budget' last' rest hl hfollow hlen'
  cases h with
  | accepts us rest a hts hfirst h =>
      refine .accepts us rest a hts hfirst (haccepts h fun t ht => ?_)
      rw [hts, headD_append]
      cases us with
      | nil => exact ht.imp_right (hfirst rfl t)
      | cons => exact .inl rfl
  | rejects us rest ws e a hts htoken heof hfirst h hcontinued =>
      refine .rejects us rest ws e a hts htoken heof hfirst ?_ (haccepts hcontinued fun t ht => ?_)
      · intro budget last' rest' hl hhead hlen
        obtain ⟨budget', hlen', heq⟩ := hr budget last' (us ++ rest') hl
          (.inl (by rw [hts, headD_append, headD_append, hhead, htoken])) hlen
        rw [Stops, heq]
        exact h budget' last' rest' hl hhead hlen'
      · rw [hts, headD_append, headD_append]
        cases us with
        | nil => exact .inr (hfirst rfl t ht)
        | cons => exact .inl rfl

theorem enough (h : Prompt cost lead follow r last ts) (hcost : ∀ n, cost n ≤ cost' n) :
    Prompt cost' lead follow r last ts :=
  h.congr fun budget _ _ _ _ hlen => ⟨budget, (hcost _).trans hlen, rfl⟩

/-- A reader without a budget does not ask for one. -/
theorem unbudgeted {r : Reader α} (h : Prompt cost lead follow (fun _ => r) last ts) :
    Prompt cost' lead follow (fun _ => r) last ts :=
  h.congr fun _ _ _ _ _ _ => ⟨_, Nat.le_refl _, rfl⟩

/-- A budget that the number of tokens determines is enough. -/
theorem budgeted (h : Prompt cost lead follow r last ts) :
    Prompt cost' lead follow (fun _ => Reader.budgeted cost r) last ts :=
  h.congr fun _ _ _ _ _ _ => ⟨_, Nat.le_refl _, rfl⟩

/-- What is read may depend on the token in front, if it is the same for all `lead` tokens. -/
theorem peek_bind {g : Token → Nat → Reader α}
    (hlead : ∀ t, lead t → g t = g (ts.headD last))
    (h : Prompt cost lead follow (g (ts.headD last)) last ts) :
    Prompt cost lead follow (fun budget => Reader.peek >>= fun t => g t budget) last ts := by
  refine h.congr fun budget last' ts' _ hfront hlen => ⟨budget, hlen, ?_⟩
  rw [peek_bind_apply]
  rcases hfront with hfront | hfront
  · rw [hfront]
  · rw [hlead _ hfront]

/-- A token is consumed. -/
theorem advance_bind {g : Token → Nat → Reader α} (h : Prompt cost Anything follow (g t) last us) :
    Prompt (fun n => cost (n - 1)) lead follow
      (fun budget => Reader.advance >>= fun t => g t budget) last (t :: us) := by
  have haccepts {vs : List Token} {a : α} {follow' : Token → Prop}
      (h : Accepts cost follow' (g t) vs a) :
      Accepts (fun n => cost (n - 1)) follow'
        (fun budget => Reader.advance >>= fun t => g t budget) (t :: vs) a :=
    fun budget last' rest hl hfollow hlen => h budget last' rest hl hfollow hlen
  cases h with
  | accepts vs rest a hts _ h =>
      exact .accepts (t :: vs) rest a (congrArg (t :: ·) hts) nofun (haccepts h)
  | rejects vs rest ws e a hts htoken heof _ h hcontinued =>
      refine .rejects (t :: vs) rest ws e a (congrArg (t :: ·) hts) htoken heof nofun ?_
        (haccepts hcontinued)
      exact fun budget last' rest' hl hhead hlen => h budget last' rest' hl hhead hlen

/-- A token is consumed by a reader without a budget. -/
theorem advance {f : Token → Reader α} (h : Prompt id Anything follow (fun _ => f t) last us) :
    Prompt cost lead follow (fun _ => Reader.advance >>= f) last (t :: us) := by
  have hadvance : Prompt (fun n => id (n - 1)) lead follow (fun _ => Reader.advance >>= f) last
      (t :: us) := advance_bind h
  exact hadvance.unbudgeted

/-- What reads alike, with one more of the budget, is prompt alike; unless it stands in front of the
end of input, where there may be no budget. -/
theorem congr_succ (h : Prompt cost lead follow r last ts) (hne : (ts.headD last).kind ≠ .eof)
    (hlead : ∀ t, lead t → t.kind ≠ .eof) (hcost : ∀ n, cost (n + 1) + 1 ≤ cost' (n + 1))
    (hr : ∀ (budget : Nat) (last' : Token) (ts' : List Token),
      ts'.headD last' = ts.headD last ∨ lead (ts'.headD last') →
        r' (budget + 1) last' ts' = r budget last' ts') : Prompt cost' lead follow r' last ts := by
  refine h.congr fun budget last' ts' hl hfront hlen => ?_
  cases ts' with
  | nil =>
      -- The end of input stands neither in front of `ts` nor in front of a continuation.
      rcases hfront with hfront | hfront
      · exact absurd (hfront ▸ hl) hne
      · exact absurd hl (hlead _ hfront)
  | cons t ts' =>
      have := hcost ts'.length
      rw [List.length_cons] at hlen ⊢
      obtain ⟨budget, rfl⟩ : ∃ b, budget = b + 1 := ⟨budget - 1, by omega⟩
      exact ⟨budget, by omega, hr budget last' _ hfront⟩

/-- A token is consumed, and with it one of the budget. -/
theorem of_advance {g : Token → Nat → Reader α} (hne : t.kind ≠ .eof)
    (hcost : ∀ n, cost n + 1 ≤ cost' (n + 1))
    (hr : ∀ (budget : Nat) (last' : Token) (ts' : List Token), ts'.headD last' = t →
      r (budget + 1) last' ts' = (Reader.advance >>= fun t => g t budget) last' ts')
    (h : Prompt cost Anything follow (g t) last us) : Prompt cost' lead follow r last (t :: us) := by
  have hadvance : Prompt (fun n => cost (n - 1)) (fun _ => False) follow _ last (t :: us) :=
    h.advance_bind
  refine (hadvance.congr_succ hne nofun hcost fun budget last' ts' hfront => ?_).mono nofun
    fun _ ht => ht
  exact hr budget last' ts' (hfront.resolve_right id)

end Prompt

end Grammar

end Lox
