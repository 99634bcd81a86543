import Lox.Proofs.Grammar.Progress

/-!
# Proofs — Grammar — The ladder of expressions

`Ladder.expression` reads an expression by recursive descent, one rule for each level of binding:

```
expression := assignment
assignment := logicOr "=" assignment | logicOr
logicOr    := logicAnd ( "or" logicAnd )*
logicAnd   := equality ( "and" equality )*
equality   := comparison ( ( "!=" | "==" ) comparison )*
comparison := term ( ( ">" | ">=" | "<" | "<=" ) term )*
term       := factor ( ( "-" | "+" ) factor )*
factor     := unary ( ( "/" | "*" ) unary )*
unary      := ( "!" | "-" ) unary | primary
primary    := NUMBER | STRING | "true" | "false" | "nil" | IDENTIFIER | "(" expression ")"
```

**Climbing the ladder** (`expression_eq_ladder`).  In front of every token list, `expression` does
what the ladder does: it comes to the same result or stops at the same token, with the same errors
on the way, and leaves the same tokens.

To climb from a level is to climb from the next tighter one, and then to take the operators of that
level (`climbAll_split`).  The last one of these loops may take over where the other ended, because
no tighter operator stands there (`climbAll_stops`).
-/

namespace Lox.Grammar

/-! ### The ladder -/

namespace Ladder

/-- Further operands of a level, as long as one of its operators stands in front of the next. -/
def chain (operators : List Token.Kind) (join : Expr → Token → Expr → Expr) (next : Reader Expr) :
    Nat → Expr → Reader Expr
  | 0, left => pure left
  | budget + 1, left => do
    if (← Reader.peek).kind ∈ operators then
      let operator ← Reader.advance
      let right ← next
      chain operators join next budget (join left operator right)
    else
      return left

/-- A level whose operators lean to the left. `next` reads its operands. -/
def leftAssoc (operators : List Token.Kind) (join : Expr → Token → Expr → Expr)
    (next : Reader Expr) : Reader Expr := do
  let first ← next
  Reader.budgeted id fun budget => chain operators join next budget first

def factor (unary : Reader Expr) : Reader Expr := leftAssoc [.slash, .star] .binary unary

def term (unary : Reader Expr) : Reader Expr := leftAssoc [.minus, .plus] .binary (factor unary)

def comparison (unary : Reader Expr) : Reader Expr :=
  leftAssoc [.greater, .greaterEqual, .less, .lessEqual] .binary (term unary)

def equality (unary : Reader Expr) : Reader Expr :=
  leftAssoc [.bangEqual, .equalEqual] .binary (comparison unary)

def logicAnd (unary : Reader Expr) : Reader Expr := leftAssoc [.kwAnd] .logical (equality unary)

def logicOr (unary : Reader Expr) : Reader Expr := leftAssoc [.kwOr] .logical (logicAnd unary)

def primary (expression : Reader Expr) : Reader Expr := do
  match (← Reader.peek).kind with
  | .number | .string | .kwTrue | .kwFalse | .kwNil =>
    let token ← Reader.advance
    return .literal (token.literal?.getD .nil)
  | .identifier => return .variable (← Reader.advance)
  | .leftParen =>
    let _ ← Reader.advance
    let inner ← expression
    let _ ← Reader.expect .rightParen (.expectRightParen "expression")
    return .grouping inner
  | _ => Reader.fail .expectExpression

mutual

/-- If the left side is not a variable, that is an error, which does not stop reading. -/
def assignment : Nat → Reader Expr
  | 0 => Reader.fail .expectExpression
  | budget + 1 => do
    let target ← logicOr (unary budget)
    if (← Reader.peek).kind = .equal then
      let equals ← Reader.advance
      let value ← assignment budget
      match target with
      | .variable name => return .assign name value
      | target => do
        Reader.report ⟨.invalidAssignmentTarget, equals⟩
        return target
    else
      return target

def unary : Nat → Reader Expr
  | 0 => Reader.fail .expectExpression
  | budget + 1 => do
    match (← Reader.peek).kind with
    | .bang | .minus =>
      let operator ← Reader.advance
      return .unary operator (← unary budget)
    | _ => primary (assignment budget)

end

/-- Reads an expression. From one rule to a tighter one no token is taken, so the budget is two for
each token. -/
def expression : Reader Expr := Reader.budgeted (2 * · + 2) assignment

end Ladder

open Reader

/-! ### Readers one behind the other -/

section

variable {α β γ : Type} {r : Reader α} {f g : α → Reader β} {last t : Token} {ts us : List Token}

theorem advance_bind_apply (f : Token → Reader α) (last t : Token) (ts : List Token) :
    (advance >>= f) last (t :: ts) = f t last ts := rfl

theorem Reader.pure_bind (a : α) (f : α → Reader β) : (Pure.pure a >>= f) = f a := rfl

theorem Reader.bind_pure (r : Reader α) : (r >>= Pure.pure) = r := by
  funext last ts
  cases hr : r last ts with
  | mk result rest notices =>
      cases result with
      | error e => rw [bind_error hr]
      | ok a =>
          rw [bind_ok hr]
          exact congrArg (Step.mk _ _) (List.append_nil notices)

theorem Reader.bind_assoc (r : Reader α) (f : α → Reader β) (g : β → Reader γ) :
    (r >>= f >>= g) = r >>= fun a => f a >>= g := by
  funext last ts
  cases hr : r last ts with
  | mk result mid notices =>
      cases result with
      | error e => rw [bind_error hr, bind_error (bind_error hr)]
      | ok a =>
          rw [bind_ok hr]
          cases hf : f a last mid with
          | mk result rest notices' =>
              have hrf : (r >>= f) last ts = ⟨result, rest, notices ++ notices'⟩ := by
                rw [bind_ok hr, hf]
              cases result with
              | error e => rw [bind_error hrf, bind_error hf]
              | ok b => rw [bind_ok hrf, bind_ok hf, List.append_assoc]

/-- What comes next matters only with the result and the tokens that come before it. -/
theorem bind_congr (h : ∀ a rest notices, r last ts = ⟨.ok a, rest, notices⟩ →
    f a last rest = g a last rest) : (r >>= f) last ts = (r >>= g) last ts := by
  cases hr : r last ts with
  | mk result rest notices =>
      cases result with
      | error e => rw [bind_error hr, bind_error hr]
      | ok a => rw [bind_ok hr, bind_ok hr, h a rest notices hr]

/-- Two readers that do the same may be followed by the same. -/
theorem bind_congr_left {r' : Reader α} (h : r last ts = r' last us) (f : α → Reader β) :
    (r >>= f) last ts = (r' >>= f) last us := by
  cases hr : r last ts with
  | mk result rest notices =>
      cases result with
      | error e => rw [bind_error hr, bind_error (h ▸ hr)]
      | ok a => rw [bind_ok hr, bind_ok (h ▸ hr)]

end

/-! ### Climbing, with all the budget there is -/

section

variable {last t : Token} {ts us rest : List Token} {level : Level} {left : Expr} {budget : Nat}

/-- Reads an operand. -/
def operandAll : Reader Expr := Reader.budgeted id operand

/-- Reads the operators behind an operand that bind tighter than `level`. -/
def climbAll (level : Level) (left : Expr) : Reader Expr :=
  Reader.budgeted id fun budget => climb budget level left

/-- Reads an operand, and the operators behind it that bind tighter than `level`. -/
def above (level : Level) : Reader Expr := operandAll >>= climbAll level

theorem operand_eq (hl : last.kind = .eof) (h : ts.length ≤ budget) :
    operand budget last ts = operandAll last ts := by
  obtain ⟨us, rest, result, notices, rfl, hreads⟩ :=
    (expressionLocal (P := fun _ => True) hl ts fun _ _ _ => trivial).1
  exact (hreads.reads budget last rest hl rfl h).trans
    (hreads.reads _ last rest hl rfl (Nat.le_refl _)).symm

theorem climb_eq (hl : last.kind = .eof) (h : ts.length ≤ budget) (level : Level) (left : Expr) :
    climb budget level left last ts = climbAll level left last ts := by
  obtain ⟨us, rest, result, notices, rfl, hreads⟩ :=
    (expressionLocal (P := fun _ => True) hl ts fun _ _ _ => trivial).2 level left
  exact (hreads.reads budget last rest hl rfl h).trans
    (hreads.reads _ last rest hl rfl (Nat.le_refl _)).symm

theorem above_forward (hl : last.kind = .eof) (level : Level) (ts : List Token) :
    Forward 0 (above level) last ts := by
  refine Forward.bind ((operand_forward_climb_forward hl ts.length).1 ts) fun first rest => ?_
  exact (operand_forward_climb_forward hl rest.length).2 level first rest

/-- An operand and the operators behind it, with any budget that is enough. -/
theorem operand_climb_eq (hl : last.kind = .eof) (h : ts.length ≤ budget) (level : Level) :
    (operand budget >>= climb budget level) last ts = above level last ts := by
  rw [above, ← bind_congr_left (operand_eq hl h)]
  refine bind_congr fun first rest notices hr => climb_eq hl ?_ level first
  exact (((operand_forward_climb_forward hl budget).1 ts).length_le_of_eq hr).trans h

theorem expression_eq_above (hl : last.kind = .eof) (ts : List Token) :
    expression last ts = above .lowest last ts :=
  operand_climb_eq hl (Nat.le_refl _) .lowest

theorem climbAll_of_not_below (h : level.below (.ofKind (ts.headD last).kind) = false) :
    climbAll level left last ts = (Pure.pure left : Reader Expr) last ts :=
  climb_of_not_below h

/-- What follows the right side of an operator finds no more tokens than that did. -/
theorem right_bind (hl : last.kind = .eof) {f g : Expr → Reader Expr}
    (h : ∀ right rest, rest.length ≤ us.length → f right last rest = g right last rest) :
    (do
      let first ← operand us.length
      let right ← climb us.length level first
      f right : Reader Expr) last us = (above level >>= g) last us := by
  rw [← Reader.bind_assoc, bind_congr_left (operand_climb_eq hl (Nat.le_refl _) level)]
  exact bind_congr fun right rest notices hr =>
    h right rest ((above_forward hl level us).length_le_of_eq hr)

theorem climbAll_of_equal (hl : last.kind = .eof) (h : level.below (.ofKind t.kind))
    (ht : t.kind = .equal) :
    climbAll level left last (t :: us) = (do
      let value ← above .lowest
      climbAll level (← assignTo left t value) : Reader Expr) last us := by
  change climb (us.length + 1) level left last (t :: us) = _
  rw [climb_of_below h, advance_bind_apply]
  simp only [ht, if_true]
  refine right_bind hl fun value rest hrest => bind_congr fun e mid notices hr => ?_
  exact climb_eq hl (((assignTo_forward left value t).length_le_of_eq hr).trans hrest) level e

theorem climbAll_of_operator (hl : last.kind = .eof) (h : level.below (.ofKind t.kind))
    (ht : t.kind ≠ .equal) :
    climbAll level left last (t :: us) = (do
      let right ← above (.ofKind t.kind)
      climbAll level (operation left t right) : Reader Expr) last us := by
  change climb (us.length + 1) level left last (t :: us) = _
  rw [climb_of_below h, advance_bind_apply]
  simp only [ht, if_false]
  exact right_bind hl fun right rest hrest => climb_eq hl hrest level _

theorem exists_cons_of_below (hl : last.kind = .eof)
    (h : level.below (.ofKind (ts.headD last).kind)) : ∃ t us, ts = t :: us := by
  refine exists_cons_of_headD hl rfl fun heof => ?_
  have hin := inExpression_of_below h
  rw [heof] at hin
  cases hin

/-- The reader comes to a result only in front of a token that does not bind tighter than
`level`. -/
def StopsAt (level : Level) (r : Reader Expr) (last : Token) (ts : List Token) : Prop :=
  ∀ e rest notices, r last ts = ⟨.ok e, rest, notices⟩ →
    level.below (.ofKind (rest.headD last).kind) = false

theorem StopsAt.bind {r : Reader Expr} {f : Expr → Reader Expr}
    (h : ∀ a mid notices, r last ts = ⟨.ok a, mid, notices⟩ → StopsAt level (f a) last mid) :
    StopsAt level (r >>= f) last ts := by
  intro e rest notices heq
  cases hr : r last ts with
  | mk result mid notices' =>
      cases result with
      | error e' =>
          rw [bind_error hr] at heq
          cases heq
      | ok a =>
          rw [bind_ok hr] at heq
          cases hf : f a last mid with
          | mk result rest' notices'' =>
              rw [hf] at heq
              cases heq
              exact h a mid notices' hr e rest' notices'' hf

/-- Climbing ends in front of a token that does not bind tighter. -/
theorem climbAll_stops (hl : last.kind = .eof) (level : Level) (left : Expr) (ts : List Token) :
    StopsAt level (climbAll level left) last ts := by
  induction hn : ts.length using Nat.strongRecOn generalizing ts left with
  | ind n ih =>
      cases hbelow : level.below (.ofKind (ts.headD last).kind) with
      | false =>
          intro e rest notices heq
          rw [climbAll_of_not_below hbelow] at heq
          cases heq
          exact hbelow
      | true =>
          obtain ⟨t, us, rfl⟩ := exists_cons_of_below hl hbelow
          rw [List.headD_cons] at hbelow
          rw [List.length_cons] at hn
          -- Behind the right side of the operator, climbing goes on from the same level.
          have hgoes : ∀ e rest, rest.length ≤ us.length →
              StopsAt level (climbAll level e) last rest :=
            fun e rest hrest => ih rest.length (by omega) e rest rfl
          by_cases ht : t.kind = .equal
          · intro e rest notices heq
            rw [climbAll_of_equal hl hbelow ht] at heq
            refine StopsAt.bind (fun value mid _ hr => ?_) e rest notices heq
            refine StopsAt.bind fun e mid' _ hr' => hgoes e mid' ?_
            exact ((assignTo_forward left value t).length_le_of_eq hr').trans
              ((above_forward hl .lowest us).length_le_of_eq hr)
          · intro e rest notices heq
            rw [climbAll_of_operator hl hbelow ht] at heq
            refine StopsAt.bind (fun right mid _ hr => hgoes _ mid ?_) e rest notices heq
            exact (above_forward hl (.ofKind t.kind) us).length_le_of_eq hr

theorem above_stops (hl : last.kind = .eof) (level : Level) (ts : List Token) :
    StopsAt level (above level) last ts :=
  .bind fun first mid _ _ => climbAll_stops hl level first mid

end

/-! ### Loops -/

section

variable {operators : List Token.Kind} {join : Expr → Token → Expr → Expr} {next : Reader Expr}
  {last t : Token} {ts us : List Token} {left : Expr}

/-- Takes the operators of a level, as many as there are. -/
def chainAll (operators : List Token.Kind) (join : Expr → Token → Expr → Expr) (next : Reader Expr)
    (left : Expr) : Reader Expr :=
  Reader.budgeted id fun budget => Ladder.chain operators join next budget left

theorem chain_of_not_mem (h : (ts.headD last).kind ∉ operators) (budget : Nat) :
    Ladder.chain operators join next budget left last ts =
      (Pure.pure left : Reader Expr) last ts := by
  cases budget with
  | zero => rfl
  | succ budget =>
      rw [Ladder.chain, peek_bind_apply]
      simp only [h, if_false]

theorem chain_of_mem (h : t.kind ∈ operators) (budget : Nat) :
    Ladder.chain operators join next (budget + 1) left last (t :: us) = (do
      let right ← next
      Ladder.chain operators join next budget (join left t right) : Reader Expr) last us := by
  rw [Ladder.chain, peek_bind_apply, List.headD_cons]
  simp only [h, if_true]
  rfl

/-- Budgets that are enough for a loop make no difference. -/
theorem chain_eq (heof : last.kind ∉ operators) (hnext : ∀ ts, Forward 0 next last ts)
    {budget budget' : Nat} (h : ts.length ≤ budget) (h' : ts.length ≤ budget') (left : Expr) :
    Ladder.chain operators join next budget left last ts =
      Ladder.chain operators join next budget' left last ts := by
  induction budget generalizing budget' ts left with
  | zero =>
      obtain rfl := List.eq_nil_of_length_eq_zero (Nat.le_zero.1 h)
      rw [chain_of_not_mem heof, chain_of_not_mem heof]
  | succ budget ih =>
      by_cases hfront : (ts.headD last).kind ∈ operators
      · cases ts with
        | nil => exact absurd hfront heof
        | cons t us =>
            rw [List.headD_cons] at hfront
            rw [List.length_cons] at h h'
            obtain ⟨budget', rfl⟩ : ∃ b, budget' = b + 1 := ⟨budget' - 1, by omega⟩
            rw [chain_of_mem hfront, chain_of_mem hfront]
            refine bind_congr fun right rest notices hr => ?_
            have hle := (hnext us).length_le_of_eq hr
            exact ih (by omega) (by omega) _
      · rw [chain_of_not_mem hfront, chain_of_not_mem hfront]

theorem chainAll_of_mem (heof : last.kind ∉ operators) (hnext : ∀ ts, Forward 0 next last ts)
    (h : t.kind ∈ operators) :
    chainAll operators join next left last (t :: us) = (do
      let right ← next
      chainAll operators join next (join left t right) : Reader Expr) last us := by
  change Ladder.chain operators join next (us.length + 1) left last (t :: us) = _
  rw [chain_of_mem h]
  refine bind_congr fun right rest notices hr => ?_
  exact chain_eq heof hnext ((hnext us).length_le_of_eq hr) (Nat.le_refl _) _

end

/-! ### From one level to the next -/

/-- A level of operators, `tight`, and the one below it. -/
structure Rung (loose tight : Level) (operators : List Token.Kind)
    (join : Expr → Token → Expr → Expr) : Prop where
  mem_iff : ∀ k, k ∈ operators ↔ Level.ofKind k = tight
  rank_eq : tight.rank = loose.rank + 1
  assign_le : Level.assign.rank ≤ loose.rank
  operation_eq : ∀ left t right, t.kind ∈ operators → operation left t right = join left t right

section

variable {loose tight : Level} {operators : List Token.Kind} {join : Expr → Token → Expr → Expr}
  {next : Reader Expr} {last t : Token} {ts us : List Token} {left : Expr}

namespace Rung

/-- A token that binds tighter than the looser level binds tighter than the other, or is one of its
operators. -/
theorem below_iff (h : Rung loose tight operators join) (k : Token.Kind) :
    loose.below (.ofKind k) ↔ tight.below (.ofKind k) ∨ k ∈ operators := by
  rw [h.mem_iff]
  have hrank := h.rank_eq
  have hinj : (Level.ofKind k).rank = tight.rank ↔ Level.ofKind k = tight := by
    generalize Level.ofKind k = l
    cases l <;> cases tight <;> simp [Level.rank]
  simp only [Level.below, decide_eq_true_eq, ← hinj]
  omega

theorem eof_not_mem (h : Rung loose tight operators join) (hl : last.kind = .eof) :
    last.kind ∉ operators := by
  rw [hl, h.mem_iff]
  have := h.rank_eq
  rintro rfl
  cases this

theorem ne_equal (h : Rung loose tight operators join) {k : Token.Kind}
    (hk : loose.below (.ofKind k)) : k ≠ .equal := by
  rintro rfl
  have hlt : loose.rank < Level.assign.rank := of_decide_eq_true hk
  exact Nat.not_lt.2 h.assign_le hlt

end Rung

/-- To climb from a level is to climb from a tighter one and to go on with `next`, if it is to go on
with `next` where no tighter operator stands in front. -/
theorem climbAll_eq_bind (hl : last.kind = .eof) {next : Expr → Reader Expr}
    (hoperator : ∀ k, tight.below (.ofKind k) = true → loose.below (.ofKind k) = true ∧ k ≠ .equal)
    (hnext : ∀ left ts, tight.below (.ofKind (ts.headD last).kind) = false →
      (∀ left us, us.length < ts.length →
        climbAll loose left last us = (climbAll tight left >>= next) last us) →
      climbAll loose left last ts = next left last ts) (left : Expr) (ts : List Token) :
    climbAll loose left last ts = (climbAll tight left >>= next) last ts := by
  induction hn : ts.length using Nat.strongRecOn generalizing ts left with
  | ind n ih =>
      cases htight : tight.below (.ofKind (ts.headD last).kind) with
      | true =>
          -- A tighter operator is taken by both, and both go on behind its right side.
          obtain ⟨t, us, rfl⟩ := exists_cons_of_below hl htight
          rw [List.headD_cons] at htight
          obtain ⟨hloose, ht⟩ := hoperator t.kind htight
          rw [climbAll_of_operator hl hloose ht,
            bind_congr_left (climbAll_of_operator hl htight ht), Reader.bind_assoc]
          refine bind_congr fun right rest notices hr => ih rest.length ?_ _ rest rfl
          have hle := (above_forward hl (.ofKind t.kind) us).length_le_of_eq hr
          rw [List.length_cons] at hn
          omega
      | false =>
          rw [bind_congr_left (climbAll_of_not_below htight), Reader.pure_bind]
          exact hnext left ts htight fun left us hus => ih us.length (hn ▸ hus) left us rfl

/-- To climb from a level is to climb from the next one, and to take the operators in between. -/
theorem climbAll_split (hl : last.kind = .eof) (h : Rung loose tight operators join) (left : Expr)
    (ts : List Token) :
    climbAll loose left last ts =
      (climbAll tight left >>= chainAll operators join (above tight)) last ts := by
  refine climbAll_eq_bind hl (fun k htight => ?_) (fun left ts htight ih => ?_) left ts
  · have hloose := (h.below_iff k).2 (.inl htight)
    exact ⟨hloose, h.ne_equal hloose⟩
  by_cases hmem : (ts.headD last).kind ∈ operators
  · cases ts with
    | nil => exact absurd hmem (h.eof_not_mem hl)
    | cons t us =>
        rw [List.headD_cons] at hmem
        have hloose := (h.below_iff t.kind).2 (.inr hmem)
        rw [climbAll_of_operator hl hloose (h.ne_equal hloose),
          chainAll_of_mem (h.eof_not_mem hl) (above_forward hl tight) hmem,
          (h.mem_iff t.kind).1 hmem]
        refine bind_congr fun right rest notices hr => ?_
        have hlt : rest.length < (t :: us).length :=
          Nat.lt_succ_of_le ((above_forward hl tight us).length_le_of_eq hr)
        have hstop := above_stops hl tight us right rest notices hr
        -- No tighter operator is left, so the loop goes on at once.
        rw [h.operation_eq left t right hmem, ih _ rest hlt,
          bind_congr_left (climbAll_of_not_below hstop), Reader.pure_bind]
  · have hloose : loose.below (.ofKind (ts.headD last).kind) = false := by
      rw [Bool.eq_false_iff]
      intro hbelow
      rcases (h.below_iff _).1 hbelow with hbelow | hbelow
      · rw [htight] at hbelow
        cases hbelow
      · exact hmem hbelow
    rw [climbAll_of_not_below hloose]
    exact (chain_of_not_mem hmem _).symm

/-- A level whose operands are all that binds tighter. -/
theorem leftAssoc_above (hl : last.kind = .eof) (h : Rung loose tight operators join)
    (ts : List Token) :
    Ladder.leftAssoc operators join (above tight) last ts = above loose last ts := by
  change (operandAll >>= climbAll tight >>= chainAll operators join (above tight)) last ts = _
  rw [Reader.bind_assoc]
  exact bind_congr fun left rest _ _ => (climbAll_split hl h left rest).symm

end

/-! ### Readers that do the same in front of few tokens -/

/-- In front of up to `n` tokens, two readers do the same, and leave no more tokens than there
are. -/
def Agree {α : Type} (last : Token) (n : Nat) (r r' : Reader α) : Prop :=
  ∀ ts : List Token, ts.length ≤ n →
    r last ts = r' last ts ∧ (r last ts).rest.length ≤ ts.length

section

variable {α β : Type} {last : Token} {n : Nat} {r r' : Reader α}

theorem Agree.of_forward (h : ∀ ts, Forward 0 r last ts) (heq : ∀ ts, r last ts = r' last ts) :
    Agree last n r r' :=
  fun ts _ => ⟨heq ts, (h ts).length_le⟩

theorem Agree.bind {f f' : α → Reader β} (h : Agree last n r r')
    (hf : ∀ a, Agree last n (f a) (f' a)) :
    Agree last n (r >>= f) (r' >>= f') := by
  intro ts hts
  obtain ⟨heq, hle⟩ := h ts hts
  cases hr : r last ts with
  | mk result rest notices =>
      rw [hr] at hle
      cases result with
      | error e =>
          rw [bind_error hr, bind_error (heq ▸ hr)]
          exact ⟨rfl, hle⟩
      | ok a =>
          obtain ⟨heq', hle'⟩ := hf a rest (hle.trans hts)
          rw [bind_ok hr, bind_ok (heq ▸ hr), heq']
          exact ⟨rfl, (heq' ▸ hle').trans hle⟩

theorem Agree.chain {operators : List Token.Kind} {join : Expr → Token → Expr → Expr}
    {next next' : Reader Expr} (h : Agree last n next next') (budget : Nat) (left : Expr) :
    Agree last n (Ladder.chain operators join next budget left)
      (Ladder.chain operators join next' budget left) := by
  induction budget generalizing left with
  | zero => exact .of_forward (fun _ => .pure left) fun _ => rfl
  | succ budget ih =>
      rw [Ladder.chain, Ladder.chain]
      refine .bind (.of_forward (fun _ => .peek) fun _ => rfl) fun front => ?_
      split
      · exact .bind (.of_forward (fun _ => .advance) fun _ => rfl) fun operator =>
          .bind h fun right => ih _
      · exact .of_forward (fun _ => .pure left) fun _ => rfl

theorem Agree.leftAssoc {operators : List Token.Kind} {join : Expr → Token → Expr → Expr}
    {next next' : Reader Expr} (h : Agree last n next next') :
    Agree last n (Ladder.leftAssoc operators join next) (Ladder.leftAssoc operators join next') :=
  .bind h fun left ts hts => h.chain ts.length left ts hts

theorem Agree.trans_eq {r'' : Reader α} (h : Agree last n r r')
    (heq : ∀ ts, r' last ts = r'' last ts) :
    Agree last n r r'' :=
  fun ts hts => ⟨(h ts hts).1.trans (heq ts), (h ts hts).2⟩

end

/-! ### The rungs of the ladder -/

section

variable {loose tight : Level} {operators : List Token.Kind} {next : Reader Expr}
  {last t : Token} {ts us : List Token} {left : Expr} {budget n : Nat}

theorem Rung.of_isBinary (hmem : ∀ k, k ∈ operators ↔ Level.ofKind k = tight)
    (hrank : tight.rank = loose.rank + 1) (hle : Level.assign.rank ≤ loose.rank)
    (h : ∀ k ∈ operators, k.isBinary) : Rung loose tight operators .binary :=
  ⟨hmem, hrank, hle, fun _ t _ ht => operation_of_isBinary (h t.kind ht)⟩

theorem Rung.of_isLogical (hmem : ∀ k, k ∈ operators ↔ Level.ofKind k = tight)
    (hrank : tight.rank = loose.rank + 1) (hle : Level.assign.rank ≤ loose.rank)
    (h : ∀ k ∈ operators, k.isLogical) : Rung loose tight operators .logical :=
  ⟨hmem, hrank, hle, fun _ t _ ht => operation_of_isLogical (h t.kind ht)⟩

theorem rung_factor : Rung .term .factor [.slash, .star] .binary :=
  .of_isBinary (by intro k; cases k <;> decide) rfl (by decide) (by decide)

theorem rung_term : Rung .comparison .term [.minus, .plus] .binary :=
  .of_isBinary (by intro k; cases k <;> decide) rfl (by decide) (by decide)

theorem rung_comparison :
    Rung .equality .comparison [.greater, .greaterEqual, .less, .lessEqual] .binary :=
  .of_isBinary (by intro k; cases k <;> decide) rfl (by decide) (by decide)

theorem rung_equality : Rung .and .equality [.bangEqual, .equalEqual] .binary :=
  .of_isBinary (by intro k; cases k <;> decide) rfl (by decide) (by decide)

theorem rung_and : Rung .or .and [.kwAnd] .logical :=
  .of_isLogical (by intro k; cases k <;> decide) rfl (by decide) (by decide)

theorem rung_or : Rung .assign .or [.kwOr] .logical :=
  .of_isLogical (by intro k; cases k <;> decide) rfl (by decide) (by decide)

/-- The next rung. -/
theorem Agree.rung (hl : last.kind = .eof) {join : Expr → Token → Expr → Expr}
    (h : Agree last n next (above tight)) (hrung : Rung loose tight operators join) :
    Agree last n (Ladder.leftAssoc operators join next) (above loose) :=
  h.leftAssoc.trans_eq (leftAssoc_above hl hrung)

/-- No operator binds tighter than those of factors. -/
theorem operandAll_eq_above (ts : List Token) : operandAll last ts = above .factor last ts := by
  have hfactor : ∀ k, Level.factor.below (.ofKind k) = false := by intro k; cases k <;> decide
  rw [above, bind_congr fun first rest _ _ => climbAll_of_not_below (hfactor _), Reader.bind_pure]

/-- The ladder, down to where assignments are. -/
theorem logicOr_agree (hl : last.kind = .eof) (h : Agree last n next operandAll) :
    Agree last n (Ladder.logicOr next) (above .assign) :=
  (h.trans_eq operandAll_eq_above).rung hl rung_factor |>.rung hl rung_term
    |>.rung hl rung_comparison |>.rung hl rung_equality |>.rung hl rung_and |>.rung hl rung_or

/-! ### Assignments -/

/-- An assignment behind its target, if there is one. -/
def assignmentOf (value : Reader Expr) (target : Expr) : Reader Expr := do
  if (← Reader.peek).kind = .equal then
    let equals ← Reader.advance
    assignTo target equals (← value)
  else
    return target

theorem assignmentOf_of_ne (h : (ts.headD last).kind ≠ .equal) :
    assignmentOf next left last ts = (Pure.pure left : Reader Expr) last ts := by
  rw [assignmentOf, peek_bind_apply]
  simp only [h, if_false]

theorem assignmentOf_of_equal (h : t.kind = .equal) :
    assignmentOf next left last (t :: us) =
      (do assignTo left t (← next) : Reader Expr) last us := by
  rw [assignmentOf, peek_bind_apply, List.headD_cons]
  simp only [h, if_true]
  rfl

/-- To assign takes no token. -/
theorem rest_assignTo {target value e : Expr} {rest : List Token} {notices : List Notice}
    (h : assignTo target t value last ts = ⟨.ok e, rest, notices⟩) : ts = rest := by
  cases target <;> exact congrArg Step.rest h

/-- What binds at all is an assignment, or binds tighter than one. -/
theorem lowest_below_iff (k : Token.Kind) :
    Level.lowest.below (.ofKind k) ↔ Level.assign.below (.ofKind k) ∨ k = .equal := by
  cases k <;> decide

/-- To climb from the lowest level is to climb from the next one, and then to assign. -/
theorem climbAll_lowest (hl : last.kind = .eof) (left : Expr) (ts : List Token) :
    climbAll .lowest left last ts =
      (climbAll .assign left >>= assignmentOf (above .lowest)) last ts := by
  refine climbAll_eq_bind hl (fun k hassign => ?_) (fun left ts hassign _ => ?_) left ts
  · refine ⟨(lowest_below_iff k).2 (.inl hassign), ?_⟩
    rintro rfl
    cases hassign
  by_cases hequal : (ts.headD last).kind = .equal
  · obtain ⟨t, us, rfl⟩ := exists_cons_of_headD hl hequal (by decide)
    rw [List.headD_cons] at hequal
    rw [climbAll_of_equal hl (by rw [hequal]; rfl) hequal, assignmentOf_of_equal hequal]
    refine bind_congr fun value rest notices hr => ?_
    -- The value took all operators, and to assign takes no token.
    have hstop := above_stops hl .lowest us value rest notices hr
    rw [bind_congr fun e mid _ hr' => climbAll_of_not_below (rest_assignTo hr' ▸ hstop),
      Reader.bind_pure]
  · have hlowest : Level.lowest.below (.ofKind (ts.headD last).kind) = false := by
      rw [Bool.eq_false_iff]
      intro hbelow
      rcases (lowest_below_iff _).1 hbelow with hbelow | hbelow
      · rw [hassign] at hbelow
        cases hbelow
      · exact hequal hbelow
    rw [climbAll_of_not_below hlowest, assignmentOf_of_ne hequal]

/-! ### Operands -/

/-- What is asked of the ladder in front of `ts`. -/
structure Climbs (last : Token) (ts : List Token) : Prop where
  unary : ∀ budget, 2 * ts.length + 1 ≤ budget → Ladder.unary budget last ts = operandAll last ts
  assignment : ∀ budget, 2 * ts.length + 2 ≤ budget →
    Ladder.assignment budget last ts = above .lowest last ts

theorem unary_of_isUnary (h : (ts.headD last).kind.isUnary) :
    Ladder.unary (budget + 1) last ts = (do
      let operator ← advance
      return .unary operator (← Ladder.unary budget) : Reader Expr) last ts := by
  rw [Ladder.unary, peek_bind_apply]
  generalize (ts.headD last).kind = k at h ⊢
  cases k <;> first | rfl | cases h

theorem unary_of_not_isUnary (h : (ts.headD last).kind.isUnary = false) :
    Ladder.unary (budget + 1) last ts = Ladder.primary (Ladder.assignment budget) last ts := by
  rw [Ladder.unary, peek_bind_apply]
  generalize (ts.headD last).kind = k at h ⊢
  cases k <;> first | rfl | cases h

theorem primary_of_leftParen (h : (ts.headD last).kind = .leftParen) :
    Ladder.primary next last ts = (do
      let _ ← advance
      let inner ← next
      let _ ← expect .rightParen (.expectRightParen "expression")
      return .grouping inner : Reader Expr) last ts := by
  rw [Ladder.primary, peek_bind_apply, h]

/-- A primary expression without parentheses is an operand. -/
theorem primary_of_ne_leftParen (hu : (ts.headD last).kind.isUnary = false)
    (h : (ts.headD last).kind ≠ .leftParen) :
    Ladder.primary next last ts = operand (budget + 1) last ts := by
  rw [Ladder.primary, operand, peek_bind_apply, peek_bind_apply]
  generalize (ts.headD last).kind = k at hu h ⊢
  cases k <;> first | rfl | exact absurd rfl h | cases hu

theorem climbs_unary (hl : last.kind = .eof)
    (ih : ∀ us : List Token, us.length < ts.length → Climbs last us) (budget : Nat)
    (hb : 2 * ts.length + 1 ≤ budget) : Ladder.unary budget last ts = operandAll last ts := by
  obtain ⟨budget, rfl⟩ : ∃ b, budget = b + 1 := ⟨budget - 1, by omega⟩
  cases hu : (ts.headD last).kind.isUnary with
  | true =>
      obtain ⟨t, us, rfl⟩ : ∃ t us, ts = t :: us :=
        exists_cons_of_headD hl rfl fun heof => by rw [heof] at hu; cases hu
      rw [List.length_cons] at hb ih
      change _ = operand (us.length + 1) last (t :: us)
      rw [unary_of_isUnary hu, operand_of_isUnary hu, advance_bind_apply, advance_bind_apply]
      exact bind_congr_left ((ih us (Nat.lt_succ_self _)).unary budget (by omega)) _
  | false =>
      rw [unary_of_not_isUnary hu]
      by_cases hp : (ts.headD last).kind = .leftParen
      · obtain ⟨t, us, rfl⟩ := exists_cons_of_headD hl hp (by decide)
        rw [List.length_cons] at hb ih
        change _ = operand (us.length + 1) last (t :: us)
        rw [primary_of_leftParen hp, operand_of_leftParen hp, advance_bind_apply,
          advance_bind_apply, ← Reader.bind_assoc (operand us.length),
          bind_congr_left (operand_climb_eq hl (Nat.le_refl _) .lowest)]
        exact bind_congr_left ((ih us (Nat.lt_succ_self _)).assignment budget (by omega)) _
      · rw [← operand_eq hl (Nat.le_succ _)]
        exact primary_of_ne_leftParen hu hp

theorem assignment_succ (budget : Nat) :
    Ladder.assignment (budget + 1) =
      (Ladder.logicOr (Ladder.unary budget) >>= assignmentOf (Ladder.assignment budget)) := by
  rw [Ladder.assignment]
  rfl

theorem climbs_assignment (hl : last.kind = .eof)
    (ih : ∀ us : List Token, us.length < ts.length → Climbs last us) (budget : Nat)
    (hb : 2 * ts.length + 2 ≤ budget) :
    Ladder.assignment budget last ts = above .lowest last ts := by
  obtain ⟨budget, rfl⟩ : ∃ b, budget = b + 1 := ⟨budget - 1, by omega⟩
  have hunary : Agree last ts.length (Ladder.unary budget) operandAll := by
    intro us hus
    have heq : Ladder.unary budget last us = operandAll last us :=
      climbs_unary hl (fun vs hvs => ih vs (by omega)) budget (by omega)
    exact ⟨heq, heq ▸ ((operand_forward_climb_forward hl us.length).1 us).length_le⟩
  have hvalue : ∀ target rest, rest.length ≤ ts.length →
      assignmentOf (Ladder.assignment budget) target last rest =
        assignmentOf (above .lowest) target last rest := by
    intro target rest hrest
    by_cases hequal : (rest.headD last).kind = .equal
    · obtain ⟨t, us, rfl⟩ := exists_cons_of_headD hl hequal (by decide)
      rw [List.headD_cons] at hequal
      rw [List.length_cons] at hrest
      rw [assignmentOf_of_equal hequal, assignmentOf_of_equal hequal]
      exact bind_congr_left ((ih us (by omega)).assignment budget (by omega)) _
    · rw [assignmentOf_of_ne hequal, assignmentOf_of_ne hequal]
  calc Ladder.assignment (budget + 1) last ts
      = (Ladder.logicOr (Ladder.unary budget) >>= assignmentOf (Ladder.assignment budget))
          last ts := by rw [assignment_succ]
    _ = (above .assign >>= assignmentOf (Ladder.assignment budget)) last ts :=
        bind_congr_left (logicOr_agree hl hunary ts (Nat.le_refl _)).1 _
    _ = (above .assign >>= assignmentOf (above .lowest)) last ts :=
        bind_congr fun target rest _ hr =>
          hvalue target rest ((above_forward hl .assign ts).length_le_of_eq hr)
    _ = above .lowest last ts := by
        rw [above, Reader.bind_assoc]
        exact (bind_congr fun first rest _ _ => climbAll_lowest hl first rest).symm

theorem climbs (hl : last.kind = .eof) (ts : List Token) : Climbs last ts := by
  induction hn : ts.length using Nat.strongRecOn generalizing ts with
  | ind n ih =>
      subst hn
      have ih : ∀ us : List Token, us.length < ts.length → Climbs last us :=
        fun us hus => ih us.length hus us rfl
      exact ⟨climbs_unary hl ih, climbs_assignment hl ih⟩

/-- To read an expression is to descend the ladder, wherever one starts. -/
theorem expression_eq (hl : last.kind = .eof) (ts : List Token) :
    expression last ts = Ladder.expression last ts :=
  (expression_eq_above hl ts).trans ((climbs hl ts).assignment _ (Nat.le_refl _)).symm

end

/-- **Climbing the ladder.**  In front of every token list, an expression is read as the ladder
reads it. -/
theorem expression_eq_ladder (ts : List Token) :
    expression (Input.ofTokens ts).last (Input.ofTokens ts).body =
      Ladder.expression (Input.ofTokens ts).last (Input.ofTokens ts).body :=
  expression_eq (Input.ofTokens_last ts) _

end Lox.Grammar
