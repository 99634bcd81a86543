import Lox.Proofs.Execution.Frame

/-!
# Proofs — Execution — A sink with a limit

**Limit** (`cut_short`).  A program that writes to a sink with a limit does what it does with a sink
that takes everything, up to the byte that is too much: what was written is the beginning of what
would have been, the `print` that was to write that byte is blamed, and names stand for what they
stood for when its value had been found.

What a run without a limit prints is listed by `Stmt.printingsAll`, a line for each `print` that it
comes to, with the scopes that there were then.  `Limits` says of an effect that what it writes are
the lines of such a list, and that a limit makes no difference unless it falls within one of them.
-/

namespace Lox

open Effect (ending ending_bind_ok ending_bind_error ending_onEnvironment ending_inScope Frames)

/-! ### What is printed -/

/-- A line that a run comes to print: the keyword that would be blamed, the value that was found for
it, and the scopes at that moment. -/
structure Printing where
  keyword : Token
  value : Value
  environment : Environment

namespace Printing

/-- The text of the line. -/
def text (p : Printing) : String := p.value.display ++ "\n"

/-- The texts of lines, one behind the other. -/
def texts (ps : List Printing) : String := String.join (ps.map text)

/-- The number of bytes of the lines. -/
def size (ps : List Printing) : Nat := (texts ps).utf8ByteSize

/-- The bytes of the lines. -/
def bytes (ps : List Printing) : ByteArray := (texts ps).toUTF8

/-- A byte of the lines, behind so many others, is one of this line. -/
def At (ps : List Printing) (offset : Nat) (p : Printing) : Prop :=
  ∃ earlier later, ps = earlier ++ p :: later ∧ size earlier ≤ offset ∧
    offset < size (earlier ++ [p])

variable {ps qs : List Printing} {p : Printing} {offset : Nat}

theorem texts_append (ps qs : List Printing) : texts (ps ++ qs) = texts ps ++ texts qs := by
  rw [texts, List.map_append, String.join_append]
  rfl

theorem texts_singleton (p : Printing) : texts [p] = p.text := by
  rw [texts, List.map_singleton, String.join_cons, String.join_nil, String.append_empty]

theorem size_append (ps qs : List Printing) : size (ps ++ qs) = size ps + size qs := by
  rw [size, texts_append, String.utf8ByteSize_append]
  rfl

theorem bytes_append (ps qs : List Printing) : bytes (ps ++ qs) = bytes ps ++ bytes qs := by
  rw [bytes, texts_append]
  exact String.toByteArray_append

theorem size_bytes (ps : List Printing) : (bytes ps).size = size ps :=
  String.size_toByteArray

/-- The beginning of lines that ends among the first of them. -/
theorem extract_bytes_left (h : offset ≤ size ps) :
    (bytes (ps ++ qs)).extract 0 offset = (bytes ps).extract 0 offset := by
  rw [bytes_append, ByteArray.extract_append, size_bytes, Nat.sub_eq_zero_of_le h, Nat.zero_sub,
    ByteArray.extract_same, ByteArray.append_empty]

/-- The beginning of lines that ends behind the first of them. -/
theorem extract_bytes_right (ps qs : List Printing) (offset : Nat) :
    (bytes (ps ++ qs)).extract 0 (size ps + offset) = bytes ps ++ (bytes qs).extract 0 offset := by
  rw [bytes_append, ← size_bytes, ByteArray.extract_eq_extract_append_extract (bytes ps).size
    (Nat.zero_le _) (Nat.le_add_right _ _), ByteArray.extract_append_eq_left rfl]
  exact congrArg (bytes ps ++ ·) (ByteArray.extract_append_size_add (i := 0))

theorem At.append_left (h : At ps offset p) : At (ps ++ qs) offset p := by
  obtain ⟨earlier, later, rfl, hle, hlt⟩ := h
  exact ⟨earlier, later ++ qs, by rw [List.append_assoc, List.cons_append], hle, hlt⟩

theorem At.append_right (h : At qs offset p) : At (ps ++ qs) (size ps + offset) p := by
  obtain ⟨earlier, later, rfl, hle, hlt⟩ := h
  refine ⟨ps ++ earlier, later, by rw [List.append_assoc], ?_, ?_⟩
  · rw [size_append]
    exact Nat.add_le_add_left hle _
  · rw [List.append_assoc, size_append]
    exact Nat.add_lt_add_left hlt _

/-- Lines that begin with other lines have at least as many bytes. -/
theorem size_le_size_append (ps qs : List Printing) : size ps ≤ size (ps ++ qs) := by
  rw [size_append]
  exact Nat.le_add_right _ _

/-- A byte is one of one line only. -/
theorem At.unique {q : Printing} (h : At ps offset p) (h' : At ps offset q) : q = p := by
  obtain ⟨earlier, later, rfl, hle, hlt⟩ := h
  obtain ⟨earlier', later', heq, hle', hlt'⟩ := h'
  -- Whichever line stands first, the other one would begin behind its end.
  have hbehind {r : Printing} {front mid : List Printing} (hr : offset < size (front ++ [r])) :
      ¬ size (front ++ r :: mid) ≤ offset := by
    have hprefix := size_le_size_append (front ++ [r]) mid
    rw [List.append_assoc, List.singleton_append] at hprefix
    exact Nat.not_le_of_lt (Nat.lt_of_lt_of_le hr hprefix)
  rcases List.append_eq_append_iff.1 heq with ⟨mid, rfl, hmid⟩ | ⟨mid, rfl, hmid⟩
  · cases mid with
    | nil => exact (List.cons.inj hmid).1.symm
    | cons r mid =>
        obtain rfl := (List.cons.inj hmid).1
        exact absurd hle' (hbehind hlt)
  · cases mid with
    | nil => exact (List.cons.inj hmid).1
    | cons r mid =>
        obtain rfl := (List.cons.inj hmid).1
        exact absurd hle (hbehind hlt')

theorem At.singleton (h : offset < size [p]) : At [p] offset p :=
  ⟨[], [], rfl, Nat.zero_le _, h⟩

end Printing

/-- What is printed behind an effect that ends with a result. -/
def Effect.printingsBehind {α : Type} (x : Effect Machine α) (ps : α → Machine → List Printing)
    (m : Machine) : List Printing :=
  match ending x m with
  | (.ok a, m') => ps a m'
  | (.error _, _) => []

mutual

/-- What a statement prints. -/
def Stmt.printings : Stmt → Machine → List Printing
  | .expression _, _ | .declare _ _, _ => []
  | .print keyword e, m =>
    Effect.printingsBehind (Effect.onEnvironment e.evaluate)
      (fun v m' => [⟨keyword, v, m'.environment⟩]) m
  | .block body, m => Stmt.printingsAll body m.enter
  | .conditional condition consequent alternative?, m =>
    Effect.printingsBehind (Effect.onEnvironment condition.evaluate)
      (fun v m' =>
        if v.truthy then consequent.printings m'
        else
          match alternative? with
          | some alternative => alternative.printings m'
          | none => []) m

/-- What statements print, up to the first fault. -/
def Stmt.printingsAll : List Stmt → Machine → List Printing
  | [], _ => []
  | s :: ss, m => s.printings m ++ Effect.printingsBehind s.execute (fun _ => printingsAll ss) m

end

section

variable {α : Type} {x : Effect Machine α} {ps : α → Machine → List Printing} {m m' : Machine}

theorem Effect.printingsBehind_ok {a : α} (h : ending x m = (.ok a, m')) :
    printingsBehind x ps m = ps a m' := by
  rw [printingsBehind, h]

theorem Effect.printingsBehind_error {f : Fault} (h : ending x m = (.error f, m')) :
    printingsBehind x ps m = [] := by
  rw [printingsBehind, h]

end

namespace Environment

/-- The global scope is never left. -/
theorem global_leaveTo (e : Environment) (scope : ScopeId) :
    (e.leaveTo scope).scopes[0]? = e.scopes[0]? :=
  List.getElem?_take_of_lt (Nat.succ_pos scope)

theorem leaveTo_leaveTo (e : Environment) {inner outer : ScopeId} (h : outer ≤ inner) :
    (e.leaveTo inner).leaveTo outer = e.leaveTo outer := by
  rw [leaveTo, leaveTo, List.take_take, Nat.min_eq_left (Nat.succ_le_succ h), leaveTo]

/-- The current scope is left for itself when it is the last one. -/
theorem Nested.leaveTo_current {e : Environment} (h : e.Nested) : e.leaveTo e.current = e := by
  rw [Environment.leaveTo, h.current_succ, depth, List.take_length]

end Environment

/-! ### Effects and limits -/

/-- The machine with a sink that takes so many bytes more, and fails then. -/
def Machine.allowing (m : Machine) (room : Nat) (failure : IoKind) : Machine :=
  { m with sink := { m.sink with limit? := some (m.sink.written.size + room), failure := failure } }

namespace Machine

theorem fits_allowing (m : Machine) (room : Nat) (failure : IoKind) (bytes : ByteArray) :
    (m.allowing room failure).sink.fits bytes = decide (bytes.size ≤ room) := by
  simp [Sink.fits, allowing]

/-- As much of a text is written as there is room for. -/
theorem write_allowing (m : Machine) (room : Nat) (failure : IoKind) (text : String) :
    (m.allowing room failure).sink.write text = { (m.allowing room failure).sink with
      written := m.sink.written ++ text.toUTF8.extract 0 room } := by
  simp [Sink.write, Sink.accepted, allowing]

end Machine

namespace Effect

variable {α β : Type}

theorem ending_writeLine_of_fits {m : Machine} {token : Token} {text : String}
    (h : m.sink.fits (text ++ "\n").toUTF8 = true) :
    ending (writeLine token text) m =
      (.ok (), { m with sink := m.sink.write (text ++ "\n") }) := by
  rw [ending, writeLine]
  simp only [h, if_true]

theorem ending_writeLine_of_not_fits {m : Machine} {token : Token} {text : String}
    (h : m.sink.fits (text ++ "\n").toUTF8 = false) :
    ending (writeLine token text) m = (.error ⟨.output m.sink.failure, token⟩,
      { m with sink := m.sink.write (text ++ "\n") }) := by
  rw [ending, writeLine]
  simp only [h, Bool.false_eq_true, if_false]

/-- An effect on `m` ended where a line was to be printed of which the sink did not take all, `text`
having been written: the line is blamed, the scopes are those that there were then, and the ones
opened since are left. -/
structure EndsAt (p : Printing) (failure : IoKind) (m : Machine) (text : ByteArray)
    (ended : Except Fault α × Machine) : Prop where
  result : ended.1 = .error ⟨.output failure, p.keyword⟩
  written : ended.2.sink.written = m.sink.written ++ text
  globals : ended.2.environment.scopes[0]? = p.environment.scopes[0]?
  environment : m.environment.Nested →
    ended.2.environment = p.environment.leaveTo m.environment.current

/-- Without a limit, the effect writes the lines.  With room for the lines and `more`, it does what
it does without, and leaves room for `more`.  With less room, it ends at the line that does not
fit. -/
structure Limits (x : Effect Machine α) (printings : Machine → List Printing) : Prop where
  unlimited : ∀ m, m.sink.limit? = none → (ending x m).2.sink.limit? = none ∧
    (ending x m).2.sink.written = m.sink.written ++ Printing.bytes (printings m)
  fits : ∀ m more failure, m.sink.limit? = none →
    ending x (m.allowing (Printing.size (printings m) + more) failure) =
      ((ending x m).1, (ending x m).2.allowing more failure)
  exceeds : ∀ m room failure, m.sink.limit? = none → room < Printing.size (printings m) →
    ∃ p, Printing.At (printings m) room p ∧
      EndsAt p failure m ((Printing.bytes (printings m)).extract 0 room)
        (ending x (m.allowing room failure))

namespace Limits

variable {x : Effect Machine α} {ps : Machine → List Printing}

theorem congr {qs : Machine → List Printing} (h : Limits x ps) (hps : ∀ m, ps m = qs m) :
    Limits x qs := by
  obtain rfl : ps = qs := funext hps
  exact h

/-- An effect that does nothing to the sink has no line. -/
theorem of_sink (hsink : ∀ m, (ending x m).2.sink = m.sink)
    (hends : ∀ m (sink : Sink), ending x { m with sink := sink } =
      ((ending x m).1, { (ending x m).2 with sink := sink })) : Limits x fun _ => [] where
  unlimited := by
    intro m hm
    rw [hsink, Printing.bytes, Printing.texts, List.map_nil, String.join_nil]
    exact ⟨hm, (ByteArray.append_empty).symm⟩
  fits := by
    intro m more failure _
    rw [Machine.allowing, hends, Machine.allowing, hsink, Printing.size, Printing.texts,
      List.map_nil, String.join_nil, String.utf8ByteSize_empty, Nat.zero_add]
  exceeds := by
    intro m room failure _ hroom
    rw [Printing.size, Printing.texts, List.map_nil, String.join_nil] at hroom
    exact absurd hroom (Nat.not_lt_zero _)

theorem pure (a : α) : Limits (Pure.pure a) fun _ => [] :=
  of_sink (fun _ => rfl) fun _ _ => rfl

/-- An effect on the scopes does nothing to the sink. -/
theorem onEnvironment (x : Effect Environment α) : Limits (onEnvironment x) fun _ => [] := by
  have hends (m : Machine) := ending_onEnvironment (m := m) (r := (ending x m.environment).1) rfl
  refine of_sink (fun m => ?_) fun m sink => ?_
  · rw [hends]
  · rw [hends, hends]

/-- A line does not fit that is one of the first effect, or one of what follows its result. -/
theorem bind {declared assigned : List String} {g : α → Effect Machine β}
    {qs : α → Machine → List Printing} (hx : Limits x ps)
    (hframes : Frames Machine.environment declared assigned x) (hg : ∀ a, Limits (g a) (qs a)) :
    Limits (x >>= g) fun m => ps m ++ printingsBehind x qs m where
  unlimited := by
    intro m hm
    obtain ⟨hlimit, hwritten⟩ := hx.unlimited m hm
    cases hr : ending x m with
    | mk r m₁ =>
        rw [hr] at hlimit hwritten
        cases r with
        | ok a =>
            rw [ending_bind_ok hr, printingsBehind_ok hr, Printing.bytes_append,
              ← ByteArray.append_assoc, ← hwritten]
            exact (hg a).unlimited m₁ hlimit
        | error f =>
            rw [ending_bind_error hr, printingsBehind_error hr, List.append_nil]
            exact ⟨hlimit, hwritten⟩
  fits := by
    intro m more failure hm
    have hlimit := (hx.unlimited m hm).1
    cases hr : ending x m with
    | mk r m₁ =>
        rw [hr] at hlimit
        cases r with
        | ok a =>
            have hfits := hx.fits m (Printing.size (qs a m₁) + more) failure hm
            rw [hr] at hfits
            rw [printingsBehind_ok hr, Printing.size_append, Nat.add_assoc, ending_bind_ok hfits,
              ending_bind_ok hr]
            exact (hg a).fits m₁ more failure hlimit
        | error f =>
            have hfits := hx.fits m more failure hm
            rw [hr] at hfits
            rw [printingsBehind_error hr, List.append_nil, ending_bind_error hfits,
              ending_bind_error hr]
  exceeds := by
    intro m room failure hm hroom
    rcases Nat.lt_or_ge room (Printing.size (ps m)) with hlt | hge
    · obtain ⟨p, hat, hends⟩ := hx.exceeds m room failure hm hlt
      refine ⟨p, hat.append_left, ?_⟩
      rw [ending_bind_error (Prod.ext hends.result rfl),
        Printing.extract_bytes_left (Nat.le_of_lt hlt)]
      exact ⟨rfl, hends.written, hends.globals, hends.environment⟩
    · obtain ⟨more, rfl⟩ := Nat.exists_eq_add_of_le hge
      obtain ⟨hlimit, hwritten⟩ := hx.unlimited m hm
      cases hr : ending x m with
      | mk r m₁ =>
          rw [hr] at hlimit hwritten
          cases r with
          | error f =>
              rw [printingsBehind_error hr, List.append_nil] at hroom
              exact absurd hroom (Nat.not_lt.2 (Nat.le_add_right _ _))
          | ok a =>
              have hfits := hx.fits m more failure hm
              rw [hr] at hfits
              rw [printingsBehind_ok hr, Printing.size_append] at hroom
              obtain ⟨p, hat, hends⟩ :=
                (hg a).exceeds m₁ more failure hlimit (Nat.lt_of_add_lt_add_left hroom)
              rw [printingsBehind_ok hr, ending_bind_ok hfits, Printing.extract_bytes_right]
              refine ⟨p, hat.append_right, hends.result, ?_, hends.globals, fun hnested => ?_⟩
              · rw [hends.written, hwritten, ByteArray.append_assoc]
              · -- What was done first left the scopes nested, and the same one current.
                have hf := hframes m hnested
                rw [hr] at hf
                rw [hends.environment (hf.nested hnested), hf.current]

theorem branch {y : Effect Machine α} {qs : Machine → List Printing} (b : Bool) (hx : Limits x ps)
    (hy : Limits y qs) : Limits (if b then x else y) fun m => if b then ps m else qs m := by
  cases b with
  | true => exact hx
  | false => exact hy

/-- What is done in a scope of its own prints what it prints there. -/
theorem inScope (hx : Limits x ps) : Limits (inScope x) fun m => ps m.enter where
  unlimited := by
    intro m hm
    rw [ending_inScope (r := (ending x m.enter).1) rfl]
    exact hx.unlimited m.enter hm
  fits := by
    intro m more failure hm
    have hfits : ending x (m.allowing (Printing.size (ps m.enter) + more) failure).enter = _ :=
      hx.fits m.enter more failure hm
    rw [ending_inScope hfits, ending_inScope (r := (ending x m.enter).1) rfl]
    rfl
  exceeds := by
    intro m room failure hm hroom
    obtain ⟨p, hat, hends⟩ := hx.exceeds m.enter room failure hm hroom
    refine ⟨p, hat, ?_⟩
    rw [ending_inScope (m := m.allowing room failure) (Prod.ext hends.result rfl)]
    refine ⟨rfl, hends.written, ?_, fun hnested => ?_⟩
    · exact (Environment.global_leaveTo ..).trans hends.globals
    · have hle : m.environment.current ≤ m.environment.depth :=
        hnested.current_succ ▸ Nat.le_succ _
      have henvironment : (ending x (m.allowing room failure).enter).2.environment =
          p.environment.leaveTo m.environment.depth := hends.environment hnested.enter
      exact (congrArg (·.leaveTo m.environment.current) henvironment).trans
        (Environment.leaveTo_leaveTo _ hle)

/-- The bytes that a line is printed as. -/
theorem size_line (keyword : Token) (v : Value) (e : Environment) :
    (v.display ++ "\n").toUTF8.size = Printing.size [⟨keyword, v, e⟩] := by
  rw [Printing.size, Printing.texts_singleton]
  exact String.size_toByteArray

/-- A line is printed whole, or as much of it as there is room for. -/
theorem writeLine (keyword : Token) (v : Value) :
    Limits (writeLine keyword v.display) fun m => [⟨keyword, v, m.environment⟩] where
  unlimited := by
    intro m hm
    rw [ending_writeLine hm, Sink.written_write hm, Printing.bytes, Printing.texts_singleton]
    exact ⟨hm, rfl⟩
  fits := by
    intro m more failure hm
    have hfits : (m.allowing (Printing.size [⟨keyword, v, m.environment⟩] + more) failure).sink.fits
        (v.display ++ "\n").toUTF8 = true := by
      rw [Machine.fits_allowing, size_line]
      exact decide_eq_true (Nat.le_add_right _ _)
    have hall : (v.display ++ "\n").toUTF8.extract 0
        (Printing.size [⟨keyword, v, m.environment⟩] + more) = (v.display ++ "\n").toUTF8 := by
      rw [← size_line, ← Nat.max_eq_left (Nat.le_add_right _ more)]
      exact ByteArray.extract_zero_max_size
    rw [ending_writeLine_of_fits hfits, ending_writeLine hm, Machine.write_allowing, hall,
      Sink.written_write hm]
    -- The room for the line is used up by it.
    rw [Machine.allowing, Machine.allowing, ByteArray.size_append, size_line keyword v m.environment,
      Nat.add_assoc]
  exceeds := by
    intro m room failure hm hroom
    have hfits : (m.allowing room failure).sink.fits (v.display ++ "\n").toUTF8 = false := by
      rw [Machine.fits_allowing, size_line keyword v m.environment]
      exact decide_eq_false (Nat.not_le_of_lt hroom)
    refine ⟨_, .singleton hroom, ?_⟩
    rw [ending_writeLine_of_not_fits hfits, Machine.write_allowing]
    refine ⟨rfl, ?_, rfl, fun hnested => hnested.leaveTo_current.symm⟩
    rw [Printing.bytes, Printing.texts_singleton]
    rfl

end Limits

end Effect

open Effect (Limits printingsBehind)

/-! ### Statements -/

/-- What is printed behind an effect of which nothing is printed. -/
theorem Effect.Limits.behind {α : Type} {x : Effect Environment α} {declared assigned : List String}
    {g : α → Effect Machine Unit} {ps : α → Machine → List Printing}
    (hframes : Frames id declared assigned x) (hg : ∀ a, Limits (g a) (ps a)) :
    Limits (Effect.onEnvironment x >>= g) (printingsBehind (Effect.onEnvironment x) ps) :=
  .bind (.onEnvironment x) (.onEnvironment hframes) hg

mutual

/-- A statement prints its lines, up to the limit. -/
theorem execute_limits : ∀ s : Stmt, Limits s.execute s.printings
  | .expression e => by
      rw [Stmt.execute]
      refine (Limits.behind (evaluate_frames e) fun _ => .pure ()).congr fun m => ?_
      rw [printingsBehind, Stmt.printings]
      split <;> rfl
  | .print keyword e => by
      rw [Stmt.execute]
      exact (Limits.behind (evaluate_frames e) fun v => .writeLine keyword v).congr fun m => by
        rw [Stmt.printings]
  | .declare name initializer? => by
      rw [Stmt.execute]
      exact (Limits.onEnvironment _).congr fun m => by rw [Stmt.printings]
  | .block body => by
      rw [Stmt.execute]
      exact (Limits.inScope (executeAll_limits body)).congr fun m => by rw [Stmt.printings]
  | .conditional c s none => by
      rw [Stmt.execute.eq_def]
      exact (Limits.behind (evaluate_frames c) fun v =>
        .branch v.truthy (execute_limits s) (.pure ())).congr fun m => by rw [Stmt.printings]
  | .conditional c s (some t) => by
      rw [Stmt.execute.eq_def]
      exact (Limits.behind (evaluate_frames c) fun v =>
        .branch v.truthy (execute_limits s) (execute_limits t)).congr fun m => by
          rw [Stmt.printings]

/-- So do statements. -/
theorem executeAll_limits : ∀ ss : List Stmt, Limits (Stmt.executeAll ss) (Stmt.printingsAll ss)
  | [] => (Limits.pure ()).congr fun m => by rw [Stmt.printingsAll]
  | s :: ss => by
      rw [Stmt.executeAll]
      exact (Limits.bind (execute_limits s) (execute_frames s) fun _ =>
        executeAll_limits ss).congr fun m => by rw [Stmt.printingsAll]

end

/-- **Limit.**  Let statements be run on some scopes, once with a sink that takes everything and once
with a sink that takes `limit` bytes.  What the first run writes are the lines that it prints, one
for each `print` that it comes to.  If these are `limit` bytes at most, the second run ends as the
first one does, writes the same and leaves the same scopes.  If they are more, it writes the first
`limit` bytes of them, and ends with a fault of its sink that is blamed on the `print` whose line has
the next byte.  The global scope is then what it was in the first run when the value of that line had
been found; and so are all scopes, but for those that were opened since the start. -/
theorem cut_short (ss : List Stmt) (e : Environment) (limit : Nat) (failure : IoKind) :
    let full := ending (Stmt.executeAll ss) ⟨e, .unlimited, []⟩
    let cut := ending (Stmt.executeAll ss) ⟨e, ⟨.empty, some limit, failure⟩, []⟩
    let printed := Stmt.printingsAll ss ⟨e, .unlimited, []⟩
    full.2.sink.written = (Printing.texts printed).toUTF8 ∧
    (full.2.sink.written.size ≤ limit → cut.1 = full.1 ∧
      cut.2.sink.written = full.2.sink.written ∧ cut.2.environment = full.2.environment) ∧
    (limit < full.2.sink.written.size →
      cut.2.sink.written = full.2.sink.written.extract 0 limit ∧
      ∃ p, Printing.At printed limit p ∧ (∀ q, Printing.At printed limit q → q = p) ∧
        cut.1 = .error ⟨.output failure, p.keyword⟩ ∧
        cut.2.environment.scopes[0]? = p.environment.scopes[0]? ∧
        (e.Nested → cut.2.environment = p.environment.leaveTo e.current)) := by
  intro full cut printed
  have hlimits := executeAll_limits ss
  have hwritten : full.2.sink.written = Printing.bytes printed := by
    rw [(hlimits.unlimited ⟨e, .unlimited, []⟩ rfl).2]
    exact ByteArray.empty_append
  have hcut : cut =
      ending (Stmt.executeAll ss) (Machine.allowing ⟨e, .unlimited, []⟩ limit failure) := by
    have hroom : Sink.unlimited.written.size + limit = limit := Nat.zero_add limit
    rw [Machine.allowing, hroom]
    rfl
  rw [hcut, hwritten, Printing.size_bytes]
  refine ⟨rfl, fun hle => ?_, fun hlt => ?_⟩
  · obtain ⟨more, rfl⟩ := Nat.exists_eq_add_of_le hle
    rw [hlimits.fits _ more failure rfl]
    exact ⟨rfl, hwritten, rfl⟩
  · obtain ⟨p, hat, hends⟩ := hlimits.exceeds ⟨e, .unlimited, []⟩ limit failure rfl hlt
    refine ⟨?_, p, hat, fun q => hat.unique, hends.result, hends.globals, hends.environment⟩
    rw [hends.written]
    exact ByteArray.empty_append

/-- The word `print`, on some line. -/
def printOn (line : Nat) : Token := ⟨.kwPrint, "print", none, line, .point 0⟩

/-- A name that is declared, printed and assigned to. -/
def nameA : Token := ⟨.identifier, "a", none, 1, .point 0⟩

/-- `var a; { print nil; a = true; print a; a = nil; }` -/
def printsTwice : List Stmt :=
  [.declare nameA none, .block [.print (printOn 1) (.literal .nil),
    .expression (.assign nameA (.literal (.bool true))), .print (printOn 2) (.variable nameA),
    .expression (.assign nameA (.literal .nil))]]

/-- Six bytes end within the second line, and the name is not assigned to again. -/
theorem cut_short_midline :
    6 < (ending (Stmt.executeAll printsTwice) ⟨.initial, .unlimited, []⟩).2.sink.written.size ∧
      let cut := ending (Stmt.executeAll printsTwice)
        ⟨.initial, ⟨.empty, some 6, .brokenPipe⟩, []⟩
      cut.1 = .error ⟨.output .brokenPipe, printOn 2⟩ ∧ cut.2.sink.written = "nil\ntr".toUTF8 ∧
        cut.2.environment = ⟨[⟨⟨[("a", .bool true)]⟩, none⟩], 0⟩ := by
  have hlt : 6 <
      (ending (Stmt.executeAll printsTwice) ⟨.initial, .unlimited, []⟩).2.sink.written.size := by
    decide
  obtain ⟨hwritten, p, -, hunique, hresult, -, henvironment⟩ :=
    (cut_short printsTwice .initial 6 .brokenPipe).2.2 hlt
  obtain rfl := hunique ⟨printOn 2, .bool true, ⟨[⟨⟨[("a", .bool true)]⟩, none⟩, ⟨.empty, some 0⟩], 1⟩⟩
    ⟨[⟨printOn 1, .nil, ⟨[⟨⟨[("a", .nil)]⟩, none⟩, ⟨.empty, some 0⟩], 1⟩⟩], [], rfl, by decide,
      by decide⟩
  exact ⟨hlt, hresult, hwritten, henvironment (Environment.nested_singleton .empty)⟩

end Lox
