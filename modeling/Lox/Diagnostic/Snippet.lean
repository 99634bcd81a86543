import Lox.Diagnostic.Basic
import Lox.Diagnostic.Line
import Lox.Text.Markup

/-!
# Diagnostics — Snippets

A diagnostic as it is shown: its title, the lines of the source around its place with the place
underlined and labelled, and its notes. Source lines have their number in front and a bar behind it.

A place within one line is underlined by carets. A place over several lines has a second bar beside
its lines, and only the lines near its first and its last one are shown.
-/

namespace Lox

namespace Snippet

open Text

/-- The style of numbers, bars and bullets. -/
def marginStyle : Style := ⟨false, some .blue⟩

/-- The style of what belongs to the label. -/
def labelStyle : Style := ⟨false, some .red⟩

/-- The style of a title. -/
def titleStyle : Style := ⟨true, none⟩

/-- A piece of the margin. -/
def margin (s : String) : Markup := styled marginStyle s

/-- A piece of what belongs to the label. -/
def labelled (s : String) : Markup := styled labelStyle s

/-- A line break. -/
def endLine : Markup := [.text "\n"]

/-- The space that a number of `width` digits takes. -/
def indent (width : Nat) : Markup := [.text (spaces (width + 1))]

/-- A margin without a number. -/
def border (width : Nat) : Markup := indent width ++ margin "│"

/-- A margin with a line number. -/
def numbered (width number : Nat) : Markup :=
  margin (alignedRight width (toString number)) ++ [.text " "] ++ margin "│"

/-- Glyphs one behind the other, each drawn by `draw`, those that satisfy `on` in the style of the
label. `open?` tells whether that style has begun; behind the last glyph it is ended. -/
def drawn (on : Glyph → Bool) (draw : Glyph → String) : Bool → List Glyph → Markup
  | open?, [] => if open? then [.stop] else []
  | open?, g :: gs =>
    let change : Markup :=
      match open?, on g with
      | false, true => [.start labelStyle]
      | true, false => [.stop]
      | _, _ => []
    change ++ .text (draw g) :: drawn on draw (on g) gs

/-- A character for each column of some glyphs. -/
def ruled (c : Char) (gs : List Glyph) : String :=
  String.ofList (gs.flatMap fun g => List.replicate g.columns c)

/-! ### A place within one line -/

/-- Whether a glyph shares a byte with a range. -/
def overlaps (start stop : Nat) (g : Glyph) : Bool := max start g.offset < min stop g.stop

/-- What is drawn under a glyph: carets under what the range covers, spaces in front of it. -/
def caret (start stop : Nat) (g : Glyph) : String :=
  if overlaps start stop g then ruled '^' [g]
  else if g.offset < stop then ruled ' ' [g]
  else ""

/-- The line with the place and, below it, carets and label. The range is never shorter than a byte.
One column behind the end of the line can be underlined, too. -/
def oneLine (width number start stop : Nat) (label : String) (l : Line) : Markup :=
  let stop := max stop (start + 1)
  let ending : Glyph := ⟨Line.bytes l.shown, '\x00', 1⟩
  numbered width number ++ [.text " "] ++ drawn (overlaps start stop) Glyph.text false l.glyphs ++
    endLine ++
  border width ++ [.text " "] ++
    drawn (overlaps start stop) (caret start stop) false (l.glyphs ++ [ending]) ++
    [.text " "] ++ labelled label ++ endLine

/-! ### A place over several lines -/

/-- What a place over several lines has in one of its lines. -/
inductive Part where
  /-- It starts in this line, behind so many bytes. -/
  | top (start : Nat)
  | inside
  /-- It stops in this line, behind so many bytes. -/
  | bottom (stop : Nat)

/-- A line with its place among the lines of the source, and what the place has in it. -/
structure Row where
  index : Nat
  line : Line
  part? : Option Part

/-- Two columns without a bar. -/
def noBar : Markup := [.text "  "]

/-- Two columns with a piece of a bar. -/
def bar (s : String) : Markup := .text " " :: labelled s

/-- The two columns in front of a line's text. Where a line begins with the place, but for white
space, so does the bar. -/
def Row.gutter (r : Row) : Markup :=
  match r.part? with
  | some (.top start) => if start ≤ r.line.indentation then bar "╭" else noBar
  | some _ => bar "│"
  | none => noBar

/-- Whether a glyph belongs to the place. -/
def Row.covers (r : Row) (g : Glyph) : Bool :=
  match r.part? with
  | some (.top start) => start ≤ g.offset
  | some .inside => true
  | some (.bottom stop) => g.stop ≤ stop
  | none => false

/-- What is drawn below a line: where the place starts if that is behind the first word, or where it
stops. -/
def Row.below (r : Row) (width : Nat) (label : String) : Markup :=
  match r.part? with
  | some (.top start) =>
    if start ≤ r.line.indentation then []
    else
      border width ++ bar "╭" ++
        labelled (ruled '─' (r.line.glyphs.filter (·.offset ≤ start)) ++ "^") ++ endLine
  | some (.bottom stop) =>
    border width ++ bar "╰" ++
      labelled (ruled '─' (r.line.glyphs.filter (·.offset < stop)) ++ "^ " ++ label) ++ endLine
  | _ => []

/-- A line and what is drawn below it. -/
def Row.markup (r : Row) (width : Nat) (label : String) : Markup :=
  numbered width (r.index + 1) ++ r.gutter ++ [.text " "] ++
    drawn r.covers Glyph.text false r.line.glyphs ++ endLine ++ r.below width label

/-- The mark for lines that are left out behind a line. -/
def Row.omission (r : Row) (width : Nat) : Markup :=
  indent width ++ margin "·" ++
    (match r.part? with
    | some .inside | some (.bottom _) => bar "│"
    | _ => noBar) ++ endLine

/-- The number of lines behind the first one that are shown. -/
def linesBehindFirst : Nat := 3

/-- The number of lines in front of the last one that are shown. -/
def linesBeforeLast : Nat := 1

/-- What a place that starts and stops at these lines and offsets has in a line. A place may stop
before it starts. -/
def partAt (first start last stop index : Nat) : Option Part :=
  if index = first then some (.top start)
  else if index = last then some (.bottom stop)
  else if first < index ∧ index < last then some .inside
  else none

/-- Whether a line is shown. -/
def isShown (first last index : Nat) : Bool :=
  index = first || index = last ||
    (first < index && index < last &&
      (index - first ≤ linesBehindFirst || last - index ≤ linesBeforeLast))

/-- Rows one below the other. Between two of them a single row that is left out is shown after all,
and more are replaced by a mark. -/
def stacked (width : Nat) (label : String) (row? : Nat → Option Row) : List Row → Markup
  | [] => []
  | [r] => r.markup width label
  | r :: next :: rows =>
    let between : Markup :=
      match next.index - r.index with
      | 0 | 1 => []
      | 2 => ((row? (r.index + 1)).map (·.markup width label)).getD []
      | _ => r.omission width
    r.markup width label ++ between ++ stacked width label row? (next :: rows)

/-- The lines of a place over several lines. -/
def manyLines (width : Nat) (lines : List Line) (first start last stop : Nat) (label : String) :
    Markup :=
  let row? (index : Nat) : Option Row :=
    lines[index]?.map fun l => ⟨index, l, partAt first start last stop index⟩
  let shown := (List.range lines.length).filter (isShown first last)
  stacked width label row? (shown.filterMap row?)

/-! ### The whole -/

/-- The lines of a note: a bullet in front of the first, space in front of the others. -/
def note (width : Nat) (s : String) : Markup :=
  let row (bullet : Markup) (l : String) := indent width ++ bullet ++ .text (" " ++ l) :: endLine
  match noteLines s with
  | [] => []
  | l :: ls => row (margin "=") l ++ (ls.map (row [.text " "])).flatten
where
  /-- The lines of a text. A line break at its end begins no line. -/
  noteLines (s : String) : List String :=
    let lines := (Line.ofString s).map fun l => withoutBreak l.chars
    if lines.getLast? = some "" then lines.dropLast else lines
  /-- A line without its line break. -/
  withoutBreak (cs : List Char) : String :=
    match cs.reverse with
    | '\n' :: '\r' :: rest => String.ofList rest.reverse
    | '\n' :: rest => String.ofList rest.reverse
    | _ => String.ofList cs

/-- A diagnostic with the lines of the source that it is about. -/
def placed (title : String) (notes : List String) (l : Location) : Markup :=
  let lines := Line.ofString l.source
  let first := Line.indexAt lines l.start
  let last := Line.indexAt lines l.stop
  let lineAt (index : Nat) : Line := lines[index]?.getD ⟨0, []⟩
  let width := (toString (max first last + 1)).length
  let place := l.path ++ ":" ++ toString (first + 1) ++ ":" ++
    toString ((lineAt first).columnAt l.start)
  let start := l.start - (lineAt first).start
  let stop := l.stop - (lineAt last).start
  let gap : Markup := if first = last then [] else noBar
  .start ⟨true, some .brightRed⟩ :: .text "error" :: styled titleStyle (": " ++ title) ++ endLine ++
  indent width ++ margin "┌─" ++ .text (" " ++ place) :: endLine ++
  border width ++ gap ++ endLine ++
  (if first = last then oneLine width (first + 1) start stop l.label (lineAt first)
    else manyLines width lines first start last stop l.label) ++
  (if notes.isEmpty then [] else border width ++ gap ++ endLine) ++
  (notes.map (note width)).flatten ++
  endLine

/-- A diagnostic without a source. -/
def unplaced (title : String) (notes : List String) : Markup :=
  .start ⟨true, some .red⟩ :: .text "error" ::
    styled titleStyle (": " ++ title ++ "\n") ++
    notes.map fun n => .text ("  = " ++ n ++ "\n")

end Snippet

/-- A diagnostic as it is shown. -/
def Diagnostic.markup (d : Diagnostic) : Text.Markup :=
  match d.location? with
  | some l => Snippet.placed d.title d.notes l
  | none => Snippet.unplaced d.title d.notes

end Lox
