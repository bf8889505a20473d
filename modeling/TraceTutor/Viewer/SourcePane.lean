import TraceTutor.Text.Blank
import TraceTutor.Viewer.Highlight
import TraceTutor.Viewer.Pane

/-!
# The source pane

Shows the source with the current line marked. The current line is pinned to a row of the pane: the
pane scrolls so that the line stands there, unless the source begins or ends earlier.
-/

namespace TraceTutor

namespace Viewer

/-- What the source pane shows. -/
structure SourceView where
  lines : List (List Char)
  /-- The current line, counted from one, or `0` for none. -/
  currentLine : Nat
  /-- Whether the run failed at the current line. -/
  failed : Bool

/-- How the source pane is scrolled. -/
structure SourceScroll where
  offset : Offset
  /-- The row that the current line is pinned to. It is chosen when the pane is first drawn. -/
  pinnedRow : Option Nat
deriving DecidableEq, Repr

namespace SourceScroll

def initial : SourceScroll := ⟨0, none⟩

/-- Pins the current line one row lower. -/
def up (s : SourceScroll) : SourceScroll :=
  { s with pinnedRow := s.pinnedRow.map Offset.down }

/-- Pins the current line one row higher. -/
def down (s : SourceScroll) : SourceScroll :=
  { s with pinnedRow := s.pinnedRow.map Offset.up }

/-- The pinned row in a pane of so many rows: the middle one at first, and none beyond the last. -/
def rowWithin (s : SourceScroll) (visible : Nat) : Nat :=
  min (s.pinnedRow.getD (visible / 2)) (visible - 1)

/-- How the pane is scrolled when it is drawn with so many rows. -/
def follow (s : SourceScroll) (v : SourceView) (visible : Nat) : SourceScroll :=
  let row := s.rowWithin visible
  let total := v.lines.length
  let offset :=
    if 0 < v.currentLine ∧ v.currentLine ≤ total then
      Offset.clamp (v.currentLine - 1 - row) total visible
    else s.offset
  ⟨offset, some row⟩

end SourceScroll

namespace SourceView

/-- A text filled with spaces on its left. -/
def padLeft (width : Nat) (text : String) : String :=
  String.ofList (List.replicate (width - text.length) ' ') ++ text

/-- The texts of a line, the current one in a style of its own. -/
def lineSpans (v : SourceView) (number : Nat) (line : List Char) : List Span :=
  let spans := highlight line
  let marked := number = v.currentLine
  let numberStyle :=
    if marked then (Style.ink (if v.failed then Theme.error else Theme.secondary)).asBold
    else .ink Theme.comment
  let spans :=
    if !marked then spans
    else if v.failed then
      spans.map fun s => { s with style := ((Style.paper Theme.error).withInk .white).asBold }
    else spans.map fun s => { s with style := (Style.paper Theme.currentLine).onto s.style }
  let mark := if marked then "▶" else " "
  ⟨mark ++ padLeft 4 (toString number) ++ " ", numberStyle⟩ :: spans

/-- The pane as it is scrolled. -/
def draw (v : SourceView) (focused : Bool) (width height : Nat) (scroll : SourceScroll) : Picture :=
  let numbered := v.lines.mapIdx fun position line => (position + 1, line)
  let shown := (numbered.drop scroll.offset).take (Pane.visibleRows height)
  Pane.draw focused " Source Code " width height
    ⟨.plain, shown.map fun (number, line) => Row.ofSpans .plain (v.lineSpans number line)⟩

end SourceView

end Viewer

end TraceTutor
