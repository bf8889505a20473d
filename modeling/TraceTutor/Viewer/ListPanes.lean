import TraceTutor.Discrepancy
import TraceTutor.Text.Blank
import TraceTutor.Viewer.Pane

/-!
# The output pane and the pane of discrepancies

Two lists that are scrolled by an offset. An empty list shows a notice instead, and its offset stays
as it is.
-/

namespace TraceTutor

namespace Viewer

/-! ## Output -/

namespace OutputView

/-- A logged text, which may take several rows. -/
def item (text : String) : Item :=
  let rows := if text.isEmpty then [[]] else Text.lines text.toList
  ⟨.ink Theme.text, rows.map fun row => [⟨String.ofList row, .plain⟩]⟩

/-- How the pane is scrolled when it is drawn with a height. -/
def scroll (output : List String) (height : Nat) (offset : Offset) : Offset :=
  if output.isEmpty then offset else offset.clamp output.length (Pane.visibleRows height)

/-- The pane as it is scrolled. Output stands one column away from the border. -/
def draw (output : List String) (focused : Bool) (width height : Nat) (offset : Offset) : Picture :=
  Pane.draw focused " Output " width height <|
    if output.isEmpty then notice Theme.comment ["(no output)".toList]
    else
      let rows := drawItems (width - 3) (height - 2) offset (output.map item)
      ⟨.plain, rows.map fun row => .blank .plain :: row⟩

end OutputView

/-! ## Discrepancies -/

/-- What the pane of discrepancies shows. -/
structure DiscrepancyView where
  /-- The step and the explanation of each discrepancy. -/
  entries : List (Nat × String)
  /-- The current step, counted from one. -/
  currentStep : Nat
  /-- Whether the learner predicted anything. -/
  hasLearner : Bool

namespace DiscrepancyView

/-- A text filled with spaces on its right. -/
def padRight (width : Nat) (text : String) : String :=
  text ++ String.ofList (List.replicate (width - text.length) ' ')

/-- A discrepancy, emphasized if it belongs to the current step. -/
def item (v : DiscrepancyView) (step : Nat) (explanation : String) : Item :=
  let isCurrent := step = v.currentStep
  let stepStyle := if isCurrent then (Style.ink Theme.error).asBold else .ink Theme.comment
  let textStyle := if isCurrent then (Style.paper Theme.currentLine).withInk Theme.text
    else .ink Theme.text
  .ofSpans [⟨"#" ++ padRight 3 (toString step) ++ " ", stepStyle⟩, ⟨explanation, textStyle⟩]

/-- What an empty pane says. -/
def emptyNotice (v : DiscrepancyView) (width : Nat) : Content :=
  if v.hasLearner then
    notice Theme.success (wrap width ["Your", "prediction", "matches", "the", "run."])
  else notice Theme.comment (wrap width ["(no", "prediction", "loaded)"])

/-- How the pane is scrolled when it is drawn with a height. -/
def scroll (v : DiscrepancyView) (height : Nat) (offset : Offset) : Offset :=
  if v.entries.isEmpty then offset else offset.clamp v.entries.length (Pane.visibleRows height)

/-- The pane as it is scrolled. -/
def draw (v : DiscrepancyView) (focused : Bool) (width height : Nat) (offset : Offset) : Picture :=
  Pane.draw focused s!" Mismatches ({v.entries.length}) " width height <|
    if v.entries.isEmpty then v.emptyNotice (width - 2)
    else ⟨.plain, drawItems (width - 2) (height - 2) offset
      (v.entries.map fun (step, explanation) => v.item step explanation)⟩

end DiscrepancyView

end Viewer

end TraceTutor
