import TraceTutor.Discrepancy
import TraceTutor.Text.Quoted
import TraceTutor.Viewer.Pane

/-!
# The variables pane

Lists the bindings of a snapshot, with marks at values that changed and at values that the learner
predicted differently, and below them the active calls with the arguments they were entered with.
-/

namespace TraceTutor

namespace Viewer

/-- What the variables pane shows. -/
structure VariablesView where
  bindings : Bindings
  callStack : List Frame
  /-- The bindings of the step before, if there is one. -/
  previous : Option Bindings
  /-- The discrepancies of this step. -/
  discrepancies : List Discrepancy

namespace VariablesView

/-! ## Values -/

/-- The colour of a value. -/
def valueColour : Value → Colour
  | .string _ => Theme.string
  | .array _ => Theme.typeName
  | .object _ => Theme.typeName
  | _ => Theme.number

/-- A value as the pane shows it: a string in quotes, and all else as it is printed. -/
def valueText : Value → String
  | .string s => Text.quote s
  | v => v.display

def valueSpan (v : Value) : Span :=
  ⟨valueText v, .ink (valueColour v)⟩

def commentSpan (text : String) : Span :=
  ⟨text, .ink Theme.comment⟩

/-- What the learner predicted instead. -/
def predictionSpan (d : Discrepancy) : Span :=
  ⟨"  ✗ you predicted " ++ d.predicted.describe, (Style.ink Theme.predicted).asItalic⟩

/-! ## Items -/

def heading (title : String) : Item :=
  .ofSpans [⟨"▸ ", .ink Theme.secondary⟩, ⟨title, (Style.ink Theme.comment).asBold⟩]

/-- A remark that there is nothing to list. -/
def remark (text : String) : Item :=
  ⟨.ink Theme.comment, [[⟨text, .plain⟩]]⟩

/-- Whether a variable had another value in the step before. -/
def isChanged (view : VariablesView) (name : String) (v : Value) : Bool :=
  view.previous.any fun previous => !Slot.same (previous.get? name) (some v)

def bindingItem (view : VariablesView) (name : String) (v : Value) : Item :=
  let changed := view.isChanged name v
  let nameStyle := if changed then (Style.ink Theme.changed).asBold else .ink Theme.text
  let prediction := (view.discrepancies.find? (·.name = name)).map predictionSpan
  .ofSpans ([⟨if changed then "● " else "  ", .ink Theme.changed⟩, ⟨name, nameStyle⟩,
    commentSpan " = ", valueSpan v] ++ prediction.toList)

/-- A variable that only the learner bound. -/
def unboundItem (d : Discrepancy) : Item :=
  .ofSpans [⟨"  ", .plain⟩, commentSpan d.name, commentSpan " unbound", predictionSpan d]

def frameItems (depth : Nat) (f : Frame) : List Item :=
  .ofSpans [commentSpan s!"  [{depth}] ", ⟨f.name ++ "()", (Style.ink Theme.function).asBold⟩,
    commentSpan s!"  ← line {f.line}"] ::
  f.bindings.entries.map fun (name, v) =>
    .ofSpans [⟨"      ", .plain⟩, ⟨name, .ink Theme.text⟩, commentSpan " = ", valueSpan v]

/-- The whole list of the pane. -/
def items (view : VariablesView) : List Item :=
  let unbound := view.discrepancies.filter fun d => !view.bindings.contains d.name
  let isBare := view.bindings.isEmpty && view.discrepancies.isEmpty
  [heading "Bindings"] ++ (if isBare then [remark "  (none)"] else []) ++
    view.bindings.entries.map (fun (name, v) => view.bindingItem name v) ++
    unbound.map unboundItem ++ [⟨.plain, [[]]⟩, heading "Call Stack"] ++
    (if view.callStack.isEmpty then [remark "  (empty)"] else []) ++
    (view.callStack.mapIdx frameItems).flatten

/-! ## Drawing -/

/-- How the pane is scrolled when it is drawn with a height. -/
def scroll (view : VariablesView) (height : Nat) (offset : Offset) : Offset :=
  offset.clamp view.items.length (Pane.visibleRows height)

/-- The pane as it is scrolled. -/
def draw (view : VariablesView) (focused : Bool) (width height : Nat) (offset : Offset) :
    Picture :=
  Pane.draw focused " Variables " width height
    ⟨.plain, drawItems (width - 2) (height - 2) offset view.items⟩

end VariablesView

end Viewer

end TraceTutor
