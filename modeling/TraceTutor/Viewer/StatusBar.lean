import TraceTutor.Viewer.Theme

/-!
# The status bar

One row in two halves. The left one shows the step and what happened there; the right one shows the
keys and the state of the replay, and stands on the right.
-/

namespace TraceTutor

namespace Viewer

/-- A share of a length in percent, rounded to the nearest, halves up. -/
def percent (share length : Nat) : Nat :=
  (share * length + 50) / 100

/-- What the status bar shows. -/
structure StatusView where
  message : String
  /-- The position in the trace, counted from zero. -/
  position : Nat
  total : Nat
  /-- The note of the snapshot, which is shown instead of the message. -/
  note : Option String
  condition : Option String
  failed : Bool
  truncated : Bool
  playing : Bool

namespace StatusView

/-! ## Parts -/

def bar : Style := .paper Theme.currentLine

def separator : Style := bar.withInk Theme.comment

def badge (text : String) (colour : Colour) : Span :=
  ⟨text, ((Style.paper colour).withInk .black).asBold⟩

def key (text : String) : Span :=
  ⟨text, (Style.paper Theme.comment).withInk .black⟩

def description (text : String) : Span :=
  ⟨text, bar.withInk Theme.text⟩

def divider : Span :=
  ⟨"│", separator⟩

/-! ## Halves -/

def left (v : StatusView) : List Span :=
  let badgeColour := if v.failed then Theme.error else Theme.primary
  let note := v.note.getD v.message
  let condition := match v.condition with
    | some condition => [divider, ⟨s!" {condition} ", bar.withInk Theme.keyword⟩]
    | none => []
  [badge s!" Step {v.position + 1}/{max v.total 1} " badgeColour, ⟨" | ", separator⟩,
    description s!" {note} "] ++ condition

/-- Where the replay stands, if that is worth a badge. -/
def stateBadge? (v : StatusView) : Option Span :=
  if v.playing then some (badge " ▶ PLAYING " Theme.secondary)
  else if v.total ≤ v.position + 1 then some (badge " END " Theme.error)
  else if v.position = 0 then some (badge " START " Theme.success)
  else none

def right (v : StatusView) : List Span :=
  let badges := (if v.failed then [badge " ERROR " Theme.error] else []) ++
    (if v.truncated then [badge " TRUNCATED " Theme.secondary] else []) ++ v.stateBadge?.toList
  [key " ←/→ ", description " step ", divider, key " ⎵ ", description " play ", divider,
    key " ↵ / ⌫ ", description " end/start ", divider, key "q", description " quit "] ++
    badges.flatMap fun b => [divider, b]

/-- The status bar at a width. -/
def draw (v : StatusView) (width : Nat) : Row :=
  let leftWidth := percent 55 width
  Row.fit bar leftWidth (Row.ofSpans bar v.left) ++
    Row.fitRight bar (width - leftWidth) (Row.ofSpans bar v.right)

end StatusView

end Viewer

end TraceTutor
