import TraceTutor.Session
import TraceTutor.Viewer.ListPanes
import TraceTutor.Viewer.SourcePane
import TraceTutor.Viewer.StatusBar
import TraceTutor.Viewer.VariablesPane

/-!
# Replaying a run

A `Replay` shows a report step by step. Keys move through the trace, scroll the pane in focus, and
switch automatic playing; `Replay.draw` draws the whole screen and settles how the panes are
scrolled.
-/

namespace TraceTutor

namespace Viewer

/-! ## State -/

/-- The panes that can be in focus. -/
inductive Focus where
  | source
  | bindings
  | output
  | discrepancies
deriving DecidableEq, Repr

/-- The pane that is in focus next. -/
def Focus.next : Focus → Focus
  | source => output
  | output => bindings
  | bindings => discrepancies
  | discrepancies => source

/-- What the status bar says where a snapshot has no note. -/
inductive Message where
  | ready
  | steppedMany (steps : Nat)
  | steppedForward
  | steppedBackward
  | atFirst
  | atLast
  | playing
  | paused
  | finished
  | jumpedToEnd
  | jumpedToStart
deriving DecidableEq, Repr

def Message.text : Message → String
  | ready => "Ready!"
  | steppedMany steps => s!"Stepped forward {steps} step(s)"
  | steppedForward => "Stepped forward"
  | steppedBackward => "Stepped backward"
  | atFirst => "Already at the first step"
  | atLast => "Already at the last step"
  | playing => "Playing..."
  | paused => "Paused"
  | finished => "Playback complete"
  | jumpedToEnd => "Jumped to end"
  | jumpedToStart => "Jumped to start"

/-- How the panes are scrolled. -/
structure Scroll where
  source : SourceScroll
  bindings : Offset
  output : Offset
  discrepancies : Offset
deriving DecidableEq, Repr

/-- A report under replay. -/
structure Replay where
  report : Report
  source : String
  /-- Whether the learner predicted anything. -/
  hasLearner : Bool
  /-- The position in the trace, counted from zero. -/
  position : Nat
  focus : Focus
  scroll : Scroll
  message : Message
  /-- Whether steps are made automatically. -/
  playing : Bool
  /-- Whether the viewer is to be closed. -/
  closed : Bool

namespace Replay

/-- The replay of a report from its first step. -/
def start (report : Report) (source : String) (hasLearner : Bool) : Replay :=
  ⟨report, source, hasLearner, 0, .source, ⟨.initial, 0, .atEnd, 0⟩, .ready, false, false⟩

def trace (r : Replay) : Trace :=
  r.report.run.trace

/-- The snapshot on screen. -/
def current (r : Replay) : Snapshot :=
  r.trace[r.position]?.getD (.blank 1)

/-- The snapshot before the one on screen. -/
def previous? (r : Replay) : Option Snapshot :=
  if r.position = 0 then none else r.trace[r.position - 1]?

/-- The discrepancies of the snapshot on screen. -/
def currentDiscrepancies (r : Replay) : List Discrepancy :=
  r.report.discrepancies.filter fun d => d.step = r.position + 1

def isAtEnd (r : Replay) : Bool :=
  r.trace.length ≤ r.position + 1

/-! ## Steps -/

/-- Goes to a position and shows the newest output. -/
def goTo (r : Replay) (position : Nat) : Replay :=
  { r with position, scroll := { r.scroll with output := .atEnd } }

/-- Up to `n` steps forward, and how many were made. -/
def forward (r : Replay) : Nat → Replay × Nat
  | 0 => (r, 0)
  | n + 1 =>
    if r.isAtEnd then (r, 0)
    else
      let (r, made) := (r.goTo (r.position + 1)).forward n
      (r, made + 1)

/-- One automatic step, or the end of playing. -/
def playStep (r : Replay) : Replay :=
  if r.isAtEnd then { r with playing := false, message := .finished }
  else { r.goTo (r.position + 1) with message := .playing }

/-! ## Keys -/

inductive Key where
  | left
  | right
  | up
  | down
  | tab
  | enter
  | backspace
  /-- The space bar; a repetition while it is held down does not count. -/
  | space (isRepeated : Bool)
  | char (c : Char)
deriving DecidableEq, Repr

/-- The key of a name: a word for a key without a character, or the character of a key. -/
def Key.ofText? (name : String) : Option Key :=
  match name with
  | "Left" => some left
  | "Right" => some right
  | "Up" => some up
  | "Down" => some down
  | "Tab" => some tab
  | "Enter" => some enter
  | "Backspace" => some backspace
  | "Space" => some (space false)
  | "SpaceHeld" => some (space true)
  | _ => match name.toList with
    | [c] => some (char c)
    | _ => none

/-- Moves the content of the pane in focus, given what to do to each kind of scrolling. -/
def scrollBy (r : Replay) (source : SourceScroll → SourceScroll) (list : Offset → Offset) :
    Replay :=
  let s := r.scroll
  { r with scroll := match r.focus with
    | .source => { s with source := source s.source }
    | .bindings => { s with bindings := list s.bindings }
    | .output => { s with output := list s.output }
    | .discrepancies => { s with discrepancies := list s.discrepancies } }

/-- Stops playing and says something. -/
def stopped (r : Replay) (message : Message) : Replay :=
  { r with playing := false, message }

/-- What a letter or a digit does: a digit makes so many steps. -/
def pressChar (r : Replay) (c : Char) : Replay :=
  if c = 'q' ∨ c = 'Q' then { r with closed := true }
  else if '1' ≤ c ∧ c ≤ '9' then
    let (r, made) := r.forward (c.toNat - '0'.toNat)
    r.stopped (.steppedMany made)
  else r

/-- What a key does by itself. -/
def press (r : Replay) : Key → Replay
  | .char c => r.pressChar c
  | .tab => { r with focus := r.focus.next }
  | .left =>
    if r.position = 0 then r.stopped .atFirst
    else (r.goTo (r.position - 1)).stopped .steppedBackward
  | .right =>
    if r.isAtEnd then r.stopped .atLast else (r.goTo (r.position + 1)).stopped .steppedForward
  | .up => r.scrollBy SourceScroll.up Offset.up
  | .down => r.scrollBy SourceScroll.down Offset.down
  | .space true => r
  | .space false =>
    if r.playing then r.stopped .paused else { r with playing := true, message := .playing }
  | .enter => (r.goTo (r.trace.length - 1)).stopped .jumpedToEnd
  | .backspace => (r.goTo 0).stopped .jumpedToStart

/-- What a key does. Playing makes its first step as soon as it is switched on. -/
def respond (r : Replay) (key : Key) : Replay :=
  let after := r.press key
  if !r.playing && after.playing then after.playStep else after

/-- What a second without keys does. -/
def tick (r : Replay) : Replay :=
  if r.playing then r.playStep else r

/-! ## The screen -/

/-- Whether the snapshot on screen is where the run failed. -/
def isFailed (r : Replay) : Bool :=
  r.report.run.fault.isSome && r.isAtEnd

def sourceView (r : Replay) : SourceView :=
  ⟨Text.lines r.source.toList, r.current.line, r.isFailed⟩

def variablesView (r : Replay) : VariablesView :=
  ⟨r.current.bindings, r.current.callStack, r.previous?.map (·.bindings), r.currentDiscrepancies⟩

def discrepancyView (r : Replay) : DiscrepancyView :=
  ⟨r.report.discrepancies.map fun d => (d.step, d.explanation), r.position + 1, r.hasLearner⟩

def statusView (r : Replay) : StatusView :=
  let failure? := if r.isFailed then r.report.run.fault.map Fault.message else none
  { message := failure?.getD r.message.text
    position := r.position
    total := r.trace.length
    note := if r.isFailed then none else r.current.note
    condition := r.current.condition
    failed := r.report.run.fault.isSome
    truncated := r.report.run.truncated
    playing := r.playing }

/-- How the panes share the screen. -/
structure Layout where
  /-- The width of the source and the output. -/
  leftWidth : Nat
  /-- The width of the variables and the discrepancies. -/
  rightWidth : Nat
  sourceHeight : Nat
  outputHeight : Nat
  variablesHeight : Nat
  discrepanciesHeight : Nat

/-- The shares of a screen. Its last row is left to the status bar. -/
def Layout.ofSize (width height : Nat) : Layout :=
  let rows := height - 1
  ⟨percent 60 width, width - percent 60 width, percent 70 rows, rows - percent 70 rows,
    percent 60 rows, rows - percent 60 rows⟩

/-- How the panes are scrolled when they are drawn in a layout. -/
def settledScroll (r : Replay) (l : Layout) : Scroll :=
  ⟨r.scroll.source.follow r.sourceView (Pane.visibleRows l.sourceHeight),
    r.variablesView.scroll l.variablesHeight r.scroll.bindings,
    OutputView.scroll r.current.emitted l.outputHeight r.scroll.output,
    r.discrepancyView.scroll l.discrepanciesHeight r.scroll.discrepancies⟩

/-- The replay as it stands after it was drawn in a layout. -/
def settle (r : Replay) (l : Layout) : Replay :=
  { r with scroll := r.settledScroll l }

/-- The screen as it is scrolled. -/
def picture (r : Replay) (l : Layout) (width height : Nat) : Picture :=
  let left := r.sourceView.draw (r.focus = .source) l.leftWidth l.sourceHeight r.scroll.source ++
    OutputView.draw r.current.emitted (r.focus = .output) l.leftWidth l.outputHeight
      r.scroll.output
  let right := r.variablesView.draw (r.focus = .bindings) l.rightWidth l.variablesHeight
      r.scroll.bindings ++
    r.discrepancyView.draw (r.focus = .discrepancies) l.rightWidth l.discrepanciesHeight
      r.scroll.discrepancies
  (left.beside right ++ [r.statusView.draw width]).take height

/-- Draws the screen, and the replay as it stands afterwards. -/
def draw (r : Replay) (width height : Nat) : Picture × Replay :=
  let l := Layout.ofSize width height
  let settled := r.settle l
  (settled.picture l width height, settled)

end Replay

end Viewer

end TraceTutor
