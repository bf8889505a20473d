import TraceTutor.CLike.Braces
import TraceTutor.CLike.Statement
import TraceTutor.Limits
import TraceTutor.Run
import TraceTutor.Script.Builtin
import TraceTutor.Trace.Recorder

/-!
# Stepping through lines

A line-stepped program is run with a cursor on its lines. Each step does what the line under the
cursor says, records a snapshot if that changes or shows something, and moves the cursor: on, past
the body of a loop whose condition fails, or from the end of a body back to the head of its loop.
The run ends when the cursor leaves the lines, or when as many steps were made as the limits allow.
-/

namespace TraceTutor

namespace CLike

/-- The state between two steps. -/
structure Stepper where
  bindings : Bindings
  recorder : Recorder
  /-- The position of the current line, counted from zero. -/
  cursor : Nat
deriving Repr

namespace Stepper

def initial : Stepper := ⟨.empty, .empty, 0⟩

instance : Inhabited Stepper := ⟨initial⟩

/-- The number of the current line, counted from one. -/
def line (s : Stepper) : Nat :=
  s.cursor + 1

def moveTo (s : Stepper) (cursor : Nat) : Stepper :=
  { s with cursor }

def moveOn (s : Stepper) : Stepper :=
  s.moveTo (s.cursor + 1)

/-- Records a snapshot with a note that names the line. -/
def capture (s : Stepper) (condition : Option String) (note : String) : Stepper :=
  { s with
    recorder := s.recorder.commit s.line s.bindings condition (some s!"Line {s.line}: {note}") }

/-- Binds a variable and records that. -/
def bind (s : Stepper) (name : String) (v : Value) (note : String) : Stepper :=
  { s with bindings := s.bindings.set name v }.capture none note

/-- The value of a variable, or `null`. -/
def valueOf (s : Stepper) (name : String) : Value :=
  Slot.orNull (s.bindings.get? name)

/-! ## Effects of lines -/

/-- Records that the condition of a loop holds. -/
def captureHead (s : Stepper) (condition : LoopCondition) : Stepper :=
  s.capture (some condition.render)
    s!"Loop condition true, {condition.name} = {(condition.currentValue s.bindings).display}"

/-- Enters a loop whose condition holds, and passes one whose condition fails. -/
def enterLoop (s : Stepper) (lines : List (List Char)) (condition : LoopCondition) : Stepper :=
  if condition.holds s.bindings then (s.captureHead condition).moveOn
  else s.moveTo (skipBody lines s.cursor)

/-- The position of the loop head that a closing brace leads back to. -/
def backTarget? (s : Stepper) (lines : List (List Char)) : Option Nat := do
  let head ← findHead lines s.cursor
  let condition ← LoopCondition.ofLine? (← lines[head]?)
  if condition.holds s.bindings then some head else none

/-- Goes back to the head of a loop that goes on, and passes the brace otherwise. -/
def closeBlock (s : Stepper) (lines : List (List Char)) : Stepper :=
  match s.backTarget? lines with
  | some head => s.moveTo head
  | none => s.moveOn

/-- Computes a factorial inside a call that the snapshot shows. -/
def callFactorial (s : Stepper) (target : String) (argument : Int) : Stepper :=
  let result := factorial argument
  let frame : Frame := ⟨"factorial", .ofList [("n", .int argument)], s.line⟩
  let s := { s with recorder := s.recorder.pushFrame frame }.bind target result
    s!"Function factorial({argument}) called, result = {result.display}"
  { s with recorder := s.recorder.popFrame }

/-- What a statement changes and shows. Statements that only move the cursor have no effect. -/
def effect (s : Stepper) : Statement → Stepper
  | .declare name value => s.bind name (.int value) s!"Variable {name} initialized to {value}"
  | .assign name value => s.bind name (.int value) s!"Variable {name} assigned to {value}"
  | .increment name =>
    let v := (s.valueOf name).add (.int 1)
    s.bind name v s!"Variable {name} incremented to {v.display}"
  | .addAssign target operand =>
    let v := (s.valueOf target).add (s.valueOf operand)
    s.bind target v s!"Variable {target} += {operand}, now {v.display}"
  | .output text => { s with recorder := s.recorder.emit text }.capture none s!"Output: {text}"
  | .factorialCall target argument => s.callFactorial target argument
  | .noOp | .unrecognized | .loopHead _ | .closeBrace => s

/-- Does what a statement says. -/
def apply (s : Stepper) (lines : List (List Char)) : Statement → Stepper
  | .loopHead condition => s.enterLoop lines condition
  | .closeBrace => s.closeBlock lines
  | statement => (s.effect statement).moveOn

/-! ## Runs -/

/-- Whether a line is under the cursor. -/
def isRunning (s : Stepper) (lines : List (List Char)) : Bool :=
  s.cursor < lines.length

/-- Makes one step, if a line is under the cursor. -/
def step (s : Stepper) (lines : List (List Char)) : Stepper :=
  match lines[s.cursor]? with
  | some line => s.apply lines (classify s.bindings line)
  | none => s

/-- Makes steps until the cursor leaves the lines, at most `n`. -/
def steps (lines : List (List Char)) : Nat → Stepper → Stepper
  | 0, s => s
  | n + 1, s => if s.isRunning lines then steps lines n (s.step lines) else s

/-- What a run yields that stopped here. A trace that would be empty holds one snapshot that says
so. -/
def toRun (s : Stepper) (lines : List (List Char)) : Run :=
  let recorder := if s.recorder.isEmpty then
      s.recorder.commit 1 s.bindings none (some "Code analyzed")
    else s.recorder
  ⟨recorder.trace, recorder.output.toList, none, s.isRunning lines⟩

end Stepper

/-- Runs a line-stepped program. -/
def run (limits : Limits) (source : String) : Run :=
  let lines := Text.lines source.toList
  (Stepper.steps lines limits.iterationCap .initial).toRun lines

end CLike

end TraceTutor
