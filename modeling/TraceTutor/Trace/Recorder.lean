import TraceTutor.Trace.Snapshot

/-!
# Recording a run

A `Recorder` collects the snapshots of a run. It holds the output so far and the active calls, and
every commit copies both into the next snapshot, so that nothing done later reaches a snapshot that
is already recorded.
-/

namespace TraceTutor

/-- A trace under construction. -/
structure Recorder where
  snapshots : Array Snapshot
  /-- The bindings of the latest commit. -/
  current : Bindings
  output : Array String
  stack : CallStack
deriving Repr

namespace Recorder

/-- Nothing recorded. -/
def empty : Recorder := ⟨#[], .empty, #[], .empty⟩

instance : Inhabited Recorder := ⟨empty⟩

/-- Appends a snapshot. -/
def commit (r : Recorder) (line : Nat) (bindings : Bindings) (condition note : Option String) :
    Recorder :=
  { r with
    current := bindings
    snapshots := r.snapshots.push
      ⟨r.snapshots.size + 1, line, bindings, r.stack.frames, r.output.toList, condition, note⟩ }

/-- Enters a call. -/
def pushFrame (r : Recorder) (frame : Frame) : Recorder :=
  { r with stack := r.stack.push frame }

/-- Leaves the innermost call, if there is one. -/
def popFrame (r : Recorder) : Recorder :=
  { r with stack := r.stack.pop }

/-- Appends a line of output, which every later snapshot shows. -/
def emit (r : Recorder) (text : String) : Recorder :=
  { r with output := r.output.push text }

/-- Forgets all that was recorded, so that another run can follow. -/
def reset (r : Recorder) : Recorder :=
  { r with snapshots := #[], current := .empty, output := #[], stack := .empty }

def trace (r : Recorder) : Trace :=
  r.snapshots.toList

def latest? (r : Recorder) : Option Snapshot :=
  r.snapshots.back?

def isEmpty (r : Recorder) : Bool :=
  r.snapshots.isEmpty

@[simp] theorem reset_eq (r : Recorder) : r.reset = empty := rfl

/-! ## The trace after each operation -/

@[simp] theorem trace_empty : empty.trace = [] := rfl

@[simp] theorem trace_commit (r : Recorder) (line : Nat) (bindings : Bindings)
    (condition note : Option String) :
    (r.commit line bindings condition note).trace = r.trace ++
      [⟨r.trace.length + 1, line, bindings, r.stack.frames, r.output.toList, condition, note⟩] := by
  simp [trace, commit]

@[simp] theorem trace_pushFrame (r : Recorder) (frame : Frame) :
    (r.pushFrame frame).trace = r.trace := rfl

@[simp] theorem trace_popFrame (r : Recorder) : r.popFrame.trace = r.trace := rfl

@[simp] theorem trace_emit (r : Recorder) (text : String) : (r.emit text).trace = r.trace := rfl

/-! ## The output and the calls after each operation -/

@[simp] theorem output_commit (r : Recorder) (line : Nat) (bindings : Bindings)
    (condition note : Option String) : (r.commit line bindings condition note).output = r.output :=
  rfl

@[simp] theorem output_pushFrame (r : Recorder) (frame : Frame) :
    (r.pushFrame frame).output = r.output := rfl

@[simp] theorem output_popFrame (r : Recorder) : r.popFrame.output = r.output := rfl

@[simp] theorem output_emit (r : Recorder) (text : String) :
    (r.emit text).output = r.output.push text := rfl

@[simp] theorem stack_commit (r : Recorder) (line : Nat) (bindings : Bindings)
    (condition note : Option String) : (r.commit line bindings condition note).stack = r.stack :=
  rfl

@[simp] theorem stack_pushFrame (r : Recorder) (frame : Frame) :
    (r.pushFrame frame).stack = r.stack.push frame := rfl

@[simp] theorem stack_popFrame (r : Recorder) : r.popFrame.stack = r.stack.pop := rfl

@[simp] theorem stack_emit (r : Recorder) (text : String) : (r.emit text).stack = r.stack := rfl

end Recorder

end TraceTutor
