import TraceTutor.Bindings

/-!
# Snapshots

A snapshot is one recorded state of a simulated program: the line it belongs to, the bindings, the
active calls and all output so far. A trace is the list of snapshots of one run.
-/

namespace TraceTutor

/-- An active call: the function, its parameters as they were bound on entry, and the line of the
call. -/
structure Frame where
  name : String
  bindings : Bindings
  line : Nat
deriving Inhabited, Repr

/-- The active calls, the innermost one last. -/
structure CallStack where
  frames : List Frame
deriving Inhabited, Repr

namespace CallStack

def empty : CallStack := ⟨[]⟩

def push (s : CallStack) (frame : Frame) : CallStack :=
  ⟨s.frames ++ [frame]⟩

/-- The stack without its innermost call. An empty stack stays as it is. -/
def pop (s : CallStack) : CallStack :=
  ⟨s.frames.dropLast⟩

/-- The innermost call. -/
def top? (s : CallStack) : Option Frame :=
  s.frames.getLast?

def depth (s : CallStack) : Nat :=
  s.frames.length

@[simp] theorem pop_push (s : CallStack) (frame : Frame) : (s.push frame).pop = s := by
  simp [push, pop]

@[simp] theorem pop_empty : empty.pop = empty := rfl

end CallStack

/-- One recorded state of a simulated program. -/
structure Snapshot where
  /-- The position in the trace, counted from one. -/
  index : Nat
  /-- The source line, counted from one. -/
  line : Nat
  bindings : Bindings
  callStack : List Frame
  /-- Every line of output up to this state. -/
  emitted : List String
  /-- The loop condition that held here. -/
  condition : Option String
  /-- What happened here, in words. -/
  note : Option String
deriving Repr

/-- A snapshot of nothing, standing in for a step that could not be read. -/
def Snapshot.blank (index : Nat) : Snapshot :=
  ⟨index, 0, .empty, [], [], none, none⟩

instance : Inhabited Snapshot := ⟨.blank 0⟩

/-- The snapshots of one run, in order. -/
abbrev Trace := List Snapshot

end TraceTutor
