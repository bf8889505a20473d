import TraceTutor.Script.Fault
import TraceTutor.Trace.Snapshot

/-!
# Runs

What the simulation of one program yields.
-/

namespace TraceTutor

/-- The result of simulating a program. -/
structure Run where
  trace : Trace
  output : List String
  /-- What ended the run, if it did not end by itself. -/
  fault : Option Fault
  /-- Whether a limit cut the run short. -/
  truncated : Bool
deriving Repr

namespace Run

/-- A run that a fault ended before anything happened. -/
def failed (fault : Fault) : Run :=
  ⟨[], [], some fault, false⟩

def succeeded (r : Run) : Bool :=
  r.fault.isNone

end Run

end TraceTutor
