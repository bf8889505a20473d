import TraceTutor.Trace.Document
import TraceTutor.Value.Text

/-!
# Discrepancies

`discrepancies` compares a learner's trace with a generated one, position by position, and reports
every variable whose values differ. A position that only one trace has is no discrepancy. Within a
position the variables of the generated snapshot come first, in their order, and then those that
only the learner bound.
-/

namespace TraceTutor

/-- A variable whose predicted and actual values differ. -/
structure Discrepancy where
  /-- The position of both snapshots, counted from one. -/
  step : Nat
  name : String
  /-- The learner's value, missing if the learner did not bind the variable. -/
  predicted : Slot
  /-- The generated value, missing if the run did not bind the variable. -/
  actual : Slot
deriving Repr

namespace Discrepancy

/-- The sentence that tells the learner about it. -/
def explanation (d : Discrepancy) : String :=
  s!"Variable {d.name} differs: you predicted {d.predicted.describe}, " ++
    s!"but actual value is {d.actual.describe}"

/-- A missing value is left out. -/
def slotField (name : String) : Slot → List (String × Document)
  | some v => [(name, .ofValue v)]
  | none => []

def toDocument (d : Discrepancy) : Document :=
  .object ([("atStep", .nat d.step), ("variable", .string d.name)] ++
    slotField "predicted" d.predicted ++ slotField "actual" d.actual ++
    [("explanation", .string d.explanation)])

end Discrepancy

/-- The variables that either of two snapshots binds, those of `actual` first. -/
def comparedNames (predicted actual : Bindings) : List String :=
  actual.names ++ predicted.names.filter fun name => !actual.contains name

/-- The discrepancies between the bindings at one position. -/
def discrepanciesAt (step : Nat) (predicted actual : Bindings) : List Discrepancy :=
  (comparedNames predicted actual).filterMap fun name =>
    let p := predicted.get? name
    let a := actual.get? name
    if Slot.same p a then none else some ⟨step, name, p, a⟩

/-- The discrepancies between a learner's trace and a generated one. -/
def discrepancies (learner generated : Trace) : List Discrepancy :=
  ((learner.zip generated).mapIdx fun position (p, a) =>
    discrepanciesAt (position + 1) p.bindings a.bindings).flatten

/-- The discrepancies of a learner's document. -/
def discrepanciesOfLearner (learner : Value) (generated : Trace) : List Discrepancy :=
  discrepancies (Trace.ofLearner learner) generated

end TraceTutor
