import TraceTutor.Json.Document

/-!
# Limits

The bounds that make every run end. As a document, limits are a record in which every part may be
left out.
-/

namespace TraceTutor

/-- The bounds of a run. -/
structure Limits where
  /-- How many lines a line-stepped program may take. -/
  iterationCap : Nat
  /-- How many statements and loop rounds a script may execute. -/
  stepBudget : Nat
  /-- How deep the calls of a script may be nested. -/
  callDepth : Nat
deriving DecidableEq, Repr

namespace Limits

def standard : Limits := ⟨1000, 10000, 64⟩

instance : Inhabited Limits := ⟨standard⟩

/-- The limits that a document holds. -/
def ofDocument? (d : Document) : Option Limits := do
  match ← d.record? [["iterationCap"], ["scriptStepBudget"], ["maxCallDepth"]] with
  | [cap, budget, depth] =>
    return ⟨← cap.elim (some standard.iterationCap) Document.toNat?,
      ← budget.elim (some standard.stepBudget) Document.toNat?,
      ← depth.elim (some standard.callDepth) Document.toNat?⟩
  | _ => none

end Limits

end TraceTutor
