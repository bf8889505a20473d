import TraceTutor.Trace.Snapshot

/-!
# Traces as documents

Every part of a trace is a record. `Trace.toDocument` writes the fields of a snapshot in a fixed
order and leaves out a missing condition or note. `Trace.ofDocument?` reads strictly; it also takes
the older names of the fields, and a field that is left out is empty.

`Trace.ofLearner` reads the trace that a learner wrote and never fails: a step that cannot be read
becomes a blank snapshot, so that later steps keep their positions.
-/

namespace TraceTutor

namespace Frame

def toDocument (f : Frame) : Document :=
  .object [("name", .string f.name), ("bindings", f.bindings.toDocument),
    ("sourceLine", .nat f.line)]

/-- A frame needs a name. -/
def ofDocument? (d : Document) : Option Frame := do
  match ← d.record? [["name", "functionName"], ["bindings", "variables"], ["sourceLine", "line"]] with
  | [name, bindings, line] =>
    return ⟨← (← name).toString?, ← bindings.elim (some .empty) Bindings.ofDocument?,
      ← line.elim (some 0) Document.toNat?⟩
  | _ => none

end Frame

namespace Snapshot

/-- The fields of a snapshot, with older names after the current one. -/
def fieldNames : List (List String) :=
  [["index", "step"], ["sourceLine", "line"], ["bindings", "variables"], ["callStack", "stack"],
    ["emitted", "output"], ["condition"], ["note", "explanation"]]

/-- A field that is left out when it is missing. -/
def optionalField (name : String) (text : Option String) : List (String × Document) :=
  match text with
  | some s => [(name, .string s)]
  | none => []

def toDocument (s : Snapshot) : Document :=
  .object ([("index", .nat s.index), ("sourceLine", .nat s.line),
    ("bindings", s.bindings.toDocument), ("callStack", .array (s.callStack.map Frame.toDocument)),
    ("emitted", .strings s.emitted)] ++
    optionalField "condition" s.condition ++ optionalField "note" s.note)

/-- A list of parts that are read in the same way. -/
def listOf? {α : Type} (read : Document → Option α) (d : Document) : Option (List α) := do
  (← d.toArray?).mapM read

def ofDocument? (d : Document) : Option Snapshot := do
  match ← d.record? fieldNames with
  | [index, line, bindings, callStack, emitted, condition, note] =>
    return ⟨← index.elim (some 0) Document.toNat?, ← line.elim (some 0) Document.toNat?,
      ← bindings.elim (some .empty) Bindings.ofDocument?,
      ← callStack.elim (some []) (listOf? Frame.ofDocument?),
      ← emitted.elim (some []) (listOf? Document.toString?),
      ← condition.elim (some none) (Document.toOption? Document.toString?),
      ← note.elim (some none) (Document.toOption? Document.toString?)⟩
  | _ => none

end Snapshot

namespace Trace

def toDocument (t : Trace) : Document :=
  .array (t.map Snapshot.toDocument)

def ofDocument? (d : Document) : Option Trace :=
  Snapshot.listOf? Snapshot.ofDocument? d

/-- The steps of a learner's document: an array, or the array under `trace` or `traceSteps`. -/
def learnerSteps : Value → List Value
  | .array steps => steps
  | .object fields =>
    match (fields.lookup "trace").or (fields.lookup "traceSteps") with
    | some (.array steps) => steps
    | _ => []
  | _ => []

/-- The trace in a learner's document. -/
def ofLearner (document : Value) : Trace :=
  (learnerSteps document).mapIdx fun position step =>
    (Snapshot.ofDocument? (.ofValue step)).getD (.blank (position + 1))

/-- The trace in a learner's text, empty if it is no document. -/
def ofLearnerText (text : String) : Trace :=
  (Document.readToValue? text).elim [] ofLearner

end Trace

end TraceTutor
