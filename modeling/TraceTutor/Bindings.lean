import TraceTutor.Json.Reader
import TraceTutor.NameMap
import TraceTutor.Value.Equality

/-!
# Bindings

The variables of a program with their values, in the order of declaration. As a document, bindings
are an object whose fields stand in that order.
-/

namespace TraceTutor

/-- Variables and their values, in the order of declaration. -/
abbrev Bindings := NameMap Value

namespace Bindings

/-- Whether two stores bind the same names to the same values, in whatever order. -/
def identical (a b : Bindings) : Bool :=
  a.size == b.size && a.entries.all fun (name, v) =>
    match b.get? name with
    | some w => v.identical w
    | none => false

def toDocument (b : Bindings) : Document :=
  .object (b.entries.map fun (name, v) => (name, Document.ofValue v))

/-- The bindings that a document holds: those of an object, or none for `null`. -/
def ofDocument? : Document → Option Bindings
  | .null => some .empty
  | .object fields => (Document.toValueFields? fields).map .ofList
  | _ => none

end Bindings

end TraceTutor
