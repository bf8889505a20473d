import TraceTutor.Json.Document
import TraceTutor.Value.Equality

/-!
# Values as text

`Value.display` is what a program prints for a value, and `Slot.describe` is how an explanation
names one: as a compact document, or as `undefined` when it is missing.
-/

namespace TraceTutor

/-- A number as programs print it: without a fraction when it is whole. -/
def Number.display (n : Number) : String :=
  match n.asInt? with
  | some k => toString k
  | none => NumeralStyle.output.writeAny n.toBinary64

namespace Value

/-- The compact document of a value. -/
def compact (v : Value) : String :=
  (Document.ofValue v).compact

/-- The text that a program prints for a value. Strings are bare. -/
def display : Value → String
  | null => "null"
  | bool b => if b then "true" else "false"
  | number n => n.display
  | string s => s
  | v => v.compact

end Value

/-- The text that an explanation shows for a value that may be missing. -/
def Slot.describe : Slot → String
  | some v => v.compact
  | none => "undefined"

end TraceTutor
