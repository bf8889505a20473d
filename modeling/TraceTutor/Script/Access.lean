import TraceTutor.Script.Fault
import TraceTutor.Script.Program

/-!
# Access to parts of values

Reading an item or a property of a value, combining two values of which either may be missing, and
telling what a call calls. The two evaluators share these rules.
-/

namespace TraceTutor

namespace Value

/-- The value of a field, or `null`. -/
def field (fields : List (String × Value)) (name : String) : Value :=
  (fields.lookup name).getD .null

/-- The value of a property. Arrays and strings have a length; only `null` has no properties at
all. -/
def property (target : Value) (name : String) : Except RuntimeCause Value :=
  match (if name = "length" then target.length? else none), target with
  | some length, _ => .ok length
  | none, object fields => .ok (field fields name)
  | none, null => .error (.readOfNull name)
  | none, _ => .ok .null

/-- The value at an index: an item of an array, a character of a string, or a field of an object.
An index that is out of range yields `null`. -/
def item (target index : Value) : Except RuntimeCause Value :=
  match target with
  | array items => .ok ((index.asIndex?.bind (items[·]?)).getD .null)
  | string s =>
    .ok ((index.asIndex?.bind (s.toList[·]?)).elim .null fun c => .string (String.singleton c))
  | object fields => .ok (field fields index.display)
  | null => .error (.readOfNull index.display)
  | _ => .ok .null

end Value

/-- The result of an operator on operands that may be missing. A missing operand joins a string by
its name and counts as `null` otherwise. -/
def BinaryOp.combine (op : BinaryOp) (left right : Slot) : Except RuntimeCause Value :=
  match op, left, right with
  | add, none, some (.string s) => .ok (.string ("undefined" ++ s))
  | add, some (.string s), none => .ok (.string (s ++ "undefined"))
  | op, left, right =>
    match op.apply? left.orNull right.orNull with
    | some v => .ok v
    | none => .error (.mustShortCircuit op)

/-- What a call calls. -/
inductive Callee where
  /-- A function of the program. -/
  | function (name : String)
  /-- The output `console.log`. -/
  | log
  /-- A member of `Math`. -/
  | math (name : String)
  /-- The `push` of the array that a variable holds. -/
  | push (target : String)
  /-- Another member, which is no function. -/
  | member (path : String)
  /-- Anything else. -/
  | computed
deriving DecidableEq, Repr

/-- What an expression denotes in the place of a callee. -/
def Expr.callee : Expr → Callee
  | name f => .function f
  | member (name owner) property =>
    if owner = "console" ∧ property = "log" then .log
    else if owner = "Math" then .math property
    else if property = "push" then .push owner
    else .member (owner ++ "." ++ property)
  | member target property => .member ((member target property).path?.getD property)
  | _ => .computed

end TraceTutor
