import TraceTutor.Value.Basic

/-!
# Equality of values

Two comparisons that differ on numbers alone. `Value.same` compares numbers as doubles, so that `1`
equals `1.0`; `Value.identical` also tells integers from doubles. Arrays compare item by item, and
objects by their sets of keys and the values under each.
-/

namespace TraceTutor

namespace Number

/-- Whether two numbers denote the same double. -/
def same (a b : Number) : Bool :=
  a.toBinary64.same b.toBinary64

/-- Whether two numbers are of one kind and equal. -/
def identical : Number → Number → Bool
  | int m, int n => m == n
  | float x, float y => x.signed == y.signed
  | _, _ => false

end Number

namespace Value

mutual

/-- Structural equality, for a given equality of numbers. -/
def equalBy (numbers : Number → Number → Bool) : Value → Value → Bool
  | null, null => true
  | bool a, bool b => a == b
  | number m, number n => numbers m n
  | string s, string t => s == t
  | array xs, array ys => itemsEqualBy numbers xs ys
  | object xs, object ys => xs.length == ys.length && fieldsWithinBy numbers xs ys
  | _, _ => false

/-- Equality of arrays, item by item. -/
def itemsEqualBy (numbers : Number → Number → Bool) : List Value → List Value → Bool
  | [], [] => true
  | x :: xs, y :: ys => equalBy numbers x y && itemsEqualBy numbers xs ys
  | _, _ => false

/-- Whether every field of the first object has an equal one in the second. -/
def fieldsWithinBy (numbers : Number → Number → Bool) :
    List (String × Value) → List (String × Value) → Bool
  | [], _ => true
  | (key, x) :: xs, ys =>
    (match ys.lookup key with
    | some y => equalBy numbers x y
    | none => false) && fieldsWithinBy numbers xs ys

end

/-- Structural equality with numbers compared as doubles. -/
def same (a b : Value) : Bool :=
  equalBy Number.same a b

/-- Structural equality that tells integers from doubles. -/
def identical (a b : Value) : Bool :=
  equalBy Number.identical a b

end Value

namespace Slot

/-- Equality of values that may be missing; a missing one equals only another missing one. -/
def same : Slot → Slot → Bool
  | none, none => true
  | some a, some b => a.same b
  | _, _ => false

/-- The value, with `null` for a missing one. -/
def orNull : Slot → Value
  | some v => v
  | none => .null

/-- Whether a value is present and holds as a condition. -/
def isTruthy : Slot → Bool
  | some v => v.isTruthy
  | none => false

end Slot

end TraceTutor
