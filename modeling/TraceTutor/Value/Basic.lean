import TraceTutor.Number.Decimal

/-!
# Program values

The values that variables hold: `null`, booleans, numbers, strings, arrays and objects. A number is
an integer or a finite double, two kinds that are told apart when written and compare equal when
they denote the same double. `Value.ofBinary64` keeps whole results integers as long as a double
can hold every integer of that size.
-/

namespace TraceTutor

/-- An integer, or a finite double. -/
inductive Number where
  | int (n : Int)
  | float (x : Finite64)
deriving DecidableEq, Inhabited, Repr

/-- A program value. The fields of an object are sorted by key, and no key occurs twice. -/
inductive Value where
  | null
  | bool (b : Bool)
  | number (n : Number)
  | string (s : String)
  | array (items : List Value)
  | object (fields : List (String × Value))
deriving Inhabited, Repr

/-- What a name or an expression yields: a value, or nothing for `undefined`. -/
abbrev Slot := Option Value

/-! ## Integers -/

/-- The largest integer up to which a double holds every integer, one less than the fifty-third
power of two. -/
def maxExactInt : Int := 9007199254740991

/-- The least integer above all signed words of sixty-four bits. -/
def wordBound : Int := 0x8000000000000000

/-- The number of words of sixty-four bits. -/
def wordCount : Nat := 0x10000000000000000

/-- Whether an integer is a signed word of sixty-four bits. -/
def isWord (n : Int) : Bool :=
  -wordBound ≤ n && n < wordBound

namespace Number

/-- The closest double. -/
def toBinary64 : Number → Binary64
  | int n => .ofInt n
  | float x => .finite x

/-- The integer that a number is: a signed word, or a whole double of exact size. -/
def asInt? : Number → Option Int
  | int n => if isWord n then some n else none
  | float x => if x.isWhole && x.truncate.natAbs ≤ maxExactInt then some x.truncate else none

end Number

namespace Value

/-- The value of an integer. -/
def int (n : Int) : Value :=
  .number (.int n)

/-- The value of a computed double: an integer if it is whole and of exact size, a double if it is
finite, and `null` otherwise. -/
def ofBinary64 : Binary64 → Value
  | .finite x =>
    if x.isWhole && x.truncate.natAbs ≤ maxExactInt then int x.truncate
    else .number (.float x)
  | _ => .null

/-! ## Views -/

/-- The double that a number denotes. -/
def asBinary64? : Value → Option Binary64
  | .number n => some n.toBinary64
  | _ => none

/-- The integer that a number is. -/
def asInt? : Value → Option Int
  | .number n => n.asInt?
  | _ => none

/-- The position that a value denotes, if it is a whole number that is not negative. -/
def asIndex? (v : Value) : Option Nat :=
  match v.asInt? with
  | some n => if 0 ≤ n then some n.toNat else none
  | none => none

/-- Whether a value holds as a condition. -/
def isTruthy : Value → Bool
  | null => false
  | bool b => b
  | number n => !n.toBinary64.same .zero
  | string s => !s.isEmpty
  | array _ => true
  | object _ => true

def isString : Value → Bool
  | string _ => true
  | _ => false

/-- Whether a value is an array or an object. -/
def isCompound : Value → Bool
  | array _ => true
  | object _ => true
  | _ => false

/-! ## Fields of objects -/

/-- Sets a field, keeping keys sorted by code points. -/
def insertField {α : Type} (key : String) (v : α) : List (String × α) → List (String × α)
  | [] => [(key, v)]
  | (k, w) :: rest =>
    if key = k then (k, v) :: rest
    else if key < k then (key, v) :: (k, w) :: rest
    else (k, w) :: insertField key v rest

/-- The object with the given fields, of which the last one of a key counts. -/
def ofFields (fields : List (String × Value)) : Value :=
  .object (fields.foldl (fun acc (key, v) => insertField key v acc) [])

/-! ## Lengths and parts -/

/-- The value of a count. A count that is no signed word wraps around to one. -/
def ofCount (n : Nat) : Value :=
  int ((n : Int).bmod wordCount)

/-- The length of an array or of a string, a string being counted in characters. -/
def length? : Value → Option Value
  | array items => some (ofCount items.length)
  | string s => some (ofCount s.length)
  | _ => none

/-- An array with items added at its end, and its new length. -/
def push? (target : Value) (items : List Value) : Option (Value × Value) :=
  match target with
  | array old => some (.array (old ++ items), ofCount (old.length + items.length))
  | _ => none

end Value

end TraceTutor
