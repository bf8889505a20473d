import TraceTutor.Text.Blank
import TraceTutor.Value.Text

/-!
# Operators

The operators of the script language on values. Integers stay integers as long as the result is a
signed word; everything else is computed in doubles. `+` joins texts as soon as a string, an array
or an object takes part. Equality is structural.
-/

namespace TraceTutor

inductive BinaryOp where
  | add
  | sub
  | mul
  | div
  | mod
  | eq
  | ne
  | lt
  | le
  | gt
  | ge
  | and
  | or
deriving DecidableEq, Inhabited, Repr

namespace BinaryOp

/-- The operator as it is written. Equality has the strict spelling. -/
def symbol : BinaryOp → String
  | add => "+"
  | sub => "-"
  | mul => "*"
  | div => "/"
  | mod => "%"
  | eq => "==="
  | ne => "!=="
  | lt => "<"
  | le => "<="
  | gt => ">"
  | ge => ">="
  | and => "&&"
  | or => "||"

end BinaryOp

inductive UnaryOp where
  | neg
  | plus
  | not
deriving DecidableEq, Inhabited, Repr

namespace Value

/-! ## Numbers of values -/

/-- The double that a value counts as in arithmetic: booleans are `0` and `1`, `null` is `0`, and a
string is the number that it spells, an empty one being `0`. -/
def toBinary64 : Value → Binary64
  | number n => n.toBinary64
  | bool b => .ofInt (if b then 1 else 0)
  | null => .zero
  | string s =>
    let text := Text.trim s.toList
    if text.isEmpty then .zero else (Binary64.ofText? text).getD .nan
  | array _ => .nan
  | object _ => .nan

/-- The signed word that a value is, booleans and `null` included. -/
def exactInt? : Value → Option Int
  | bool b => some (if b then 1 else 0)
  | null => some 0
  | number (.int n) => if isWord n then some n else none
  | _ => none

/-! ## Arithmetic -/

/-- The exact result of an operation on integers. A remainder is taken where the quotient is a word
as well. -/
def intArithmetic? (op : BinaryOp) (a b : Int) : Option Int :=
  match op with
  | .add => some (a + b)
  | .sub => some (a - b)
  | .mul => some (a * b)
  | .mod => if b ≠ 0 && isWord (a.tdiv b) then some (a.tmod b) else none
  | _ => none

def floatArithmetic (op : BinaryOp) (a b : Binary64) : Binary64 :=
  match op with
  | .add => a.add b
  | .sub => a.sub b
  | .mul => a.mul b
  | .div => a.div b
  | _ => a.rem b

/-- Arithmetic on integers where both operands are integers and the result is a word, and on doubles
otherwise. -/
def arithmetic (op : BinaryOp) (left right : Value) : Value :=
  let word? : Option Int := do
    let n ← intArithmetic? op (← left.exactInt?) (← right.exactInt?)
    if isWord n then some n else none
  match word? with
  | some n => int n
  | none => ofBinary64 (floatArithmetic op left.toBinary64 right.toBinary64)

/-! ## Joining -/

mutual

/-- The text of an operand of `+`. Arrays join their items with commas. -/
def joinText : Value → String
  | array items => String.intercalate "," (itemTexts items)
  | object _ => "[object Object]"
  | v => v.display

/-- The texts of the items of an array, in which `null` leaves a gap. -/
def itemTexts : List Value → List String
  | [] => []
  | null :: items => "" :: itemTexts items
  | item :: items => joinText item :: itemTexts items

end

/-- The sum of two values, or their texts joined. -/
def add (left right : Value) : Value :=
  if left.isString || right.isString || left.isCompound || right.isCompound then
    string (left.joinText ++ right.joinText)
  else arithmetic .add left right

/-! ## Order -/

/-- The order of two values: strings by code points, all else as numbers. -/
def compare? : Value → Value → Option Ordering
  | string s, string t => some (compare s t)
  | left, right => left.toBinary64.compare? right.toBinary64

end Value

/-- The result of an operator that evaluates both operands. The two logical operators have none. -/
def BinaryOp.apply? (op : BinaryOp) (left right : Value) : Option Value :=
  match op with
  | add => some (left.add right)
  | sub => some (Value.arithmetic .sub left right)
  | mul => some (Value.arithmetic .mul left right)
  | div => some (.ofBinary64 (left.toBinary64.div right.toBinary64))
  | mod => some (Value.arithmetic .mod left right)
  | eq => some (.bool (left.same right))
  | ne => some (.bool !left.same right)
  | lt => some (.bool (left.compare? right == some .lt))
  | le => some (.bool (left.compare? right matches some .lt | some .eq))
  | gt => some (.bool (left.compare? right == some .gt))
  | ge => some (.bool (left.compare? right matches some .gt | some .eq))
  | and => none
  | or => none

/-- The result of a unary operator. -/
def UnaryOp.apply (op : UnaryOp) (operand : Value) : Value :=
  match op with
  | not => .bool !operand.isTruthy
  | plus => .ofBinary64 operand.toBinary64
  | neg =>
    match operand with
    | .number (.int n) =>
      if isWord n && isWord (-n) then .int (-n) else .ofBinary64 (Binary64.ofInt n).neg
    | v => .ofBinary64 v.toBinary64.neg

end TraceTutor
