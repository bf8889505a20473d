import TraceTutor.Script.Operator

/-!
# Built-in functions

The functions that every program may call: `factorial`, the members of `Math`, and the text of one
logged line.
-/

namespace TraceTutor

/-! ## Factorial -/

/-- A product under way: exact while it is a signed word, a double from then on. -/
inductive Product where
  | exact (n : Int)
  | approximate (x : Binary64)
deriving DecidableEq, Repr

namespace Product

/-- The product times one more factor. -/
def times (p : Product) (k : Nat) : Product :=
  match p with
  | exact n =>
    if isWord (n * k) then exact (n * k) else approximate ((Binary64.ofInt n).mul (.ofInt k))
  | approximate x => approximate (x.mul (.ofInt k))

/-- Whether the product has left the finite doubles, so that no further factor matters. -/
def isInfinite : Product → Bool
  | approximate (.infinite _) => true
  | _ => false

def toValue : Product → Value
  | exact n => .int n
  | approximate x => .ofBinary64 x

/-- The product times `k`, `k + 1` and so on up to `last`, in at most `fuel` multiplications. -/
def timesUpTo (last : Int) (fuel k : Nat) (p : Product) : Product :=
  match fuel with
  | 0 => p
  | fuel + 1 => if last < k || p.isInfinite then p else timesUpTo last fuel (k + 1) (p.times k)

end Product

/-- The factorial of `n`, and `1` if `n < 1`. The product is infinite after `171` factors. -/
def factorial (n : Int) : Value :=
  (Product.timesUpTo n 200 1 (.exact 1)).toValue

/-! ## Mathematics -/

/-- The result of a member of `Math`, if there is such a member. Missing arguments are `NaN`. -/
def mathCall? (name : String) (args : List Value) : Option Value :=
  let numbers := args.map Value.toBinary64
  let first := numbers.head?.getD .nan
  let second := numbers[1]?.getD .nan
  let result? : Option Binary64 := match name with
    | "max" => some (numbers.foldl .max (.infinite true))
    | "min" => some (numbers.foldl .min (.infinite false))
    | "abs" => some first.abs
    | "floor" => some first.floor
    | "ceil" => some first.ceil
    | "round" => some (first.add .half).floor
    | "sqrt" => some first.sqrt
    | "pow" => some (first.pow second)
    | _ => none
  result?.map .ofBinary64

/-! ## Output -/

/-- The text of one logged line. -/
def logLine (args : List Slot) : String :=
  String.intercalate " " (args.map fun arg => match arg with
    | some v => v.display
    | none => "undefined")

end TraceTutor
