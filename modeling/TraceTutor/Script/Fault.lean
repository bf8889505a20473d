import TraceTutor.Script.Operator
import TraceTutor.Script.Token

/-!
# Faults

What ends a run of the script language with a message: a text that is no program, or a cause that
shows at a line while the program runs.
-/

namespace TraceTutor

/-- Why a running program cannot go on. -/
inductive RuntimeCause where
  /-- A name that nothing declares. -/
  | undefinedName (name : String)
  /-- A call of something that is no function. -/
  | notCallable (path : String)
  | constAssignment (name : String)
  /-- A property of `null`. -/
  | readOfNull (property : String)
  | callDepthExceeded (limit : Nat)
  /-- A logical operator whose operands were both evaluated. -/
  | mustShortCircuit (op : BinaryOp)
  /-- A function where a value is wanted. -/
  | notAValue (name : String)
  | strayReturn
  | strayBreak
  | strayContinue
  /-- A call of something that has no name. -/
  | computedCallee
deriving DecidableEq, Repr

/-- The message of a cause that shows at a line. -/
def RuntimeCause.message (line : Nat) : RuntimeCause → String
  | undefinedName name => s!"ReferenceError: {name} is not defined (line {line})"
  | notCallable path => s!"TypeError: {path} is not a function (line {line})"
  | constAssignment name => s!"TypeError: Assignment to constant variable '{name}' (line {line})"
  | readOfNull property =>
    s!"TypeError: Cannot read properties of null (reading '{property}') (line {line})"
  | callDepthExceeded limit =>
    s!"RangeError: Maximum call stack size exceeded ({limit} frames, line {line})"
  | mustShortCircuit op => s!"Unsupported: '{op.symbol}' must short-circuit (line {line})"
  | notAValue name => s!"Unsupported: '{name}' cannot be used as a value (line {line})"
  | strayReturn => s!"Unsupported: Illegal return statement (line {line})"
  | strayBreak => s!"Unsupported: Illegal break statement (line {line})"
  | strayContinue => s!"Unsupported: Illegal continue statement (line {line})"
  | computedCallee => s!"Unsupported: call of a computed callee (line {line})"

/-- What ends a run with a message. -/
inductive Fault where
  | syntactic (fault : SyntaxFault)
  | runtime (cause : RuntimeCause) (line : Nat)
deriving DecidableEq, Repr

namespace Fault

def message : Fault → String
  | syntactic fault => fault.message
  | runtime cause line => cause.message line

/-- The line at which the fault shows. -/
def line : Fault → Nat
  | syntactic fault => fault.location.line
  | runtime _ line => line

end Fault

end TraceTutor
