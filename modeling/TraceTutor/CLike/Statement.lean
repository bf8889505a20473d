import TraceTutor.CLike.Output

/-!
# Statements of line-stepped programs

`classify` tells what a line does. The kinds of statements are tried in a fixed order, and every
kind describes the whole line up to a comment, so that no statement is taken for a part of itself.
Assignments only count for variables that are bound.
-/

namespace TraceTutor

namespace CLike

/-! ## Loop conditions -/

/-- The comparisons of loop conditions. -/
inductive Comparison where
  | less
  | lessEqual
  | greater
  | greaterEqual
deriving DecidableEq, Repr

namespace Comparison

def symbol : Comparison → String
  | less => "<"
  | lessEqual => "<="
  | greater => ">"
  | greaterEqual => ">="

/-- Whether a comparison holds between two doubles. -/
def holds (c : Comparison) (left right : Binary64) : Bool :=
  match c, left.compare? right with
  | less, some .lt => true
  | lessEqual, some .lt => true
  | lessEqual, some .eq => true
  | greater, some .gt => true
  | greaterEqual, some .gt => true
  | greaterEqual, some .eq => true
  | _, _ => false

end Comparison

/-- The condition of a loop. -/
structure LoopCondition where
  name : String
  comparison : Comparison
  limit : Int
deriving DecidableEq, Repr

namespace LineReader

/-- A comparison, the longer sign first. -/
def comparison : LineReader Comparison :=
  (do sign "<="; return .lessEqual) <|> (do sign ">="; return .greaterEqual) <|>
    (do sign "<"; return .less) <|> (do sign ">"; return .greater)

/-- The head of a loop. -/
def loopHead : LineReader LoopCondition := do
  word "while"
  sign "("
  let name ← identifier
  let c ← comparison
  let limit ← integer
  sign ")"
  sign "\x7b"
  ending
  return ⟨name, c, limit⟩

end LineReader

namespace LoopCondition

/-- The condition of a line that is a loop head. -/
def ofLine? (line : List Char) : Option LoopCondition :=
  LineReader.loopHead.read? line

/-- The value that is compared: `0` unless the variable holds a number. -/
def currentValue (c : LoopCondition) (bindings : Bindings) : Value :=
  match bindings.get? c.name with
  | some (.number n) => .number n
  | _ => .int 0

/-- Whether the condition holds. -/
def holds (c : LoopCondition) (bindings : Bindings) : Bool :=
  c.comparison.holds ((c.currentValue bindings).asBinary64?.getD .zero) (.ofInt c.limit)

/-- The condition as a snapshot shows it. -/
def render (c : LoopCondition) : String :=
  s!"while ({c.name} {c.comparison.symbol} {c.limit})"

end LoopCondition

/-! ## Statements -/

/-- What a line does. -/
inductive Statement where
  /-- A blank line, a comment or a directive. -/
  | noOp
  | declare (name : String) (value : Int)
  | assign (name : String) (value : Int)
  | increment (name : String)
  | addAssign (target operand : String)
  | loopHead (condition : LoopCondition)
  | closeBrace
  /-- Output of a text in which variables are already replaced by their values. -/
  | output (text : String)
  | factorialCall (target : String) (argument : Int)
  | unrecognized
deriving DecidableEq, Repr

namespace LineReader

/-- The declaration of an integer. -/
def declaration : LineReader (String × Int) := do
  declarationWord
  let name ← identifier
  sign "="
  let value ← integer
  terminator
  return (name, value)

def assignment : LineReader (String × Int) := do
  let name ← identifier
  sign "="
  let value ← integer
  terminator
  return (name, value)

def increment : LineReader String := do
  let name ← identifier
  sign "++"
  terminator
  return name

/-- The addition of a variable to another. -/
def addAssignment : LineReader (String × String) := do
  let target ← identifier
  sign "+="
  let operand ← identifier
  terminator
  return (target, operand)

/-- An assignment of a factorial. -/
def factorialAssignment : LineReader (String × Int) := do
  let target ← identifier
  sign "="
  let callee ← identifier
  if callee ≠ "factorial" then failure
  sign "("
  let argument ← integer
  sign ")"
  terminator
  return (target, argument)

/-- An assignment or a declaration of a factorial. -/
def factorialCall : LineReader (String × Int) := fun line =>
  match declarationWord line with
  | some ((), rest) => factorialAssignment rest
  | none => factorialAssignment line

end LineReader

/-- Whether a line says nothing: it is blank, or starts as a comment or a directive. -/
def isInert (line : List Char) : Bool :=
  line.isEmpty || ["//", "/*", "#include", "using"].any fun start => start.toList.isPrefixOf line

/-- What a line does that is not inert. The first kind of statement that describes it counts. -/
def statement? (bindings : Bindings) (line : List Char) : Option Statement :=
  let bound := fun name => bindings.contains name
  (LineReader.declaration.read? line).map (fun s => .declare s.1 s.2) <|>
  ((LineReader.assignment.read? line).filter fun s => bound s.1).map
    (fun s => .assign s.1 s.2) <|>
  ((LineReader.increment.read? line).filter bound).map .increment <|>
  ((LineReader.addAssignment.read? line).filter fun s => bound s.1 && bound s.2).map
    (fun s => .addAssign s.1 s.2) <|>
  (LoopCondition.ofLine? line).map .loopHead <|>
  (if line = ['}'] then some .closeBrace else none) <|>
  (LineReader.output.read? line).map (fun arguments => .output (renderOutput bindings arguments)) <|>
  (LineReader.factorialCall.read? line).map (fun s => .factorialCall s.1 s.2)

/-- What a line does, without white space around it. -/
def classifyTrimmed (bindings : Bindings) (line : List Char) : Statement :=
  if isInert line then .noOp else (statement? bindings line).getD .unrecognized

/-- What a line does. -/
def classify (bindings : Bindings) (line : List Char) : Statement :=
  classifyTrimmed bindings (Text.trim line)

end CLike

end TraceTutor
