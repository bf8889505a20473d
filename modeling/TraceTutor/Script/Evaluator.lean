import TraceTutor.Run
import TraceTutor.Script.Machine
import TraceTutor.Script.Parser.Statement
import TraceTutor.Text.Blank

/-!
# Running scripts

`run` executes a script and records a snapshot after the statements that a learner predicts:
declarations with a value, logged lines, and calls that stand alone. A run that completes ends with
a snapshot of the final state.

Expressions and statements are evaluated by recursion on their trees. A call is evaluated by the
action that the evaluator is given for it; `callWithin n` builds that action for `n` more levels of
calls out of the one for `n - 1` levels. A loop makes at most as many rounds as there are steps left
in the budget, since every round is a step.
-/

namespace TraceTutor

/-- How a statement ended. -/
inductive Flow where
  | normal
  | stop
  | next
  | ret (v : Slot)
deriving Repr

/-- What it takes to call a function of the program: its name, the arguments, and the line. -/
abbrev CallAction := String → List Slot → Nat → Exec Slot

namespace Script

/-! ## Expressions -/

/-- Calls what a callee denotes. -/
def invoke (call : CallAction) (callee : Callee) (args : List Slot) (line : Nat) : Exec Slot :=
  match callee with
  | .function name => call name args line
  | .log => do
    Exec.log args
    return none
  | .math name =>
    Exec.ofExcept line <| match mathCall? name (args.map Slot.orNull) with
      | some v => .ok (some v)
      | none => .error (.notCallable ("Math." ++ name))
  | .push target => Exec.push line target (args.map Slot.orNull)
  | .member path => Exec.ofExcept line (.error (.notCallable path))
  | .computed => Exec.ofExcept line (.error .computedCallee)

mutual

/-- The value of an expression. Faults show at the line of its statement. -/
def evaluate (call : CallAction) (line : Nat) : Expr → Exec Slot
  | .literal v => .visit (pure (some v))
  | .name name => .visit (.lookup line name)
  | .array items => .visit do
    let values ← evaluateAll call line items
    return some (.array (values.map Slot.orNull))
  | .object fields => .visit do return some (.ofFields (← evaluateFields call line fields))
  | .unary op operand => .visit do
    let v ← evaluate call line operand
    return some (op.apply v.orNull)
  | .binary op left right => .visit do
    let l ← evaluate call line left
    match op with
    | .and => if l.isTruthy then evaluate call line right else return l
    | .or => if l.isTruthy then return l else evaluate call line right
    | _ =>
      let r ← evaluate call line right
      return some (← .ofExcept line (op.combine l r))
  | .ternary condition yes no => .visit do
    let test ← evaluate call line condition
    if test.isTruthy then evaluate call line yes else evaluate call line no
  | .index target index => .visit do
    let t ← evaluate call line target
    let i ← evaluate call line index
    return some (← .ofExcept line (t.orNull.item i.orNull))
  | .member target property => .visit do
    let t ← evaluate call line target
    return some (← .ofExcept line (t.orNull.property property))
  | .call callee args => .visit do
    let values ← evaluateAll call line args
    invoke call callee.callee values line

/-- The values of a list of expressions, from left to right. -/
def evaluateAll (call : CallAction) (line : Nat) : List Expr → Exec (List Slot)
  | [] => return []
  | e :: rest => do
    let v ← evaluate call line e
    return v :: (← evaluateAll call line rest)

/-- The fields of an object, from left to right. A field that is `undefined` is left out. -/
def evaluateFields (call : CallAction) (line : Nat) :
    List (String × Expr) → Exec (List (String × Value))
  | [] => return []
  | (key, e) :: rest => do
    let v ← evaluate call line e
    let fields ← evaluateFields call line rest
    return match v with
      | some v => (key, v) :: fields
      | none => fields

end

/-- The value of an expression that may be left out. -/
def evaluateOr (call : CallAction) (line : Nat) (default : Slot) : Option Expr → Exec Slot
  | some e => evaluate call line e
  | none => return default

/-! ## Simple statements -/

/-- The note of a call that stands alone as a statement. -/
def callNote? : Expr → Option String
  | .call (.name _) _ => some "Function called"
  | .call callee _ => if callee.path? = some "console.log" then some "Output logged" else none
  | _ => none

/-- Records a snapshot with a note that names the line. -/
def captureNote (line : Nat) (note : String) : Exec Unit :=
  .capture line s!"Line {line}: {note}"

/-- Records a snapshot of a statement that is shown, if there is a note for it. -/
def captureIf (shown : Bool) (line : Nat) (note? : Option String) : Exec Unit :=
  match shown, note? with
  | true, some note => captureNote line note
  | _, _ => pure ()

/-- Declares a variable. Only a declaration with a value is shown. -/
def declareVariable (call : CallAction) (shown : Bool) (line : Nat) (kind : DeclarationKind)
    (name : String) : Option Expr → Exec Unit
  | some e => do
    let v ← evaluate call line e
    Exec.declare kind name v
    captureIf shown line (some s!"Variable {name} assigned")
  | none => Exec.declare kind name none

/-- Assigns to a variable, for a compound assignment what the operator makes of its old value. -/
def assignVariable (line : Nat) (name : String) (v : Slot) : Option BinaryOp → Exec Unit
  | some op => do
    let old ← Exec.lookup line name
    Exec.assign line name (some (← .ofExcept line (op.combine old v)))
  | none => Exec.assign line name v

/-- Defines a function, unless there is one of that name. -/
def defineOnce (name : String) (procedure : Procedure) : Exec Unit :=
  .modify fun m => if m.procedures.contains name then m else m.define name procedure

/-- Ends a statement in a certain way, unless that is out of place. -/
def leave (line : Nat) (misplaced : Machine → Bool) (cause : RuntimeCause) (flow : Flow) :
    Exec Flow :=
  .update line fun m => if misplaced m then .error cause else .ok (flow, m)

/-! ## Loops -/

/-- Rounds of a loop until one says how the loop ends. -/
def rounds (budget : Nat) (round : Exec (Option Flow)) : Nat → Exec Flow
  | 0 => .interrupt .budget
  | fuel + 1 => do
    match ← Exec.visit (do Exec.tick budget; round) with
    | some flow => return flow
    | none => rounds budget round fuel

/-- A loop. Every round takes a step, so the steps that are left bound the rounds. -/
def loop (budget : Nat) (round : Exec (Option Flow)) : Exec Flow :=
  .within (fun m => { m with loopDepth := m.loopDepth + 1 })
    (fun _ m => { m with loopDepth := m.loopDepth - 1 })
    fun m => rounds budget round (budget - m.steps + 1) m

/-- What a loop does after its body ended: it goes on after the update, or ends. -/
def afterBody (update : Exec Unit) : Flow → Exec (Option Flow)
  | .stop => return some .normal
  | .ret v => return some (.ret v)
  | _ => do
    update
    return none

/-- A round of a loop, which ends the loop if the test fails. -/
def loopRound (test : Exec Slot) (update : Exec Unit) (body : Exec Flow) : Exec (Option Flow) := do
  let v ← test
  if v.isTruthy then afterBody update (← body) else return some .normal

/-! ## Statements -/

mutual

/-- Executes a statement, recording its snapshot if it is `instrumented`. -/
def exec (budget : Nat) (call : CallAction) (instrumented : Bool) (s : Stmt) : Exec Flow :=
  let line := s.location.line
  .visit do
    Exec.tick budget
    match s with
    | .declare _ kind name initial =>
      declareVariable call instrumented line kind name initial
      return .normal
    | .assign _ target op e =>
      assignVariable line target (← evaluate call line e) op
      return .normal
    | .update _ target delta =>
      assignVariable line target (some (.int delta)) (some .add)
      return .normal
    | .expression _ e =>
      let _ ← evaluate call line e
      captureIf instrumented line (callNote? e)
      return .normal
    | .block _ body => execBlock budget call body
    | .cond _ condition yes no =>
      let test ← evaluate call line condition
      if test.isTruthy then execBlock budget call yes else execElse budget call no
    | .whileLoop _ condition body =>
      loop budget
        (loopRound (evaluate call line condition) (pure ()) (execBlock budget call body))
    | .forLoop _ initial condition update body =>
      execClause budget call initial
      loop budget (loopRound (evaluateOr call line (some (.bool true)) condition)
        (execClause budget call update) (execBlock budget call body))
    | .function _ name params body =>
      defineOnce name ⟨params, body⟩
      return .normal
    | .ret _ value =>
      let _ ← leave line (·.scopes.isEmpty) .strayReturn .normal
      return .ret (← evaluateOr call line none value)
    | .stop _ => leave line (·.loopDepth == 0) .strayBreak .stop
    | .next _ => leave line (·.loopDepth == 0) .strayContinue .next

/-- Executes a clause of a loop head. It is not shown, and how it ends does not matter. -/
def execClause (budget : Nat) (call : CallAction) : Option Stmt → Exec Unit
  | some s => do let _ ← exec budget call false s
  | none => return ()

/-- Executes statements until one of them does not end normally. -/
def execBlock (budget : Nat) (call : CallAction) : List Stmt → Exec Flow
  | [] => return .normal
  | s :: rest => do
    match ← exec budget call true s with
    | .normal => execBlock budget call rest
    | flow => return flow

/-- Executes the statements after `else`, if there are any. -/
def execElse (budget : Nat) (call : CallAction) : Option (List Stmt) → Exec Flow
  | some body => execBlock budget call body
  | none => return .normal

end

/-! ## Calls -/

/-- Runs an action inside of a call, in a scope of its own. -/
def inCall {α : Type} (name : String) (procedure : Procedure) (args : List Slot) (line : Nat)
    (action : Exec α) : Exec α :=
  .within (fun m => m.enterCall name procedure args line)
    (fun before m => m.leaveCall before.loopDepth) action

/-- What a body returns is the value of the call. -/
def runBody (budget : Nat) (call : CallAction) (name : String) (procedure : Procedure)
    (args : List Slot) (line : Nat) : Exec Slot := do
  let flow ← inCall name procedure args line (execBlock budget call procedure.body)
  return match flow with
    | .ret v => v
    | _ => none

/-- The function of a name, or why there is none. -/
def findProcedure (m : Machine) (name : String) : Except RuntimeCause Procedure :=
  match m.procedures.get? name with
  | some procedure => .ok procedure
  | none => .error (if m.isDeclared name then .notCallable name else .undefinedName name)

/-- The function that a call at a line calls. -/
def find (line : Nat) (name : String) : Exec Procedure :=
  .update line fun m => (findProcedure m name).map (·, m)

/-- Calls a function where `levels` more calls may be nested. -/
def callWithin (limits : Limits) : (levels : Nat) → CallAction
  | 0, name, _, line => .visit do
    let _ ← find line name
    .ofExcept line (.error (.callDepthExceeded limits.callDepth))
  | levels + 1, name, args, line => .visit do
    let procedure ← find line name
    runBody limits.stepBudget (callWithin limits levels) name procedure args line

/-- The call action outside of all calls. -/
def call (limits : Limits) : CallAction :=
  callWithin limits limits.callDepth

/-! ## Programs -/

/-- Executes a program from its first statement. -/
def execute (limits : Limits) (program : Program) : Outcome Flow :=
  execBlock limits.stepBudget (call limits) program (Machine.initial.hoist program)

/-- The number of the last line of a text, and one for an empty text. -/
def lastLine (source : String) : Nat :=
  max 1 (Text.lines source.toList).length

/-- What a run yields that ended in a certain way. A completed one gets its final snapshot. -/
def Outcome.toRun (lastLine : Nat) (o : Outcome Flow) : Run :=
  match o.result with
  | .ok _ =>
    let m := o.machine.capture lastLine "Final state"
    ⟨m.recorder.trace, m.recorder.output.toList, none, false⟩
  | .error .budget => ⟨o.machine.recorder.trace, o.machine.recorder.output.toList, none, true⟩
  | .error (.fault f) =>
    ⟨o.machine.recorder.trace, o.machine.recorder.output.toList, some f, false⟩

/-- Runs a script. A run that is interrupted keeps what was recorded. -/
def run (limits : Limits) (source : String) : Run :=
  match parseProgram source with
  | .error fault => .failed (.syntactic fault)
  | .ok program => Outcome.toRun (lastLine source) (execute limits program)

end Script

end TraceTutor
