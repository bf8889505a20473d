import TraceTutor.Limits
import TraceTutor.Script.Access
import TraceTutor.Script.Builtin
import TraceTutor.Script.Scope
import TraceTutor.Trace.Recorder

/-!
# The machine of the script language

A `Machine` is the whole state of a running script. An action `Exec` changes it and yields a result
or an interrupt; it also counts the nodes of the program that it visits. The machine outlives an
interrupt, so that what was recorded before it is kept.
-/

namespace TraceTutor

/-- A function of the program. -/
structure Procedure where
  params : List String
  body : List Stmt
deriving Inhabited, Repr

/-- The state of a running script. -/
structure Machine where
  globals : Scope
  /-- The scopes of the active calls, the innermost one first. -/
  scopes : List Scope
  procedures : NameMap Procedure
  recorder : Recorder
  /-- How many statements and loop rounds were started. -/
  steps : Nat
  /-- How many loops of the innermost call surround the current statement. -/
  loopDepth : Nat
deriving Repr

namespace Machine

/-- The machine before a program runs. -/
def initial : Machine := ⟨.empty, [], .empty, .empty, 0, 0⟩

instance : Inhabited Machine := ⟨initial⟩

/-! ## Variables -/

/-- The scope that a name belongs to: that of the innermost call if it declares the name, and the
global one otherwise. -/
def scopeOf (m : Machine) (name : String) : Scope :=
  match m.scopes with
  | [] => m.globals
  | scope :: _ => if scope.declares name then scope else m.globals

/-- Changes the scope that a name belongs to. -/
def updateScopeOf (m : Machine) (name : String) (change : Scope → Scope) : Machine :=
  match m.scopes with
  | [] => { m with globals := change m.globals }
  | scope :: outer =>
    if scope.declares name then { m with scopes := change scope :: outer }
    else { m with globals := change m.globals }

/-- The value that a name is bound to. -/
def read? (m : Machine) (name : String) : Option Value :=
  (m.scopeOf name).locals.get? name

def isDeclared (m : Machine) (name : String) : Bool :=
  (m.scopeOf name).declares name

/-- What a name yields as an expression. -/
def lookup (m : Machine) (name : String) : Except RuntimeCause Slot :=
  match m.read? name with
  | some v => .ok (some v)
  | none =>
    if name = "undefined" || m.isDeclared name then .ok none
    else if m.procedures.contains name || name = "Math" || name = "console" then
      .error (.notAValue name)
    else .error (.undefinedName name)

/-- Declares a name in the innermost call, or globally outside of calls. -/
def declare (m : Machine) (kind : DeclarationKind) (name : String) (initial : Slot) : Machine :=
  match m.scopes with
  | [] => { m with globals := m.globals.declare kind name initial }
  | scope :: outer => { m with scopes := scope.declare kind name initial :: outer }

/-- Assigns to a name. One that nothing declares becomes global. -/
def assign (m : Machine) (name : String) (v : Slot) : Except RuntimeCause Machine :=
  if (m.scopeOf name).consts.contains name then .error (.constAssignment name)
  else .ok (m.updateScopeOf name fun scope => scope.store name v)

/-- Adds items to the array that a name is bound to, and yields its new length. -/
def push (m : Machine) (name : String) (items : List Value) :
    Except RuntimeCause (Value × Machine) :=
  match m.read? name with
  | none => .error (if m.isDeclared name then .notCallable (name ++ ".push") else .undefinedName name)
  | some v =>
    match v.push? items with
    | none => .error (.notCallable (name ++ ".push"))
    | some (array, length) =>
      .ok (length, m.updateScopeOf name fun scope =>
        { scope with locals := scope.locals.set name array })

/-! ## Functions -/

def define (m : Machine) (name : String) (procedure : Procedure) : Machine :=
  { m with procedures := m.procedures.set name procedure }

/-- Defines the functions that a body declares at its top. The last one of a name counts. -/
def hoist (m : Machine) : List Stmt → Machine
  | [] => m
  | .function _ name params body :: rest => (m.define name ⟨params, body⟩).hoist rest
  | _ :: rest => m.hoist rest

/-- The machine inside a call. -/
def enterCall (m : Machine) (name : String) (procedure : Procedure) (args : List Slot)
    (line : Nat) : Machine :=
  let scope := Scope.ofCall procedure.params args
  { m with
    scopes := scope :: m.scopes
    recorder := m.recorder.pushFrame ⟨name, scope.locals, line⟩
    loopDepth := 0 }.hoist procedure.body

/-- The machine after a call that was made at a given depth of loops. -/
def leaveCall (m : Machine) (loopDepth : Nat) : Machine :=
  { m with scopes := m.scopes.tail, recorder := m.recorder.popFrame, loopDepth }

/-! ## Recording -/

/-- What a snapshot shows: the global bindings under those of the innermost call. -/
def visible (m : Machine) : Bindings :=
  match m.scopes with
  | [] => m.globals.locals
  | scope :: _ => scope.overlay m.globals.locals

/-- Records a snapshot. -/
def capture (m : Machine) (line : Nat) (note : String) : Machine :=
  { m with recorder := m.recorder.commit line m.visible none (some note) }

def log (m : Machine) (args : List Slot) : Machine :=
  { m with recorder := m.recorder.emit (logLine args) }

end Machine

/-! ## Actions -/

/-- Why a run stops early. -/
inductive Interrupt where
  | fault (f : Fault)
  /-- The step budget is used up. -/
  | budget
deriving DecidableEq, Repr

/-- How an action ended. -/
structure Outcome (α : Type) where
  result : Except Interrupt α
  machine : Machine
  /-- How many statements, loop rounds, expressions and calls were visited. -/
  visits : Nat

/-- An action of a script. -/
def Exec (α : Type) : Type := Machine → Outcome α

namespace Exec

variable {α β : Type}

def pure (x : α) : Exec α := fun m => ⟨.ok x, m, 0⟩

/-- One action after another. An interrupt skips the second one. -/
def bind (first : Exec α) (second : α → Exec β) : Exec β := fun m =>
  match first m with
  | ⟨.ok x, m, visits⟩ =>
    let next := second x m
    { next with visits := visits + next.visits }
  | ⟨.error interrupt, m, visits⟩ => ⟨.error interrupt, m, visits⟩

instance : Monad Exec where
  pure := pure
  bind := bind

def interrupt (i : Interrupt) : Exec α := fun m => ⟨.error i, m, 0⟩

/-- Counts one more visit. -/
def visit (action : Exec α) : Exec α := fun m =>
  let done := action m
  { done with visits := done.visits + 1 }

/-- Changes the machine. -/
def modify (change : Machine → Machine) : Exec Unit := fun m => ⟨.ok (), change m, 0⟩

/-- Changes the machine and yields something, or faults at a line. -/
def update (line : Nat) (change : Machine → Except RuntimeCause (α × Machine)) : Exec α := fun m =>
  match change m with
  | .ok (x, m) => ⟨.ok x, m, 0⟩
  | .error cause => ⟨.error (.fault (.runtime cause line)), m, 0⟩

/-- Yields something, or faults at a line. -/
def ofExcept (line : Nat) : Except RuntimeCause α → Exec α
  | .ok x => pure x
  | .error cause => interrupt (.fault (.runtime cause line))

/-- Yields what a function reads off the machine. -/
def read (view : Machine → α) : Exec α := fun m => ⟨.ok (view m), m, 0⟩

/-- Runs an action in a changed machine, and changes the machine again however the action ends. The
second change sees the machine of before. -/
def within (enter : Machine → Machine) (leave : Machine → Machine → Machine) (action : Exec α) :
    Exec α := fun m =>
  let done := action (enter m)
  { done with machine := leave m done.machine }

/-- Counts one step against the budget. -/
def tick (budget : Nat) : Exec Unit := fun m =>
  let m := { m with steps := m.steps + 1 }
  if budget < m.steps then ⟨.error .budget, m, 0⟩ else ⟨.ok (), m, 0⟩

def lookup (line : Nat) (name : String) : Exec Slot := fun m =>
  ofExcept line (m.lookup name) m

def assign (line : Nat) (name : String) (v : Slot) : Exec Unit :=
  update line fun m => (m.assign name v).map ((), ·)

def declare (kind : DeclarationKind) (name : String) (initial : Slot) : Exec Unit :=
  modify fun m => m.declare kind name initial

def push (line : Nat) (name : String) (items : List Value) : Exec Slot :=
  update line fun m => (m.push name items).map fun (length, m) => (some length, m)

def log (args : List Slot) : Exec Unit :=
  modify fun m => m.log args

def capture (line : Nat) (note : String) : Exec Unit :=
  modify fun m => m.capture line note

end Exec

end TraceTutor
