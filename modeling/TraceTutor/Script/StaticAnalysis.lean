import TraceTutor.Script.Evaluator
import TraceTutor.Text.Letter

/-!
# Static analysis of scripts

`analyze` reads a script line by line without running it. A line that declares a variable binds it
to a literal, or to the value of an expression without side effects over the bindings so far, or to
`null` if neither is known. A line that mentions `console.log` gets a snapshot of its own. The trace
is never empty.

`evaluatePure?` is the evaluator for expressions without side effects, in which the members of
`Math` are the only functions.
-/

namespace TraceTutor

namespace Script

/-! ## Expressions without side effects -/

mutual

/-- The value of an expression over bindings, unless it is unknown or has side effects. -/
def evaluatePure? (bindings : Bindings) : Expr → Option Value
  | .literal v => some v
  | .name name => if name = "undefined" then some .null else bindings.get? name
  | .array items => (evaluatePureAll? bindings items).map .array
  | .object fields => (evaluatePureFields? bindings fields).map .ofFields
  | .unary op operand => (evaluatePure? bindings operand).map op.apply
  | .binary op left right => do
    let l ← evaluatePure? bindings left
    match op with
    | .and => if l.isTruthy then evaluatePure? bindings right else some l
    | .or => if l.isTruthy then some l else evaluatePure? bindings right
    | _ => op.apply? l (← evaluatePure? bindings right)
  | .ternary condition yes no => do
    let test ← evaluatePure? bindings condition
    if test.isTruthy then evaluatePure? bindings yes else evaluatePure? bindings no
  | .index target index => do
    let t ← evaluatePure? bindings target
    (t.item (← evaluatePure? bindings index)).toOption
  | .member target property => do
    let t ← evaluatePure? bindings target
    (t.property property).toOption
  | .call callee args => do
    match callee.callee with
    | .math name => mathCall? name (← evaluatePureAll? bindings args)
    | _ => none

/-- The values of a list of expressions. -/
def evaluatePureAll? (bindings : Bindings) : List Expr → Option (List Value)
  | [] => some []
  | e :: rest => do return (← evaluatePure? bindings e) :: (← evaluatePureAll? bindings rest)

/-- The fields of an object. -/
def evaluatePureFields? (bindings : Bindings) :
    List (String × Expr) → Option (List (String × Value))
  | [] => some []
  | (key, e) :: rest => do
    return (key, ← evaluatePure? bindings e) :: (← evaluatePureFields? bindings rest)

end

/-! ## Literals -/

def isDigits (text : List Char) : Bool :=
  !text.isEmpty && text.all Char.isDigit

/-- Whether a text stands between two quotes of a kind. -/
def isQuotedBy (quote : Char) (text : List Char) : Bool :=
  2 ≤ text.length && text.head? == some quote && text.getLast? == some quote

/-- The value of a text that is recognized at a glance. A quoted text holds what stands between the
outer quotes, as it is; an array or an object counts as empty. -/
def literal? (text : List Char) : Option Value :=
  if text = "true".toList then some (.bool true)
  else if text = "false".toList then some (.bool false)
  else if text = "null".toList then some .null
  else if isDigits text then
    let n := Decimal.ofDigits text
    if isWord n then some (.int n) else none
  else if isDigits (text.takeWhile (· ≠ '.')) && isDigits ((text.dropWhile (· ≠ '.')).drop 1) then
    (Binary64.ofText? text).map .ofBinary64
  else if isQuotedBy '"' text || isQuotedBy '\'' text then
    some (.string (String.ofList (text.drop 1).dropLast))
  else match text with
    | '[' :: _ => some (.array [])
    | '{' :: _ => some (.object [])
    | _ => none

/-- The value of an initializer: a literal, or an expression without side effects. -/
def initialValue? (bindings : Bindings) (text : List Char) : Option Value :=
  match literal? text with
  | some v => some v
  | none =>
    match parseExpression (String.ofList text) with
    | .ok e => evaluatePure? bindings e
    | .error _ => none

/-! ## Lines -/

/-- The rest of a text after one of the words of a declaration. -/
def afterDeclarationWord? : List Char → Option (List Char)
  | 'l' :: 'e' :: 't' :: rest => some rest
  | 'c' :: 'o' :: 'n' :: 's' :: 't' :: rest => some rest
  | 'v' :: 'a' :: 'r' :: rest => some rest
  | _ => none

def isNamePart (c : Char) : Bool :=
  Text.isLetterOrNumber c || c == '_' || c == '$'

/-- An initializer without one semicolon at its end. -/
def withoutSemicolon (text : List Char) : List Char :=
  if text.getLast? = some ';' then Text.trimEnd text.dropLast else text

/-- The name and the initializer that a line declares. -/
def splitDeclaration? (line : List Char) : Option (String × List Char) := do
  let rest ← afterDeclarationWord? line
  if !rest.head?.any Text.isBlank then none
  else
    let rest := Text.trimStart rest
    let name := rest.takeWhile isNamePart
    match Text.trimStart (rest.dropWhile isNamePart) with
    | '=' :: rest =>
      let initial := withoutSemicolon (Text.trim rest)
      if name.isEmpty || rest.head? = some '=' || initial.isEmpty then none
      else some (String.ofList name, initial)
    | _ => none

/-- An analysis under way. -/
structure Analysis where
  recorder : Recorder
  bindings : Bindings

namespace Analysis

def empty : Analysis := ⟨.empty, .empty⟩

/-- Records a snapshot with a note that names the line. -/
def capture (a : Analysis) (line : Nat) (note : String) : Analysis :=
  { a with recorder := a.recorder.commit line a.bindings none (some s!"Line {line}: {note}") }

/-- Binds a declared variable. -/
def declare (a : Analysis) (line : Nat) (name : String) (initial : List Char) : Analysis :=
  match initialValue? a.bindings initial with
  | some v => { a with bindings := a.bindings.set name v }.capture line
      s!"Variable {name} = {v.compact}"
  | none => { a with bindings := a.bindings.set name .null }.capture line
      s!"Variable {name} value unavailable"

/-- Reads one line. Blank lines and lines that start with a comment do not count. -/
def readLine (a : Analysis) (line : Nat) (text : List Char) : Analysis :=
  let text := Text.trim text
  if text.isEmpty || ['/', '/'].isPrefixOf text then a
  else
    let a := match splitDeclaration? text with
      | some (name, initial) => a.declare line name initial
      | none => a
    if Text.occursIn "console.log".toList text then a.capture line "Output logged" else a

/-- What declarations and snapshots keep holds after a line is read. -/
theorem readLine_induction {motive : Analysis → Prop} {a : Analysis} {line : Nat} (h : motive a)
    (hdeclare : ∀ name initial, motive (a.declare line name initial))
    (hcapture : ∀ a note, motive a → motive (a.capture line note)) (text : List Char) :
    motive (a.readLine line text) := by
  unfold readLine
  dsimp only
  split
  · exact h
  · cases splitDeclaration? (Text.trim text) with
    | none =>
      dsimp only
      split
      · exact hcapture _ _ h
      · exact h
    | some declaration =>
      have hdeclared := hdeclare declaration.1 declaration.2
      dsimp only
      split
      · exact hcapture _ _ hdeclared
      · exact hdeclared

/-- Reads lines that are numbered from `line`. -/
def readLines (a : Analysis) (line : Nat) : List (List Char) → Analysis
  | [] => a
  | text :: rest => (a.readLine line text).readLines (line + 1) rest

end Analysis

/-- The trace of a script that is not run. -/
def analyze (source : String) : Trace :=
  let recorder := (Analysis.empty.readLines 1 (Text.lines source.toList)).recorder
  if recorder.isEmpty then (recorder.commit 1 .empty none (some "Code executed")).trace
  else recorder.trace

/-! ## Running with analysis in reserve -/

/-- Runs a script, and analyzes it if the run recorded nothing. -/
def runOrAnalyze (limits : Limits) (source : String) : Run :=
  let done := run limits source
  if done.trace.isEmpty then { done with trace := analyze source } else done

end Script

end TraceTutor
