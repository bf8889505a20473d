import TraceTutor.Session

/-!
# Command line

The command line takes one source file, options for the language, the learner's trace and the
limits, and `--json` for a report instead of the viewer. `CommandLine.parse` reads the arguments
from left to right and refuses the first one that does not fit; `CommandLine.simulate` does what
they ask for, given the contents of files.
-/

namespace TraceTutor

namespace CommandLine

/-! ## Arguments -/

/-- What the arguments say. -/
structure Options where
  file : Option String
  language : Option String
  learner : Option String
  iterationCap : Option Nat
  stepBudget : Option Nat
  callDepth : Option Nat
  json : Bool
deriving Repr

namespace Options

def empty : Options := ⟨none, none, none, none, none, none, false⟩

instance : Inhabited Options := ⟨empty⟩

def limits (o : Options) : Limits :=
  ⟨o.iterationCap.getD Limits.standard.iterationCap, o.stepBudget.getD Limits.standard.stepBudget,
    o.callDepth.getD Limits.standard.callDepth⟩

end Options

/-- The options that take a value. -/
inductive ValueOption where
  | language
  | learner
  | iterationCap
  | stepBudget
  | callDepth
deriving DecidableEq, Repr

/-- What a long name denotes. -/
inductive LongOption where
  | value (option : ValueOption)
  | json
  | version
  | help
deriving DecidableEq, Repr

def LongOption.ofName? : String → Option LongOption
  | "language" => some (.value .language)
  | "learner" => some (.value .learner)
  | "iteration-cap" => some (.value .iterationCap)
  | "step-budget" => some (.value .stepBudget)
  | "max-call-depth" => some (.value .callDepth)
  | "json" => some .json
  | "version" => some .version
  | "help" => some .help
  | _ => none

/-- A count in decimal digits, perhaps with a plus in front, of at most sixty-four bits. -/
def count? (text : String) : Option Nat :=
  let digits := match text.toList with
    | '+' :: rest => rest
    | digits => digits
  if digits.isEmpty || !digits.all Char.isDigit then none
  else
    let n := Decimal.ofDigits digits
    if n < wordCount then some n else none

/-- Fills in what was not given before. -/
def once {α : Type} (old : Option α) (new : Option α) : Option (Option α) :=
  match old with
  | some _ => none
  | none => new.map some

/-- The name of a file, which is not empty. -/
def fileName? (text : String) : Option String :=
  if text.isEmpty then none else some text

/-- Sets an option, which may be given once. -/
def setValue (o : Options) (option : ValueOption) (text : String) : Option Options :=
  match option with
  | .language => (once o.language (some text)).map fun v => { o with language := v }
  | .learner => (once o.learner (fileName? text)).map fun v => { o with learner := v }
  | .iterationCap => (once o.iterationCap (count? text)).map fun v => { o with iterationCap := v }
  | .stepBudget => (once o.stepBudget (count? text)).map fun v => { o with stepBudget := v }
  | .callDepth => (once o.callDepth (count? text)).map fun v => { o with callDepth := v }

/-- Sets the source file, which may be given once. -/
def setFile (o : Options) (name : String) : Option Options :=
  (once o.file (fileName? name)).map fun v => { o with file := v }

def setJson (o : Options) : Option Options :=
  if o.json then none else some { o with json := true }

/-- What is to be done. -/
inductive Command where
  | simulate (options : Options)
  | version
  | help
deriving Repr

/-- Whether an argument stands for itself: it starts with no dash, or is nothing but one. -/
def isPlain (arg : String) : Bool :=
  arg.toList.head? != some '-' || arg == "-"

/-- Files only, after `--`. -/
def parseFiles (o : Options) : List String → Option Options
  | [] => some o
  | name :: rest => do parseFiles (← setFile o name) rest

/-- The rest of a text after the first `=`, and what stands before it. -/
def splitAtEquals (text : List Char) : String × Option String :=
  (String.ofList (text.takeWhile (· ≠ '=')),
    match text.dropWhile (· ≠ '=') with
    | [] => none
    | _ :: rest => some (String.ofList rest))

/-- What one argument is. -/
inductive Argument where
  | filesOnly
  | file (name : String)
  | json
  | version
  | help
  /-- An option with the value that is attached to it. -/
  | attached (option : ValueOption) (value : String)
  /-- An option whose value is the next argument. -/
  | awaiting (option : ValueOption)
  | invalid
deriving DecidableEq, Repr

def Argument.ofText (arg : String) : Argument :=
  match arg.toList with
  | ['-', '-'] => .filesOnly
  | '-' :: '-' :: rest =>
    let (name, value?) := splitAtEquals rest
    match LongOption.ofName? name, value? with
    | some (.value option), some value => .attached option value
    | some (.value option), none => .awaiting option
    | some .json, none => .json
    | some .version, none => .version
    | some .help, none => .help
    | _, _ => .invalid
  | ['-', 'l'] => .awaiting .language
  | '-' :: 'l' :: '=' :: rest => .attached .language (String.ofList rest)
  | '-' :: 'l' :: rest => .attached .language (String.ofList rest)
  | '-' :: 'V' :: _ => .version
  | '-' :: 'h' :: _ => .help
  | '-' :: _ :: _ => .invalid
  | _ => .file arg

/-- Reads arguments from left to right, on top of options that are already read. -/
def parseFrom (o : Options) : List String → Option Command
  | [] => if o.file.isSome then some (.simulate o) else none
  | arg :: rest => do
    match Argument.ofText arg, rest with
    | .filesOnly, rest =>
      let o ← parseFiles o rest
      if o.file.isSome then some (.simulate o) else none
    | .file name, rest => parseFrom (← setFile o name) rest
    | .json, rest => parseFrom (← setJson o) rest
    | .version, _ => some .version
    | .help, _ => some .help
    | .attached option value, rest => parseFrom (← setValue o option value) rest
    | .awaiting option, value :: rest =>
      if isPlain value then parseFrom (← setValue o option value) rest else none
    | .awaiting _, [] => none
    | .invalid, _ => none

/-- What the arguments ask for, unless they do not fit. -/
def parse (args : List String) : Option Command :=
  parseFrom .empty args

/-! ## Files -/

/-- What is under a file name. -/
inductive FileContent where
  | missing
  | unreadable (reason : String)
  | text (s : String)
deriving DecidableEq, Repr

/-- The content of a file with the given bytes. -/
def FileContent.ofBytes (bytes : ByteArray) : FileContent :=
  match String.fromUTF8? bytes with
  | some s => text s
  | none => unreadable "stream did not contain valid UTF-8"

/-- Why nothing was simulated. -/
inductive Failure where
  | fileNotFound (name : String)
  | fileUnreadable (name reason : String)
  | request (error : RequestError)
deriving DecidableEq, Repr

def Failure.message : Failure → String
  | fileNotFound name => s!"Error: File '{name}' not found"
  | fileUnreadable name reason => s!"Error: failed to read {name}\n\nCaused by:\n    {reason}"
  | request error => "Error: " ++ error.message

/-- The text of a file. -/
def FileContent.read (name : String) : FileContent → Except Failure String
  | missing => .error (.fileNotFound name)
  | unreadable reason => .error (.fileUnreadable name reason)
  | text s => .ok s

/-- The parts of a path between slashes, without those that stay in place. -/
def pathParts (path : List Char) : List (List Char) :=
  (path.splitOn '/').filter fun part => part ≠ [] ∧ part ≠ ['.']

/-- The ending of a file's name after its last point. A point at the start of a name begins no
ending. -/
def extension? (path : String) : Option String := do
  let name ← (pathParts path.toList).getLast?
  if name = ['.', '.'] || !name.contains '.' then none
  else
    let ending := name.reverse.takeWhile (· ≠ '.')
    if ending.length + 1 = name.length then none else some (String.ofList ending.reverse)

/-- The language tag: as given, or the ending of the file's name, or that of line-stepped
programs. -/
def languageTag (o : Options) : String :=
  (o.language.or (o.file.bind extension?)).getD "cpp"

/-- The request of a command line. A learner's file that cannot be made out holds no steps. -/
def request {m : Type → Type} [Monad m] (load : String → m FileContent) (o : Options) :
    ExceptT Failure m Request := do
  let name := o.file.getD ""
  let source ← ExceptT.mk do return (← load name).read name
  let learner ← match o.learner with
    | none => pure none
    | some name => do
      let text ← ExceptT.mk do return (← load name).read name
      pure (some (Trace.ofLearnerText text))
  return ⟨source, .ofTag (languageTag o), learner⟩

/-- The request of a command line and the report on it. -/
def simulate {m : Type → Type} [Monad m] (load : String → m FileContent) (o : Options) :
    ExceptT Failure m (Request × Report) := do
  let request ← request load o
  match request.execute o.limits with
  | .ok report => return (request, report)
  | .error error => throw (.request error)

/-- How the command line is used. -/
def usageText : String :=
  "usage: reforge FILE [--language TAG] [--learner TRACE.json] [--iteration-cap N] " ++
    "[--step-budget N] [--max-call-depth N] [--json]"

/-- The name and the version of the program. -/
def versionText : String := "reforge 0.1.0"

end CommandLine

end TraceTutor
