import TraceTutor.CLike.Stepper
import TraceTutor.Discrepancy
import TraceTutor.Script.StaticAnalysis

/-!
# Sessions

A `Request` asks to run a source text of one of two languages and to compare the run with a trace
that a learner predicted. `Request.execute` answers with a `Report`; it refuses only a source that
is blank, and faults of the run are part of the report.
-/

namespace TraceTutor

/-! ## Languages -/

/-- The two languages. -/
inductive Language where
  /-- Line-stepped programs. -/
  | cLike
  /-- Scripts. -/
  | script
deriving DecidableEq, Inhabited, Repr

namespace Language

/-- The name of a language in documents. -/
def text : Language → String
  | cLike => "c-like"
  | script => "dynamic-like"

/-- The language of a document name. -/
def ofText? (text : String) : Option Language :=
  [cLike, script].find? fun language => language.text = text

/-- The tags that stand for line-stepped programs. -/
def cLikeTags : List String :=
  ["cpp", "c++", "c", "cc", "cxx"]

/-- The language of a tag such as the ending of a file's name. Case and white space around it do not
matter, and every other tag stands for scripts. -/
def ofTag (tag : String) : Language :=
  let tag := String.ofList ((Text.trim tag.toList).map Char.toLower)
  if cLikeTags.contains tag then cLike else script

/-- The language that a document names: a string, or an object with the name as its only key and
`null` under it. -/
def ofDocument? : Document → Option Language
  | .string s => ofText? s
  | .object [(key, .null)] => ofText? key
  | _ => none

end Language

/-! ## Requests and reports -/

/-- What is to be run, and what it is to be compared with. -/
structure Request where
  source : String
  language : Language
  learner : Option Trace
deriving Repr

/-- The request in a document. -/
def Request.ofDocument? (d : Document) : Option Request := do
  match ← d.record? [["sourceCode", "code"], ["subsetKind"], ["learnerTrace"]] with
  | [source, language, learner] =>
    return ⟨← (← source).toString?, ← Language.ofDocument? (← language),
      ← learner.elim (some none) (Document.toOption? Trace.ofDocument?)⟩
  | _ => none

/-- Why a request is refused. -/
inductive RequestError where
  /-- The source is blank. -/
  | missingSource
deriving DecidableEq, Repr

def RequestError.message : RequestError → String
  | missingSource => "source code is required"

/-- A run and how it differs from the learner's trace. -/
structure Report where
  run : Run
  discrepancies : List Discrepancy
deriving Repr

namespace Report

/-- Whether there is anything to give a hint about. -/
def isHintWorthy (r : Report) : Bool :=
  !r.discrepancies.isEmpty

/-- The document of a report on a run that took some milliseconds. -/
def toDocument (r : Report) (elapsed : Nat) : Document :=
  .object ([("success", .bool r.run.succeeded), ("output", .strings r.run.output),
    ("trace", r.run.trace.toDocument)] ++
    Snapshot.optionalField "error" (r.run.fault.map Fault.message) ++
    [("mismatches", .array (r.discrepancies.map Discrepancy.toDocument)),
      ("truncated", .bool r.run.truncated), ("elapsedMs", .nat elapsed)])

end Report

/-! ## Execution -/

/-- Runs a source text. -/
def Language.run (language : Language) (limits : Limits) (source : String) : Run :=
  match language with
  | cLike => CLike.run limits source
  | script => Script.runOrAnalyze limits source

/-- Answers a request. -/
def Request.execute (request : Request) (limits : Limits) : Except RequestError Report :=
  if Text.isAllBlank request.source.toList then .error .missingSource
  else
    let run := request.language.run limits request.source
    .ok ⟨run, request.learner.elim [] fun learner => discrepancies learner run.trace⟩

end TraceTutor
