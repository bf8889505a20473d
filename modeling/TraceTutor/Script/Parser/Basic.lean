import TraceTutor.Script.Lexer
import TraceTutor.Script.Program

/-!
# Parsers

A parser reads tokens from the front of a stream and returns what it built and the rest, or the
first fault. Repetition takes the tokens that are left as its fuel: an item reads at least one
token, so the fuel never runs out first.
-/

namespace TraceTutor

/-- Reads tokens from the front of a stream. -/
abbrev TokenParser (α : Type) := StateT TokenStream (Except SyntaxFault) α

namespace TokenStream

/-- The next token, unless the text has ended. -/
def head? (s : TokenStream) : Option Token :=
  s.tokens.head?

/-- What the next token is. -/
def kind? (s : TokenStream) : Option TokenKind :=
  s.head?.map Token.kind

/-- The place of the next token or of the end. -/
def location (s : TokenStream) : Location :=
  match s.tokens with
  | [] => s.stop
  | token :: _ => token.location

/-- The stream after the next token. -/
def tail (s : TokenStream) : TokenStream :=
  { s with tokens := s.tokens.tail }

end TokenStream

namespace TokenParser

/-- The fault that something else was wanted here. -/
def fail {α : Type} (wanted : Expectation) : TokenParser α := fun s =>
  .error ⟨.unexpected wanted s.kind?, s.location⟩

def peek : TokenParser (Option TokenKind) := fun s =>
  .ok (s.kind?, s)

def advance : TokenParser Unit := fun s =>
  .ok ((), s.tail)

def location : TokenParser Location := fun s =>
  .ok (s.location, s)

/-- Whether a sign comes next. -/
def check (sign : Sign) : TokenParser Bool := fun s =>
  .ok (s.kind? == some (.sign sign), s)

/-- Reads a sign if it comes next. -/
def accept (sign : Sign) : TokenParser Bool := fun s =>
  if s.kind? = some (.sign sign) then .ok (true, s.tail) else .ok (false, s)

/-- Reads a sign that has to come next. -/
def expect (sign : Sign) (wanted : Expectation) : TokenParser Unit := fun s =>
  if s.kind? = some (.sign sign) then .ok ((), s.tail) else fail wanted s

/-- Reads a reserved word if it comes next. -/
def acceptWord (word : Keyword) : TokenParser Bool := fun s =>
  if s.kind? = some (.keyword word) then .ok (true, s.tail) else .ok (false, s)

/-- Reads an identifier that has to come next. -/
def identifier : TokenParser String := fun s =>
  match s.kind? with
  | some (.identifier name) => .ok (name, s.tail)
  | _ => fail .identifier s

/-! ## Repetition -/

/-- The tokens that are left, as fuel. -/
def fuel : TokenParser (List Token) := fun s =>
  .ok (s.tokens, s)

/-- Repeats a step on a result until it says that it is done. -/
def repeatStep {α : Type} (step : α → TokenParser (Option α)) : List Token → α → TokenParser α
  | [], x => pure x
  | _ :: fuel, x => do
    match ← step x with
    | some y => repeatStep step fuel y
    | none => pure x

/-- Items with commas between them, at least one. -/
def separated {α : Type} (item : TokenParser α) : List Token → TokenParser (List α)
  | [] => do return [← item]
  | _ :: fuel => do
    let x ← item
    if ← accept .comma then return x :: (← separated item fuel) else return [x]

/-- Items with commas between them, or none if a closing sign comes next. -/
def separatedUnless {α : Type} (close : Sign) (item : TokenParser α) : TokenParser (List α) := do
  if ← check close then return [] else separated item (← fuel)

/-- Items up to a closing sign that is not read, with commas between them and perhaps one at the
end. -/
def listUntil {α : Type} (close : Sign) (item : TokenParser α) : List Token → TokenParser (List α)
  | [] => do if ← check close then return [] else return [← item]
  | _ :: fuel => do
    if ← check close then return []
    let x ← item
    if ← accept .comma then return x :: (← listUntil close item fuel) else return [x]

end TokenParser

end TraceTutor
