import TraceTutor.Text.Blank
import TraceTutor.Value.Basic

/-!
# Reading lines

Readers for the parts of one line of a line-stepped program. Each skips white space first, so that
the spacing of a line does not matter, and returns what it read and the rest of the line.

`QuoteState` follows a line through its string and character literals; every scan that has to leave
them alone goes by it.
-/

namespace TraceTutor

namespace CLike

/-- Reads from the front of a line. -/
abbrev LineReader (α : Type) := StateT (List Char) Option α

/-! ## Words -/

def isWordStart (c : Char) : Bool :=
  c.isAlpha || c == '_'

def isWordPart (c : Char) : Bool :=
  c.isAlphanum || c == '_'

namespace LineReader

/-- A text that has to come first. -/
def exactly (wanted : List Char) : LineReader Unit := fun text =>
  if wanted.isPrefixOf text then some ((), text.drop wanted.length) else none

def skipBlanks : LineReader Unit := fun text =>
  some ((), Text.trimStart text)

/-- At least one white space character. -/
def blanks : LineReader Unit := fun text =>
  if text.head?.any Text.isBlank then skipBlanks text else none

/-- A sign after white space. -/
def sign (wanted : String) : LineReader Unit := do
  skipBlanks
  exactly wanted.toList

/-- A name. -/
def identifier : LineReader String := do
  skipBlanks
  fun text =>
    if text.head?.any isWordStart then
      some (String.ofList (text.takeWhile isWordPart), text.dropWhile isWordPart)
    else none

/-- A reserved word, which no longer word may start with. -/
def word (wanted : String) : LineReader Unit := do
  sign wanted
  fun text => if text.head?.any isWordPart then none else some ((), text)

/-- The word that declares an integer, with the white space after it. -/
def declarationWord : LineReader Unit := do
  (word "int" <|> word "long" <|> word "short")
  blanks

/-! ## Numbers -/

/-- The digits at the front. -/
def digits : LineReader (List Char) := fun text =>
  some (text.takeWhile Char.isDigit, text.dropWhile Char.isDigit)

/-- Whether a minus comes first, which is read. -/
def minus : LineReader Bool := fun text =>
  match text with
  | '-' :: rest => some (true, rest)
  | _ => some (false, text)

/-- A signed word in decimal digits, which no name and no fraction may follow. -/
def integer : LineReader Int := do
  skipBlanks
  let negative ← minus
  let digits ← digits
  let n : Int := if negative then -Decimal.ofDigits digits else Decimal.ofDigits digits
  fun text =>
    if digits.isEmpty || text.head?.any (fun c => isWordPart c || c == '.') || !isWord n then none
    else some (n, text)

/-! ## Ends -/

/-- Nothing but white space, or a comment. -/
def ending : LineReader Unit := do
  skipBlanks
  fun text => if text.isEmpty || ['/', '/'].isPrefixOf text then some ((), text) else none

/-- The semicolon that ends a statement, and the end of the line. -/
def terminator : LineReader Unit := do
  sign ";"
  ending

/-- What a reader reads from the front of a line. -/
def read? {α : Type} (reader : LineReader α) (line : List Char) : Option α :=
  (reader line).map Prod.fst

end LineReader

/-! ## Quotes -/

/-- Where a scan stands with respect to string and character literals. -/
inductive QuoteState where
  | outside
  /-- In a literal that the quote closes. -/
  | inside (quote : Char)
  /-- After a backslash in a literal. -/
  | escaped (quote : Char)
deriving DecidableEq, Repr

/-- The state after one more character. -/
def QuoteState.advance (c : Char) : QuoteState → QuoteState
  | outside => if c = '"' ∨ c = '\'' then inside c else outside
  | inside quote => if c = '\\' then escaped quote else if c = quote then outside else inside quote
  | escaped quote => inside quote

end CLike

end TraceTutor
