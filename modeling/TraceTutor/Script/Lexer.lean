import TraceTutor.Script.Token
import TraceTutor.Text.Blank

/-!
# From text to tokens

`tokenize` splits a source text into tokens. Between tokens lie white space, comments to the end of
a line and comments between `/*` and `*/`. A scanner of one token returns what it read: the token,
its text and the rest, so that places are counted over exactly the text that was consumed.
-/

namespace TraceTutor

namespace Lexer

/-- One token read from a text, with the characters that spell it and those that follow. -/
structure Scanned where
  kind : TokenKind
  text : List Char
  rest : List Char

/-! ## Words and numbers -/

def isWordStart (c : Char) : Bool :=
  c.isAlpha || c == '_' || c == '$'

def isWordPart (c : Char) : Bool :=
  c.isAlphanum || c == '_' || c == '$'

/-- The word at the start of a text. -/
def scanWord (text : List Char) : Scanned :=
  let word := text.takeWhile isWordPart
  let name := String.ofList word
  let kind := match Keyword.ofText? name with
    | some k => .keyword k
    | none => .identifier name
  ⟨kind, word, text.dropWhile isWordPart⟩

/-- The characters of a number and the rest: digits, underscores, and points before a digit. -/
def splitNumber : List Char → List Char × List Char
  | [] => ([], [])
  | c :: rest =>
    if c.isDigit || c == '_' || (c == '.' && rest.head?.any Char.isDigit) then
      let (number, rest) := splitNumber rest
      (c :: number, rest)
    else ([], c :: rest)

/-- The number at the start of a text. Underscores do not count; a second point is an error. -/
def scanNumber (text : List Char) : Except SyntaxCause Scanned :=
  let (number, rest) := splitNumber text
  let digits := number.filter (· != '_')
  match Binary64.ofText? digits with
  | some x => .ok ⟨.number x, number, rest⟩
  | none => .error (.invalidNumber (String.ofList digits))

/-! ## Strings -/

/-- The character that an escape stands for: control characters have letters, and any other
character stands for itself. -/
def unescape (c : Char) : Char :=
  if c = 'n' then '\n'
  else if c = 't' then '\t'
  else if c = 'r' then '\r'
  else if c = '0' then '\x00'
  else c

/-- The rest of a string after its opening quote: the characters that it holds, its text, and what
follows. A line feed ends it only after a backslash. -/
def scanString (quote : Char) : List Char → Except SyntaxCause (List Char × List Char × List Char)
  | [] => .error .unterminatedString
  | '\\' :: [] => .error .endInString
  | '\\' :: c :: rest => do
    let (held, text, rest) ← scanString quote rest
    return (unescape c :: held, '\\' :: c :: text, rest)
  | c :: rest =>
    if c = quote then .ok ([], [c], rest)
    else if c = '\n' then .error .unterminatedString
    else do
      let (held, text, rest) ← scanString quote rest
      return (c :: held, c :: text, rest)

/-! ## Signs -/

/-- The sign at the start of a text, the longest one that fits. -/
def scanSign? : List Char → Option (Sign × List Char × List Char)
  | '+' :: '+' :: rest => some (.increment, ['+', '+'], rest)
  | '+' :: '=' :: rest => some (.plusAssign, ['+', '='], rest)
  | '+' :: rest => some (.plus, ['+'], rest)
  | '-' :: '-' :: rest => some (.decrement, ['-', '-'], rest)
  | '-' :: '=' :: rest => some (.minusAssign, ['-', '='], rest)
  | '-' :: rest => some (.minus, ['-'], rest)
  | '*' :: '=' :: rest => some (.starAssign, ['*', '='], rest)
  | '*' :: rest => some (.star, ['*'], rest)
  | '/' :: '=' :: rest => some (.slashAssign, ['/', '='], rest)
  | '/' :: rest => some (.slash, ['/'], rest)
  | '%' :: '=' :: rest => some (.percentAssign, ['%', '='], rest)
  | '%' :: rest => some (.percent, ['%'], rest)
  | '=' :: '=' :: '=' :: rest => some (.equal, ['=', '=', '='], rest)
  | '=' :: '=' :: rest => some (.equal, ['=', '='], rest)
  | '=' :: '>' :: rest => some (.arrow, ['=', '>'], rest)
  | '=' :: rest => some (.assign, ['='], rest)
  | '!' :: '=' :: '=' :: rest => some (.notEqual, ['!', '=', '='], rest)
  | '!' :: '=' :: rest => some (.notEqual, ['!', '='], rest)
  | '!' :: rest => some (.bang, ['!'], rest)
  | '<' :: '=' :: rest => some (.lessEqual, ['<', '='], rest)
  | '<' :: rest => some (.less, ['<'], rest)
  | '>' :: '=' :: rest => some (.greaterEqual, ['>', '='], rest)
  | '>' :: rest => some (.greater, ['>'], rest)
  | '&' :: '&' :: rest => some (.bothAnd, ['&', '&'], rest)
  | '|' :: '|' :: rest => some (.eitherOr, ['|', '|'], rest)
  | '.' :: rest => some (.dot, ['.'], rest)
  | '?' :: rest => some (.question, ['?'], rest)
  | ':' :: rest => some (.colon, [':'], rest)
  | '(' :: rest => some (.openParen, ['('], rest)
  | ')' :: rest => some (.closeParen, [')'], rest)
  | '{' :: rest => some (.openBrace, ['{'], rest)
  | '}' :: rest => some (.closeBrace, ['}'], rest)
  | '[' :: rest => some (.openBracket, ['['], rest)
  | ']' :: rest => some (.closeBracket, [']'], rest)
  | ';' :: rest => some (.semicolon, [';'], rest)
  | ',' :: rest => some (.comma, [','], rest)
  | _ => none

/-! ## Tokens -/

/-- The token that starts with the character `c`. -/
def scan (c : Char) (rest : List Char) : Except SyntaxCause Scanned :=
  if c = '"' || c = '\'' then do
    let (held, text, rest) ← scanString c rest
    return ⟨.string (String.ofList held), c :: text, rest⟩
  else if c.isDigit then scanNumber (c :: rest)
  else if isWordStart c then .ok (scanWord (c :: rest))
  else match scanSign? (c :: rest) with
    | some (sign, text, rest) => .ok ⟨.sign sign, text, rest⟩
    | none => .error (.unexpectedCharacter c)

/-- What a gap between tokens is passing through. -/
inductive GapState where
  | open
  | lineComment
  | blockComment (start : Location)

/-- Skips white space and comments, counting places. A comment that is never closed is a fault at
its start. -/
def skipGap (state : GapState) (l : Location) :
    List Char → Except SyntaxFault (Location × List Char)
  | [] =>
    match state with
    | .blockComment start => .error ⟨.unterminatedComment, start⟩
    | _ => .ok (l, [])
  | c :: rest =>
    match state, c, rest with
    | .lineComment, c, rest =>
      skipGap (if c = '\n' then .open else .lineComment) (l.advance c) rest
    | .blockComment _, '*', '/' :: rest => skipGap .open ((l.advance '*').advance '/') rest
    | .blockComment start, c, rest => skipGap (.blockComment start) (l.advance c) rest
    | .open, '/', '/' :: rest => skipGap .lineComment ((l.advance '/').advance '/') rest
    | .open, '/', '*' :: rest => skipGap (.blockComment l) ((l.advance '/').advance '*') rest
    | .open, c, rest =>
      if Text.isBlank c then skipGap .open (l.advance c) rest else .ok (l, c :: rest)

/-- Where the fault of a token that starts at `l` shows: at its start, or at the end of the text if
that is what came unexpected. -/
def faultLocation (cause : SyntaxCause) (l : Location) (text : List Char) : Location :=
  match cause with
  | .endInString => l.advanceAll text
  | _ => l

/-- The tokens of a text that starts at `l`, and the place of its end. Every token takes one unit of
`fuel`; the length of the text suffices. -/
def tokensFrom (fuel : Nat) (l : Location) (text : List Char) :
    Except SyntaxFault (List Token × Location) := do
  match ← skipGap .open l text with
  | (l, []) => return ([], l)
  | (l, c :: rest) =>
    match fuel with
    | 0 => return ([], l)
    | fuel + 1 =>
      match scan c rest with
      | .error cause => throw ⟨cause, faultLocation cause l (c :: rest)⟩
      | .ok scanned =>
        let (tokens, stop) ← tokensFrom fuel (l.advanceAll scanned.text) scanned.rest
        return (⟨scanned.kind, l⟩ :: tokens, stop)

end Lexer

/-- The tokens of a text that are still to be read, and the place of its end. -/
structure TokenStream where
  tokens : List Token
  stop : Location
deriving DecidableEq, Repr

/-- The tokens of a source text. -/
def tokenize (source : String) : Except SyntaxFault TokenStream := do
  let text := source.toList
  let (tokens, stop) ← Lexer.tokensFrom text.length .start text
  return ⟨tokens, stop⟩

end TraceTutor
