import TraceTutor.Number.Decimal

/-!
# Tokens

The words and signs of the script language. Every token carries the place where it starts, counted
in lines and characters from one.
-/

namespace TraceTutor

/-! ## Places -/

/-- A place in a source text. -/
structure Location where
  line : Nat
  column : Nat
deriving DecidableEq, Inhabited, Repr

namespace Location

def start : Location := ⟨1, 1⟩

/-- The place after one character. -/
def advance (l : Location) (c : Char) : Location :=
  if c = '\n' then ⟨l.line + 1, 1⟩ else ⟨l.line, l.column + 1⟩

/-- The place after a text. -/
def advanceAll (l : Location) (text : List Char) : Location :=
  text.foldl advance l

@[simp] theorem advanceAll_nil (l : Location) : l.advanceAll [] = l := rfl

@[simp] theorem advanceAll_cons (l : Location) (c : Char) (text : List Char) :
    l.advanceAll (c :: text) = (l.advance c).advanceAll text := rfl

theorem advanceAll_append (l : Location) (s t : List Char) :
    l.advanceAll (s ++ t) = (l.advanceAll s).advanceAll t :=
  List.foldl_append

end Location

/-! ## Words and signs -/

/-- The reserved words. -/
inductive Keyword where
  | letWord
  | constWord
  | varWord
  | functionWord
  | returnWord
  | ifWord
  | elseWord
  | whileWord
  | forWord
  | breakWord
  | continueWord
  | trueWord
  | falseWord
  | nullWord
  | undefinedWord
deriving DecidableEq, Repr

namespace Keyword

def text : Keyword → String
  | letWord => "let"
  | constWord => "const"
  | varWord => "var"
  | functionWord => "function"
  | returnWord => "return"
  | ifWord => "if"
  | elseWord => "else"
  | whileWord => "while"
  | forWord => "for"
  | breakWord => "break"
  | continueWord => "continue"
  | trueWord => "true"
  | falseWord => "false"
  | nullWord => "null"
  | undefinedWord => "undefined"

def all : List Keyword :=
  [letWord, constWord, varWord, functionWord, returnWord, ifWord, elseWord, whileWord, forWord,
    breakWord, continueWord, trueWord, falseWord, nullWord, undefinedWord]

/-- The reserved word that a word is. -/
def ofText? (word : String) : Option Keyword :=
  all.find? fun k => k.text = word

end Keyword

/-- The operators and the punctuation. -/
inductive Sign where
  | plus
  | minus
  | star
  | slash
  | percent
  | equal
  | notEqual
  | less
  | lessEqual
  | greater
  | greaterEqual
  | bothAnd
  | eitherOr
  | bang
  | assign
  | plusAssign
  | minusAssign
  | starAssign
  | slashAssign
  | percentAssign
  | increment
  | decrement
  | arrow
  | dot
  | question
  | colon
  | openParen
  | closeParen
  | openBrace
  | closeBrace
  | openBracket
  | closeBracket
  | semicolon
  | comma
deriving DecidableEq, Repr

namespace Sign

/-- The sign as it is written. The equality signs have a shorter spelling as well. -/
def text : Sign → String
  | plus => "+"
  | minus => "-"
  | star => "*"
  | slash => "/"
  | percent => "%"
  | equal => "==="
  | notEqual => "!=="
  | less => "<"
  | lessEqual => "<="
  | greater => ">"
  | greaterEqual => ">="
  | bothAnd => "&&"
  | eitherOr => "||"
  | bang => "!"
  | assign => "="
  | plusAssign => "+="
  | minusAssign => "-="
  | starAssign => "*="
  | slashAssign => "/="
  | percentAssign => "%="
  | increment => "++"
  | decrement => "--"
  | arrow => "=>"
  | dot => "."
  | question => "?"
  | colon => ":"
  | openParen => "("
  | closeParen => ")"
  | openBrace => "\x7b"
  | closeBrace => "\x7d"
  | openBracket => "["
  | closeBracket => "]"
  | semicolon => ";"
  | comma => ","

end Sign

/-! ## Tokens -/

/-- What a token is. -/
inductive TokenKind where
  | number (x : Binary64)
  | string (s : String)
  | identifier (name : String)
  | keyword (k : Keyword)
  | sign (s : Sign)
deriving DecidableEq, Repr

structure Token where
  kind : TokenKind
  location : Location
deriving DecidableEq, Repr

/-- A token in words. -/
def TokenKind.describe : TokenKind → String
  | number x => "number " ++ NumeralStyle.source.writeAny x
  | string s => "string \"" ++ s ++ "\""
  | identifier name => "identifier '" ++ name ++ "'"
  | keyword k => "'" ++ k.text ++ "'"
  | sign s => "'" ++ s.text ++ "'"

/-- What stands at a place, in words: a token, or the end of the text. -/
def describeFound : Option TokenKind → String
  | some kind => kind.describe
  | none => "end of input"

/-! ## Faults -/

/-- What the parser wanted where it found something else. -/
inductive Expectation where
  | identifier
  | propertyName
  | expression
  | endOfExpression
  | plainTarget
  | noArrow
  | shallowNesting
  | openParen
  | closeParen
  | closeArguments
  | closeIndex
  | closeArray
  | closeObject
  | ternaryColon
  | closeBlock
  | forOpen
  | forInitializerEnd
  | forConditionEnd
  | forClose
  | parametersOpen
  | parametersClose
  | functionBody
deriving DecidableEq, Repr

def Expectation.text : Expectation → String
  | identifier => "Expected identifier"
  | propertyName => "Expected property name"
  | expression => "Unexpected token in expression"
  | endOfExpression => "Unexpected trailing input"
  | plainTarget => "Only plain variables can be assigned"
  | noArrow => "Arrow functions are not supported"
  | shallowNesting => "Nesting too deep"
  | openParen => "Expected '('"
  | closeParen => "Expected ')'"
  | closeArguments => "Expected ')' after arguments"
  | closeIndex => "Expected ']' after index"
  | closeArray => "Expected ']' to close array"
  | closeObject => "Expected '\x7d' to close object"
  | ternaryColon => "Expected ':' in ternary expression"
  | closeBlock => "Expected '\x7d' before end of input"
  | forOpen => "Expected '(' after 'for'"
  | forInitializerEnd => "Expected ';' after for initializer"
  | forConditionEnd => "Expected ';' after for condition"
  | forClose => "Expected ')' after for clauses"
  | parametersOpen => "Expected '(' after function name"
  | parametersClose => "Expected ')' after parameters"
  | functionBody => "Expected '\x7b' before function body"

/-- Why a text is no program. -/
inductive SyntaxCause where
  | unexpectedCharacter (c : Char)
  | unterminatedString
  | endInString
  | unterminatedComment
  | invalidNumber (digits : String)
  | unexpected (wanted : Expectation) (found : Option TokenKind)
deriving DecidableEq, Repr

def SyntaxCause.text : SyntaxCause → String
  | unexpectedCharacter c => "Unexpected character: '" ++ String.singleton c ++ "'"
  | unterminatedString => "Unterminated string literal"
  | endInString => "Unexpected end of input in string literal"
  | unterminatedComment => "Unterminated block comment"
  | invalidNumber digits => "Invalid number literal: " ++ digits
  | unexpected wanted found => wanted.text ++ ", found " ++ describeFound found

/-- A text that is no program, and where that shows. -/
structure SyntaxFault where
  cause : SyntaxCause
  location : Location
deriving DecidableEq, Repr

namespace SyntaxFault

/-- The message about a text that does not parse. -/
def message (f : SyntaxFault) : String :=
  s!"SyntaxError at line {f.location.line}, column {f.location.column}: {f.cause.text}"

/-- The message about a text that does not split into tokens, where nothing is parsed. -/
def tokenMessage (f : SyntaxFault) : String :=
  s!"Lexer error at line {f.location.line}, column {f.location.column}: {f.cause.text}"

end SyntaxFault

end TraceTutor
