import TraceTutor.Text.Letter
import TraceTutor.Viewer.Theme

/-!
# Highlighting

`highlight` splits a source line into styled texts: comments, string literals with any of three
quotes, words and single signs. It goes through the line once, and what is pending tells which kind
of text the characters so far belong to.
-/

namespace TraceTutor

namespace Viewer

/-! ## Styles of words -/

def typeWords : List String :=
  ["int", "long", "short", "char", "void", "bool", "double"]

def keywords : List String :=
  ["let", "const", "var", "function", "return", "if", "else", "while", "for", "break", "continue",
    "using", "namespace", "include"]

def constantWords : List String :=
  ["true", "false", "null", "undefined", "endl"]

/-- The style of a word. One that a parenthesis follows is a function. -/
def wordStyle (word : String) (isFunction : Bool) : Style :=
  if typeWords.contains word then .ink Theme.typeName
  else if keywords.contains word then (Style.ink Theme.keyword).asBold
  else if constantWords.contains word || word.toList.all Char.isDigit then .ink Theme.number
  else if isFunction then .ink Theme.function
  else .ink Theme.text

/-- The style of a character that belongs to no word. -/
def signStyle (c : Char) : Style :=
  if ['{', '}', '(', ')', '[', ']'].contains c then .ink Theme.primary else .ink Theme.text

/-! ## Lines -/

def isWordCharacter (c : Char) : Bool :=
  Text.isLetterOrNumber c || c == '_' || c == '$'

/-- The text that is not yet complete, the latest character first. -/
inductive Pending where
  | word (text : List Char)
  | literal (quote : Char) (text : List Char)
  /-- A literal after a backslash. -/
  | escape (quote : Char) (text : List Char)
deriving Repr

namespace Pending

/-- What is pending, as a styled text. -/
def complete (p : Pending) (isFunction : Bool) : List Span :=
  match p with
  | word [] => []
  | word text =>
    let word := String.ofList text.reverse
    [⟨word, wordStyle word isFunction⟩]
  | literal _ text => [⟨String.ofList text.reverse, .ink Theme.string⟩]
  | escape _ text => [⟨String.ofList text.reverse, .ink Theme.string⟩]

/-- The styled texts of what is pending and of the rest of a line. -/
def highlight (p : Pending) : List Char → List Span
  | [] => p.complete false
  | c :: rest =>
    match p with
    | escape quote text => highlight (literal quote (c :: text)) rest
    | literal quote text =>
      if c = quote then (literal quote (c :: text)).complete false ++ highlight (word []) rest
      else if c = '\\' then highlight (escape quote (c :: text)) rest
      else highlight (literal quote (c :: text)) rest
    | word text =>
      if c = '/' ∧ rest.head? = some '/' then
        (word text).complete false ++ [⟨String.ofList (c :: rest), .ink Theme.comment⟩]
      else if c = '"' ∨ c = '\'' ∨ c = '`' then
        (word text).complete false ++ highlight (literal c [c]) rest
      else if isWordCharacter c then highlight (word (c :: text)) rest
      else
        (word text).complete (c = '(') ++ ⟨String.singleton c, signStyle c⟩ ::
          highlight (word []) rest

end Pending

/-- The styled texts of a source line. -/
def highlight (line : List Char) : List Span :=
  (Pending.word []).highlight line

end Viewer

end TraceTutor
