import TraceTutor.Value.Basic

/-!
# Documents

A `Document` is a JSON document as a tree. The fields of an object stand in the order in which they
are written, and a key may occur twice. `Document.compact` writes a document without spaces, and
`Document.pretty` one item a line.

`Document.ofValue` and `Document.toValue?` pass between documents and program values: reading a
value sorts the fields of its objects and keeps the last one of a key.
-/

namespace TraceTutor

/-- A JSON document. A part that is `unreadable` has the form of a document but denotes nothing: a
number beyond all doubles, a string with half a surrogate pair, or nesting that is too deep. -/
inductive Document where
  | null
  | bool (b : Bool)
  | number (n : Number)
  | string (s : String)
  | array (items : List Document)
  | object (fields : List (String × Document))
  | unreadable
deriving Inhabited, Repr

namespace Document

def int (n : Int) : Document :=
  .number (.int n)

def nat (n : Nat) : Document :=
  .number (.int n)

def strings (items : List String) : Document :=
  .array (items.map .string)

/-! ## Writing -/

/-- A character of a string: quotes, backslashes and controls are escaped. -/
def escapeChar (c : Char) : List Char :=
  if c == '"' then ['\\', '"']
  else if c == '\\' then ['\\', '\\']
  else if c == '\n' then ['\\', 'n']
  else if c == '\r' then ['\\', 'r']
  else if c == '\t' then ['\\', 't']
  else if c == '\x08' then ['\\', 'b']
  else if c == '\x0c' then ['\\', 'f']
  else if c.toNat < 0x20 then
    ['\\', 'u', '0', '0', Nat.digitChar (c.toNat / 16), Nat.digitChar (c.toNat % 16)]
  else [c]

/-- A string between quotes, in front of `rest`. -/
def writeString (s : String) (rest : List Char) : List Char :=
  '"' :: (s.toList.flatMap escapeChar ++ '"' :: rest)

def writeInt (n : Int) : List Char :=
  if n < 0 then '-' :: Nat.toDigits 10 n.natAbs else Nat.toDigits 10 n.natAbs

def writeNumber : Number → List Char
  | .int n => writeInt n
  | .float x => (NumeralStyle.document.write x).toList

mutual

/-- The compact text of a document, in front of `rest`. -/
def write : Document → List Char → List Char
  | null, rest => "null".toList ++ rest
  | bool b, rest => (if b then "true".toList else "false".toList) ++ rest
  | number n, rest => writeNumber n ++ rest
  | string s, rest => writeString s rest
  | array items, rest => '[' :: writeItems items (']' :: rest)
  | object fields, rest => '{' :: writeFields fields ('}' :: rest)
  | unreadable, rest => "null".toList ++ rest

/-- Items separated by commas. -/
def writeItems : List Document → List Char → List Char
  | [], rest => rest
  | item :: items, rest =>
    match items with
    | [] => write item rest
    | _ :: _ => write item (',' :: writeItems items rest)

/-- Fields separated by commas. -/
def writeFields : List (String × Document) → List Char → List Char
  | [], rest => rest
  | (key, item) :: fields, rest =>
    writeString key (':' :: match fields with
      | [] => write item rest
      | _ :: _ => write item (',' :: writeFields fields rest))

end

/-- The text without spaces. -/
def compact (d : Document) : String :=
  String.ofList (d.write [])

/-- A line feed and `depth` steps of two spaces, in front of `rest`. -/
def newline (depth : Nat) (rest : List Char) : List Char :=
  '\n' :: (List.replicate (2 * depth) ' ' ++ rest)

mutual

/-- The text with one item a line, in front of `rest`. Empty arrays and objects stay closed. -/
def writeIndented (depth : Nat) : Document → List Char → List Char
  | array [], rest => '[' :: ']' :: rest
  | array (item :: items), rest =>
    '[' :: indentItems (depth + 1) (item :: items) (newline depth (']' :: rest))
  | object [], rest => '{' :: '}' :: rest
  | object (field :: fields), rest =>
    '{' :: indentFields (depth + 1) (field :: fields) (newline depth ('}' :: rest))
  | d, rest => write d rest

def indentItems (depth : Nat) : List Document → List Char → List Char
  | [], rest => rest
  | item :: items, rest =>
    newline depth (writeIndented depth item (match items with
      | [] => rest
      | _ :: _ => ',' :: indentItems depth items rest))

def indentFields (depth : Nat) : List (String × Document) → List Char → List Char
  | [], rest => rest
  | (key, item) :: fields, rest =>
    newline depth (writeString key (':' :: ' ' :: writeIndented depth item (match fields with
      | [] => rest
      | _ :: _ => ',' :: indentFields depth fields rest)))

end

/-- The text with one item a line and two spaces a level. -/
def pretty (d : Document) : String :=
  String.ofList (d.writeIndented 0 [])

/-! ## Values -/

mutual

/-- The document of a value. -/
def ofValue : Value → Document
  | .null => null
  | .bool b => bool b
  | .number n => number n
  | .string s => string s
  | .array items => array (ofValues items)
  | .object fields => object (ofValueFields fields)

def ofValues : List Value → List Document
  | [] => []
  | v :: vs => ofValue v :: ofValues vs

def ofValueFields : List (String × Value) → List (String × Document)
  | [] => []
  | (key, v) :: fields => (key, ofValue v) :: ofValueFields fields

end

mutual

/-- The value of a document, if all of it is readable. -/
def toValue? : Document → Option Value
  | null => some .null
  | bool b => some (.bool b)
  | number n => some (.number n)
  | string s => some (.string s)
  | array items => (toValues? items).map .array
  | object fields => (toValueFields? fields).map .ofFields
  | unreadable => none

def toValues? : List Document → Option (List Value)
  | [] => some []
  | d :: ds =>
    match toValue? d, toValues? ds with
    | some v, some vs => some (v :: vs)
    | _, _ => none

def toValueFields? : List (String × Document) → Option (List (String × Value))
  | [] => some []
  | (key, d) :: fields =>
    match toValue? d, toValueFields? fields with
    | some v, some vs => some ((key, v) :: vs)
    | _, _ => none

end

/-! ## Records -/

/-- The parts of a record whose fields have the given names, each a list of spellings: an object
with every field at most once, other keys being skipped, or an array of the leading fields. -/
def record? (names : List (List String)) : Document → Option (List (Option Document))
  | object fields =>
    names.mapM fun spellings =>
      match fields.filter fun field => spellings.contains field.1 with
      | [] => some none
      | [field] => some (some field.2)
      | _ => none
  | array items =>
    if items.length ≤ names.length then
      some (items.map some ++ List.replicate (names.length - items.length) none)
    else none
  | _ => none

/-- A count: an integer that is not negative and fits sixty-four bits. -/
def toNat? : Document → Option Nat
  | number (.int n) => if 0 ≤ n && n.toNat < wordCount then some n.toNat else none
  | _ => none

def toString? : Document → Option String
  | string s => some s
  | _ => none

def toArray? : Document → Option (List Document)
  | array items => some items
  | _ => none

/-- A part that may be left out or `null`. -/
def toOption? {α : Type} (read : Document → Option α) : Document → Option (Option α)
  | null => some none
  | d => (read d).map some

end Document

end TraceTutor
