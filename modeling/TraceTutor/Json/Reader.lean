import TraceTutor.Json.Document

/-!
# Reading documents

`Document.read?` reads the text of one JSON document. Text that breaks the grammar is refused as a
whole; a part that fits the grammar but denotes nothing becomes `Document.unreadable`, so that a
part which nobody asks for does no harm.

A numeral without fraction and exponent is an integer if it fits sixty-four bits. Any other one is
a double: as many digits as fit an unsigned word are read exactly, the rest only count as places,
and the word is then scaled by a power of ten, which rounds a second time.
-/

namespace TraceTutor.Document

/-! ## Numbers -/

/-- Appends digits to a number while it stays a word. Also gives how many digits were left over. -/
def appendDigits (n : Nat) : List Char → Nat × Nat
  | [] => (n, 0)
  | c :: rest =>
    let next := 10 * n + (c.toNat - '0'.toNat)
    if next < wordCount then appendDigits next rest else (n, (c :: rest).length)

/-- The power of ten that moves the point by some places. -/
def powerOfTen (places : Nat) : Nat :=
  Nat.pow 10 places

/-- Scales a double by a power of ten in steps of at most `308` places. Overflow has no result. -/
def scale? (x : Binary64) (exponent : Int) : Nat → Option Binary64
  | 0 => some x
  | steps + 1 =>
    if exponent.natAbs ≤ 308 then
      let power := Binary64.ofInt (powerOfTen exponent.natAbs)
      if exponent < 0 then some (x.div power)
      else match x.mul power with
        | .infinite _ => none
        | y => some y
    else if x.same .zero then some x
    else if 0 < exponent then none
    else scale? (x.div (.ofInt (powerOfTen 308))) (exponent + 308) steps

/-- A numeral as it is written. -/
structure Numeral where
  negative : Bool
  whole : List Char
  fraction : List Char
  /-- The sign and digits of the exponent, where there is one. -/
  exponent : Option (Bool × List Char)
deriving Repr

namespace Numeral

/-- The double of a numeral that is no integer. -/
def toDouble? (x : Numeral) : Option Binary64 :=
  let (wholePart, skipped) := appendDigits 0 x.whole
  let (significand, unread) := appendDigits wholePart x.fraction
  let places : Int := (skipped : Int) - (x.fraction.length - unread : Nat)
  let scaled := match x.exponent with
    | none => scale? (.ofInt significand) places 4
    | some (below, digits) =>
      let e := Decimal.ofDigits digits
      if e < 0x80000000 then
        scale? (.ofInt significand) (if below then places - e else places + e) 4
      else if significand = 0 || below then some .zero
      else none
  if x.negative then scaled.map .neg else scaled

/-- The number that a numeral denotes. A negative zero is a double. -/
def toDocument (x : Numeral) : Document :=
  let n : Int := Decimal.ofDigits x.whole
  let isInteger := x.fraction.isEmpty && x.exponent.isNone
  if isInteger && !x.negative && n < wordCount then int n
  else if isInteger && x.negative && 0 < n && isWord (-n) then int (-n)
  else match x.toDouble? with
    | some (.finite y) => number (.float y)
    | _ => unreadable

end Numeral

/-- The digits at the start of a text, at least one. -/
def readDigits? (text : List Char) : Option (List Char × List Char) :=
  let digits := text.takeWhile Char.isDigit
  if digits.isEmpty then none else some (digits, text.dropWhile Char.isDigit)

/-- The fraction at the start of a text, empty if there is no point. -/
def readFraction? : List Char → Option (List Char × List Char)
  | '.' :: rest => readDigits? rest
  | text => some ([], text)

/-- The exponent at the start of a text, if there is one. -/
def readExponent? : List Char → Option (Option (Bool × List Char) × List Char)
  | e :: rest =>
    if e == 'e' || e == 'E' then
      let (below, text) := Binary64.splitSign rest
      (readDigits? text).map fun (digits, rest) => (some (below, digits), rest)
    else some (none, e :: rest)
  | [] => some (none, [])

/-- A numeral at the start of a text. A zero is followed by no other digit. -/
def readNumeral? (text : List Char) : Option (Numeral × List Char) := do
  let (negative, text) := match text with
    | '-' :: rest => (true, rest)
    | text => (false, text)
  let (whole, text) ← readDigits? text
  if whole.head? = some '0' && whole.length ≠ 1 then none
  let (fraction, text) ← readFraction? text
  let (exponent, text) ← readExponent? text
  return (⟨negative, whole, fraction, exponent⟩, text)

/-! ## Strings -/

/-- A piece of a string: a character, or a unit of sixteen bits written by its number. -/
inductive StringPiece where
  | char (c : Char)
  | unit (n : Nat)
deriving DecidableEq, Repr

def hexDigit? (c : Char) : Option Nat :=
  if c.isDigit then some (c.toNat - '0'.toNat)
  else if 'a' ≤ c && c ≤ 'f' then some (c.toNat - 'a'.toNat + 10)
  else if 'A' ≤ c && c ≤ 'F' then some (c.toNat - 'A'.toNat + 10)
  else none

/-- The character that follows a backslash stands for. -/
def unescape? (c : Char) : Option Char :=
  if c == '"' || c == '\\' || c == '/' then some c
  else if c == 'b' then some '\x08'
  else if c == 'f' then some '\x0c'
  else if c == 'n' then some '\n'
  else if c == 'r' then some '\r'
  else if c == 't' then some '\t'
  else none

/-- The pieces of a string after its opening quote, and the text after the closing one. -/
def readPieces? : List Char → Option (List StringPiece × List Char)
  | [] => none
  | '"' :: rest => some ([], rest)
  | '\\' :: 'u' :: a :: b :: c :: d :: rest => do
    let n := ((← hexDigit? a) * 16 + (← hexDigit? b)) * 256 +
      (← hexDigit? c) * 16 + (← hexDigit? d)
    let (pieces, rest) ← readPieces? rest
    return (.unit n :: pieces, rest)
  | '\\' :: c :: rest => do
    let c ← unescape? c
    let (pieces, rest) ← readPieces? rest
    return (.char c :: pieces, rest)
  | c :: rest => do
    if c.toNat < 0x20 || c == '\\' then none
    let (pieces, rest) ← readPieces? rest
    return (.char c :: pieces, rest)

/-- Joins pieces to characters. Units beyond the basic plane come in pairs, a high one and a low
one; half a pair is no character. -/
def joinPieces? : List StringPiece → Option (List Char)
  | [] => some []
  | .char c :: rest => (joinPieces? rest).map (c :: ·)
  | .unit high :: .unit low :: rest =>
    if 0xd800 ≤ high && high < 0xdc00 then
      if 0xdc00 ≤ low && low < 0xe000 then
        let n := 0x10000 + (high - 0xd800) * 0x400 + (low - 0xdc00)
        (joinPieces? rest).map (Char.ofNat n :: ·)
      else none
    else if 0xdc00 ≤ high && high < 0xe000 then none
    else (joinPieces? (.unit low :: rest)).map (Char.ofNat high :: ·)
  | .unit n :: rest =>
    if 0xd800 ≤ n && n < 0xe000 then none
    else (joinPieces? rest).map (Char.ofNat n :: ·)

/-! ## Documents -/

/-- The space between the parts of a document. -/
def isSpace (c : Char) : Bool :=
  c == ' ' || c == '\n' || c == '\t' || c == '\r'

def skipSpace (text : List Char) : List Char :=
  text.dropWhile isSpace

/-- How many arrays and objects may lie around each other. -/
def maxDepth : Nat := 127

/-- Replaces what is nested too deep, or has an unreadable key. -/
def guardDepth (depth : Nat) (d : Document) : Document :=
  if depth < maxDepth then d else unreadable

mutual

/-- The document at the start of a text, inside `depth` arrays and objects. Every call takes one
unit of `fuel`; twice the length of the text suffices. -/
def readValue? (fuel depth : Nat) (text : List Char) : Option (Document × List Char) :=
  match fuel with
  | 0 => none
  | fuel + 1 =>
    match skipSpace text with
    | 'n' :: 'u' :: 'l' :: 'l' :: rest => some (null, rest)
    | 't' :: 'r' :: 'u' :: 'e' :: rest => some (bool true, rest)
    | 'f' :: 'a' :: 'l' :: 's' :: 'e' :: rest => some (bool false, rest)
    | '"' :: rest => do
      let (pieces, rest) ← readPieces? rest
      match joinPieces? pieces with
      | some s => return (string (String.ofList s), rest)
      | none => return (unreadable, rest)
    | '[' :: rest =>
      match skipSpace rest with
      | ']' :: rest => some (guardDepth depth (array []), rest)
      | rest => do
        let (items, rest) ← readItems? fuel (depth + 1) rest
        return (guardDepth depth (array items), rest)
    | '{' :: rest =>
      match skipSpace rest with
      | '}' :: rest => some (guardDepth depth (object []), rest)
      | rest => do
        let (fields, rest) ← readFields? fuel (depth + 1) rest
        match fields with
        | some fields => return (guardDepth depth (object fields), rest)
        | none => return (unreadable, rest)
    | text => do
      let (numeral, rest) ← readNumeral? text
      return (numeral.toDocument, rest)

/-- The items of an array up to its end. -/
def readItems? (fuel depth : Nat) (text : List Char) : Option (List Document × List Char) :=
  match fuel with
  | 0 => none
  | fuel + 1 => do
    let (item, rest) ← readValue? fuel depth text
    match skipSpace rest with
    | ']' :: rest => return ([item], rest)
    | ',' :: rest => do
      let (items, rest) ← readItems? fuel depth rest
      return (item :: items, rest)
    | _ => none

/-- The fields of an object up to its end, or `none` among them if a key is unreadable. -/
def readFields? (fuel depth : Nat) (text : List Char) :
    Option (Option (List (String × Document)) × List Char) :=
  match fuel with
  | 0 => none
  | fuel + 1 =>
    match skipSpace text with
    | '"' :: rest => do
      let (pieces, rest) ← readPieces? rest
      match skipSpace rest with
      | ':' :: rest => do
        let (item, rest) ← readValue? fuel depth rest
        let field := (joinPieces? pieces).map fun key => (String.ofList key, item)
        match skipSpace rest with
        | '}' :: rest => return (field.map ([·]), rest)
        | ',' :: rest => do
          let (fields, rest) ← readFields? fuel depth rest
          return (do return (← field) :: (← fields), rest)
        | _ => none
      | _ => none
    | _ => none

end

/-- The document that a text holds, with nothing but space around it. -/
def read? (text : String) : Option Document := do
  let chars := text.toList
  let (d, rest) ← readValue? (2 * chars.length + 2) 0 chars
  if (skipSpace rest).isEmpty then some d else none

/-- The value that a text holds. -/
def readToValue? (text : String) : Option Value := do
  (← read? text).toValue?

end TraceTutor.Document
