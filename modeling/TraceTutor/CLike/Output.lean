import TraceTutor.Bindings
import TraceTutor.CLike.LineReader
import TraceTutor.Value.Text

/-!
# Output statements

The text that an output statement writes. Its arguments are pieces with `<<` between them. A quoted
piece loses its quotes, an end of line is dropped, and the names of variables are replaced by their
values, in quoted pieces as well.
-/

namespace TraceTutor

namespace CLike

/-- Puts a character at the front of the first piece. -/
def consFirst (c : Char) : List (List Char) → List (List Char)
  | [] => [[c]]
  | piece :: more => (c :: piece) :: more

/-- The pieces between the signs `<<` that stand outside of literals. -/
def splitInsertionsFrom : QuoteState → List Char → List (List Char)
  | _, [] => [[]]
  | .outside, '<' :: '<' :: rest => [] :: splitInsertionsFrom .outside rest
  | state, c :: rest => consFirst c (splitInsertionsFrom (state.advance c) rest)

/-- The pieces of the arguments of an output statement. -/
def splitInsertions (arguments : List Char) : List (List Char) :=
  splitInsertionsFrom .outside arguments

/-- What stands between the quotes of a quoted piece; any other piece as it is. -/
def unquote (piece : List Char) : List Char :=
  if 2 ≤ piece.length && piece.head? == piece.getLast? &&
      (piece.head? == some '"' || piece.head? == some '\'') then (piece.drop 1).dropLast
  else piece

/-- A text with the names of variables replaced by their values, in at most `fuel` steps. -/
def substituteNamesWithin (bindings : Bindings) : (fuel : Nat) → List Char → List Char
  | 0, text => text
  | _ + 1, [] => []
  | fuel + 1, c :: rest =>
    if isWordPart c then
      let word := c :: rest.takeWhile isWordPart
      let value? := if isWordStart c then bindings.get? (String.ofList word) else none
      value?.elim word (·.display.toList) ++
        substituteNamesWithin bindings fuel (rest.dropWhile isWordPart)
    else c :: substituteNamesWithin bindings fuel rest

/-- A text with the names of variables replaced by their values. A name is a whole word that does
not start with a digit. -/
def substituteNames (bindings : Bindings) (text : List Char) : List Char :=
  substituteNamesWithin bindings text.length text

/-- The text of one piece, unless it is an end of line. -/
def pieceText? (bindings : Bindings) (piece : List Char) : Option (List Char) :=
  let piece := Text.trim piece
  if piece = "endl".toList ∨ piece = "std::endl".toList then none
  else some (Text.trim (substituteNames bindings (unquote piece)))

/-- The text that the arguments of an output statement write. Empty pieces are dropped, and the
others are joined with a space. -/
def renderOutput (bindings : Bindings) (arguments : List Char) : String :=
  let texts := (splitInsertions arguments).filterMap (pieceText? bindings)
  String.ofList ((texts.filter fun t => !t.isEmpty).intersperse [' ']).flatten

/-- A text up to its first semicolon outside of literals, and the rest from there. -/
def splitAtSemicolon (state : QuoteState) : List Char → List Char × List Char
  | [] => ([], [])
  | c :: rest =>
    if state = .outside ∧ c = ';' then ([], c :: rest)
    else
      let (before, after) := splitAtSemicolon (state.advance c) rest
      (c :: before, after)

namespace LineReader

/-- The arguments of an output statement, which may be written with its namespace. -/
def output : LineReader (List Char) := do
  ((do sign "std::"; word "cout") <|> word "cout")
  sign "<<"
  let arguments ← fun text => some (splitAtSemicolon .outside text)
  terminator
  return arguments

end LineReader

end CLike

end TraceTutor
