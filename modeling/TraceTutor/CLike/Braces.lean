import TraceTutor.CLike.LineReader

/-!
# Braces

The block structure of a line-stepped program is found by counting the braces of its lines. Braces
in literals and in comments do not count. `skipBody` goes forward from a loop head past its body,
and `findHead` goes back from a closing brace to the line that opened the block.
-/

namespace TraceTutor

namespace CLike

/-- The numbers of opening and closing braces in the rest of a line. -/
def countBracesFrom (state : QuoteState) : List Char → Nat × Nat
  | [] => (0, 0)
  | c :: rest =>
    if state = .outside ∧ c = '/' ∧ rest.head? = some '/' then (0, 0)
    else
      let (opens, closes) := countBracesFrom (state.advance c) rest
      if state = .outside ∧ c = '{' then (opens + 1, closes)
      else if state = .outside ∧ c = '}' then (opens, closes + 1)
      else (opens, closes)

/-- The numbers of opening and closing braces in a line. -/
def countBraces (line : List Char) : Nat × Nat :=
  countBracesFrom .outside line

/-- How much deeper a line leads. -/
def braceDelta (line : List Char) : Int :=
  let (opens, closes) := countBraces line
  opens - closes

/-- The number of lines up to the one that ends a block at a given depth. A block that is never
closed takes all lines. -/
def bodyLength (depth : Int) : List (List Char) → Nat
  | [] => 0
  | line :: rest =>
    if depth + braceDelta line ≤ 0 then 1 else bodyLength (depth + braceDelta line) rest + 1

/-- The position after the body of the loop whose head is at a position. -/
def skipBody (lines : List (List Char)) (head : Nat) : Nat :=
  head + 1 + bodyLength 1 (lines.drop (head + 1))

/-- The last of the first lines that opens a block, seen from a given depth inside. -/
def findHeadFrom (lines : List (List Char)) (depth : Int) : Nat → Option Nat
  | 0 => none
  | position + 1 =>
    let depth := depth - (lines[position]?.elim 0 braceDelta)
    if depth ≤ 0 then some position else findHeadFrom lines depth position

/-- The position of the line that opens the block which the line at a position closes. -/
def findHead (lines : List (List Char)) (close : Nat) : Option Nat :=
  findHeadFrom lines 1 (min close lines.length)

end CLike

end TraceTutor
