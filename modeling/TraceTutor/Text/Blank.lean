/-!
# Blanks, lines and parts

The white space of source text is that of the whole character set. `Text.trim` drops it at both
ends, `Text.lines` splits a text at its line ends, and `Text.occursIn` finds a part of a text.
-/

namespace TraceTutor.Text

/-! ## Blanks -/

/-- White space: tab to carriage return, space, and the spaces and separators beyond ASCII. -/
def isBlank (c : Char) : Bool :=
  let n := c.toNat
  (9 ≤ n && n ≤ 13) || n == 0x20 || n == 0x85 || n == 0xa0 || n == 0x1680 ||
    (0x2000 ≤ n && n ≤ 0x200a) || n == 0x2028 || n == 0x2029 || n == 0x202f || n == 0x205f ||
    n == 0x3000

def trimStart (text : List Char) : List Char :=
  text.dropWhile isBlank

def trimEnd (text : List Char) : List Char :=
  (text.reverse.dropWhile isBlank).reverse

def trim (text : List Char) : List Char :=
  trimEnd (trimStart text)

/-- Whether a text holds nothing but white space. -/
def isAllBlank (text : List Char) : Bool :=
  text.all isBlank

/-! ## Lines -/

/-- The lines of a text. A line ends with a line feed, and a carriage return before it belongs to
the line end. What follows the last line feed is a line unless it is empty. -/
def lines : List Char → List (List Char)
  | [] => []
  | '\n' :: rest => [] :: lines rest
  | '\r' :: '\n' :: rest => [] :: lines rest
  | c :: rest =>
    match lines rest with
    | [] => [[c]]
    | line :: more => (c :: line) :: more

@[simp] theorem lines_nil : lines [] = [] := rfl

theorem lines_ne_nil {text : List Char} (h : text ≠ []) : lines text ≠ [] := by
  unfold lines
  split
  · exact absurd rfl h
  · simp
  · simp
  · split <;> simp

/-! ## Parts -/

/-- Whether a text occurs within another. -/
def occursIn (part : List Char) : List Char → Bool
  | [] => part.isEmpty
  | c :: rest => part.isPrefixOf (c :: rest) || occursIn part rest

end TraceTutor.Text
