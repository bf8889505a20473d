import TraceTutor.Viewer.Theme

/-!
# Panes

A pane is a border with a title around its content. `Pane.draw` gives it the exact size of its
place, however small that is. A list of items is scrolled by an offset, the number of items that are
hidden above; `Offset.clamp` keeps the last items in view.
-/

namespace TraceTutor

namespace Viewer

/-! ## Borders -/

/-- The content of a pane on its own background. -/
structure Content where
  background : Style
  rows : Picture

namespace Pane

/-- A row of a border: a corner, a line and another corner. A row of one cell shows the first
corner. -/
def edge (style : Style) (width : Nat) (first last : Char) (inner : Row) : Row :=
  let line := inner.take (width - 2) ++ List.replicate (width - 2 - inner.length) ⟨'─', style⟩
  (Cell.mk first style :: line ++ [Cell.mk last style]).take width

/-- A row of content between two sides. -/
def side (style : Style) (width : Nat) (inner : Row) : Row :=
  (Cell.mk '│' style :: inner ++ [Cell.mk '│' style]).take width

/-- A pane of a given size. A title that is too long is cut. -/
def draw (focused : Bool) (title : String) (width height : Nat) (content : Content) : Picture :=
  let style := Theme.borderStyle focused
  let rows := Picture.fit content.background (width - 2) (height - 2) content.rows
  let titleRow := Row.ofSpans style [⟨title, .plain⟩]
  (edge style width '┌' '┐' titleRow :: rows.map (side style width) ++
    [edge style width '└' '┘' []]).take height

/-- The number of rows that a pane shows. For scrolling it counts as one at least. -/
def visibleRows (height : Nat) : Nat :=
  max (height - 2) 1

end Pane

/-! ## Offsets -/

/-- How many items are hidden above, in sixty-four bits. The greatest offset stands for the end of
the list, wherever that is. -/
abbrev Offset := Nat

namespace Offset

def atEnd : Offset := 0xffffffffffffffff

def up (o : Offset) : Offset := o - 1

def down (o : Offset) : Offset := min (o + 1) atEnd

/-- The offset that shows as many items as fit. -/
def clamp (o : Offset) (items visible : Nat) : Offset :=
  min o (items - visible)

theorem clamp_le (o : Offset) (items visible : Nat) : clamp o items visible ≤ items - visible :=
  Nat.min_le_right ..

end Offset

/-! ## Items -/

/-- An item of a list: rows in a common style. -/
structure Item where
  style : Style
  rows : List (List Span)

namespace Item

def ofSpans (spans : List Span) : Item := ⟨.plain, [spans]⟩

/-- The leading items that fit into a number of rows as a whole. -/
def fitting (height : Nat) : List Item → List Item
  | [] => []
  | item :: rest =>
    if item.rows.length ≤ height then item :: fitting (height - item.rows.length) rest else []

/-- The rows of an item at a given width, in its style from end to end. -/
def draw (width : Nat) (item : Item) : Picture :=
  item.rows.map fun spans => Row.fit item.style width (Row.ofSpans item.style spans)

end Item

/-- The rows of a list from an offset on, in a place of a given size. -/
def drawItems (width height : Nat) (offset : Offset) (items : List Item) : Picture :=
  if width = 0 then []
  else (Item.fitting height ((items.drop offset).take (max height 1))).flatMap (Item.draw width)

/-! ## Wrapping -/

/-- A text cut into pieces of a given width, of which the last may be shorter. -/
def chunks (width : Nat) : (fuel : Nat) → List Char → List (List Char)
  | 0, text => [text]
  | fuel + 1, text =>
    if text.length ≤ width then [text]
    else text.take width :: chunks width fuel (text.drop width)

/-- Words set in rows of a given width, after a row that is begun. A word that is too long for any
row starts a new one and goes on in the next. -/
def wrapFrom (width : Nat) (row : List Char) : List (List Char) → List (List Char)
  | [] => [row]
  | word :: rest =>
    if row.isEmpty then
      let pieces := chunks width word.length word
      pieces.dropLast ++ wrapFrom width (pieces.getLast?.getD []) rest
    else if row.length + 1 + word.length ≤ width then
      wrapFrom width (row ++ ' ' :: word) rest
    else
      let pieces := chunks width word.length word
      row :: pieces.dropLast ++ wrapFrom width (pieces.getLast?.getD []) rest

/-- Words set in rows of a given width, with single spaces between them. -/
def wrap (width : Nat) (words : List String) : List (List Char) :=
  wrapFrom width [] (words.map String.toList)

/-- A notice that fills a pane and colours it. -/
def notice (colour : Colour) (rows : List (List Char)) : Content :=
  ⟨.ink colour, rows.map fun text => Row.ofSpans (.ink colour) [⟨String.ofList text, .plain⟩]⟩

end Viewer

end TraceTutor
