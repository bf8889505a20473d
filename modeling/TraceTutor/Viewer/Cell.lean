/-!
# Cells, rows and pictures

A picture is a list of rows, and a row is a list of styled characters. Parts of a picture are drawn
on their own and put next to each other; `Row.fit` and `Picture.fit` give a part the exact size that
its place has.
-/

namespace TraceTutor

namespace Viewer

/-! ## Styles -/

inductive Colour where
  | rgb (red green blue : Nat)
  | black
  | white
deriving DecidableEq, Repr

/-- How a character looks. A colour that is missing leaves the one below. -/
structure Style where
  foreground : Option Colour
  background : Option Colour
  bold : Bool
  italic : Bool
deriving DecidableEq, Repr

namespace Style

def plain : Style := ⟨none, none, false, false⟩

def ink (colour : Colour) : Style := { plain with foreground := some colour }

def paper (colour : Colour) : Style := { plain with background := some colour }

def withInk (s : Style) (colour : Colour) : Style := { s with foreground := some colour }

def asBold (s : Style) : Style := { s with bold := true }

def asItalic (s : Style) : Style := { s with italic := true }

/-- One style on top of another. -/
def onto (s base : Style) : Style :=
  ⟨s.foreground.or base.foreground, s.background.or base.background, s.bold || base.bold,
    s.italic || base.italic⟩

@[simp] theorem plain_onto (base : Style) : plain.onto base = base := by
  cases base
  simp [onto, plain]

end Style

/-! ## Rows -/

structure Cell where
  char : Char
  style : Style
deriving DecidableEq, Repr

/-- An empty place. -/
def Cell.blank (style : Style) : Cell := ⟨' ', style⟩

/-- A text in one style. -/
structure Span where
  text : String
  style : Style
deriving DecidableEq, Repr

abbrev Row := List Cell

/-- The cells of a text on a background, without line feeds. -/
def Span.cells (background : Style) (s : Span) : Row :=
  (s.text.toList.filter (· ≠ '\n')).map fun c => ⟨c, s.style.onto background⟩

namespace Row

/-- The cells of texts one after another. -/
def ofSpans (background : Style) (spans : List Span) : Row :=
  spans.flatMap (Span.cells background)

def blanks (background : Style) (width : Nat) : Row :=
  List.replicate width (.blank background)

/-- A row cut or filled to a width. -/
def fit (background : Style) (width : Nat) (row : Row) : Row :=
  row.take width ++ blanks background (width - row.length)

/-- A row cut or filled to a width, standing on the right. -/
def fitRight (background : Style) (width : Nat) (row : Row) : Row :=
  blanks background (width - row.length) ++ row.take width

@[simp] theorem length_fit (background : Style) (width : Nat) (row : Row) :
    (fit background width row).length = width := by
  simp only [fit, blanks, List.length_append, List.length_take, List.length_replicate]
  omega

@[simp] theorem length_fitRight (background : Style) (width : Nat) (row : Row) :
    (fitRight background width row).length = width := by
  simp only [fitRight, blanks, List.length_append, List.length_take, List.length_replicate]
  omega

end Row

/-! ## Pictures -/

abbrev Picture := List Row

namespace Picture

/-- A picture cut or filled to a size. -/
def fit (background : Style) (width height : Nat) (rows : Picture) : Picture :=
  (rows.take height).map (Row.fit background width) ++
    List.replicate (height - rows.length) (Row.blanks background width)

/-- Two pictures side by side. -/
def beside (left right : Picture) : Picture :=
  left.zipWith (· ++ ·) right

@[simp] theorem length_fit (background : Style) (width height : Nat) (rows : Picture) :
    (fit background width height rows).length = height := by
  simp only [fit, List.length_append, List.length_map, List.length_take, List.length_replicate]
  omega

end Picture

end Viewer

end TraceTutor
