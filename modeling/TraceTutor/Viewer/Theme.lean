import TraceTutor.Viewer.Cell

/-!
# Theme

The colours of the viewer, by what they stand for.
-/

namespace TraceTutor

namespace Viewer

namespace Theme

def text : Colour := .rgb 205 214 244
def primary : Colour := .rgb 137 180 250
def secondary : Colour := .rgb 250 179 135
def comment : Colour := .rgb 108 112 134
def success : Colour := .rgb 166 227 161
def error : Colour := .rgb 243 139 168
def keyword : Colour := .rgb 137 180 250
def string : Colour := .rgb 250 179 135
def number : Colour := .rgb 250 179 135
def focusedBorder : Colour := .rgb 249 226 175
def border : Colour := .rgb 108 112 134
def currentLine : Colour := .rgb 50 50 70
def function : Colour := .rgb 249 226 175
def typeName : Colour := .rgb 148 226 213
/-- A value that differs from the step before. -/
def changed : Colour := .rgb 166 227 161
/-- A value that the learner predicted. -/
def predicted : Colour := .rgb 245 194 231

/-- The style of a pane's border and title. -/
def borderStyle (focused : Bool) : Style :=
  if focused then (Style.ink focusedBorder).asBold else .ink border

end Theme

end Viewer

end TraceTutor
