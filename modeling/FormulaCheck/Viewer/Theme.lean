import FormulaCheck.Screen.Style
import FormulaCheck.Token

/-!
# Colors of the viewer

The colors of the viewer by what they are for, and the styles of borders and tokens.
-/

namespace FormulaCheck.Viewer

namespace Theme

def text : Color := .rgb 205 214 244

/-- The equals sign, and headers. -/
def primary : Color := .rgb 137 180 250

def secondary : Color := .rgb 250 179 135

def comment : Color := .rgb 108 112 134

def success : Color := .rgb 166 227 161

def error : Color := .rgb 243 139 168

/-- Problems of the scan, and the border of the focused pane. -/
def warning : Color := .rgb 249 226 175

def number : Color := .rgb 250 179 135

def name : Color := .rgb 148 226 213

def operator : Color := .rgb 245 194 231

def parenthesis : Color := .rgb 180 165 120

def rule : Color := .rgb 137 180 250

def selection : Color := .rgb 50 50 70

end Theme

def borderStyle (focused : Bool) : Style :=
  if focused then (Style.colored Theme.warning).inBold else .colored Theme.comment

def tokenColor : Token.Kind → Color
  | .number => Theme.number
  | .name => Theme.name
  | .openParen | .closeParen => Theme.parenthesis
  | .equals => Theme.primary
  | .plus | .minus | .times | .divide => Theme.operator
  | .blank => Theme.text

def tokenStyle (kind : Token.Kind) : Style := .colored (tokenColor kind)

def errorStyle : Style := { (Style.colored Theme.error).inBold with underlined := true }

end FormulaCheck.Viewer
