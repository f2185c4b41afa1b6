import FormulaCheck.Screen.Style
import FormulaCheck.Text.Blank
import FormulaCheck.Text.Wide

/-!
# Screens

A screen is a grid of cells, each with a character and a style, and an area is a rectangle of it.
Drawing a line of text stops at the first character that does not fit; the second cell of a wide
character is blank and plain.
-/

namespace FormulaCheck

structure Cell where
  char : Char
  style : Style
deriving Repr, DecidableEq, Inhabited

def Cell.blank : Cell := ⟨' ', .plain⟩

structure Area where
  x : Nat
  y : Nat
  width : Nat
  height : Nat
deriving Repr, DecidableEq, Inhabited

namespace Area

def right (a : Area) : Nat := a.x + a.width

def bottom (a : Area) : Nat := a.y + a.height

def isEmpty (a : Area) : Bool := a.width = 0 || a.height = 0

def row (a : Area) (i : Nat) : Area := { a with y := a.y + i, height := 1 }

/-- The boundary after so many percent of a length. -/
def share (length percent : Nat) : Nat := (length * percent + 50) / 100

def pieces (length : Nat) (percents : List Nat) : List (Nat × Nat) :=
  let starts := 0 :: percents.map (share length)
  (starts.zip (starts.tail ++ [length])).map fun (start, stop) => (start, stop - start)

def columns (a : Area) (percents : List Nat) : List Area :=
  (pieces a.width percents).map fun (start, width) => { a with x := a.x + start, width := width }

def rows (a : Area) (percents : List Nat) : List Area :=
  (pieces a.height percents).map fun (start, height) =>
    { a with y := a.y + start, height := height }

end Area

structure Screen where
  width : Nat
  height : Nat
  cells : Array Cell
deriving Repr, DecidableEq, Inhabited

namespace Screen

def blank (width height : Nat) : Screen :=
  ⟨width, height, Array.replicate (width * height) .blank⟩

def area (s : Screen) : Area := ⟨0, 0, s.width, s.height⟩

def modify (s : Screen) (x y : Nat) (f : Cell → Cell) : Screen :=
  if x < s.width ∧ y < s.height then { s with cells := s.cells.modify (y * s.width + x) f } else s

def put (s : Screen) (x y : Nat) (char : Char) (style : Style) : Screen :=
  s.modify x y fun cell => ⟨char, style.onto cell.style⟩

def paint (s : Screen) (a : Area) (style : Style) : Screen :=
  (List.range a.height).foldl (fun s j => (List.range a.width).foldl (fun s i =>
    s.modify (a.x + i) (a.y + j) fun cell => { cell with style := style.onto cell.style }) s) s

def putChars (s : Screen) (x y right : Nat) : List (Char × Style) → Screen
  | [] => s
  | (c, style) :: rest =>
    if x + cellWidth c ≤ right then
      let s := s.put x y c style
      let s := if cellWidth c = 2 then s.modify (x + 1) y fun _ => .blank else s
      s.putChars (x + cellWidth c) y right rest
    else s

def styledChars (line : StyledLine) : List (Char × Style) :=
  line.flatMap fun span => span.text.toList.map fun c => (c, span.style)

def lineWidth (line : StyledLine) : Nat :=
  (styledChars line).foldl (fun width (c, _) => width + cellWidth c) 0

def drawLine (s : Screen) (a : Area) (line : StyledLine) : Screen :=
  if a.isEmpty then s else s.putChars a.x a.y a.right (styledChars line)

/-- A screen with a line in the first row of an area that ends at its right edge if it fits. -/
def drawLineRight (s : Screen) (a : Area) (line : StyledLine) : Screen :=
  let room := a.width - lineWidth line
  s.drawLine { a with x := a.x + room, width := a.width - room } line

def drawLines (s : Screen) (a : Area) (lines : List StyledLine) : Screen :=
  ((lines.take a.height).zipIdx).foldl (fun s (line, i) => s.drawLine (a.row i) line) s

def rows (s : Screen) : List (List Cell) :=
  (List.range s.height).map fun y =>
    (s.cells.extract (y * s.width) ((y + 1) * s.width)).toList

def rowText (row : List Cell) : String :=
  String.ofList (Text.trimEndChars (row.map Cell.char))

def rowSpans (row : List Cell) : StyledLine :=
  (row.splitBy fun a b => a.style == b.style).map fun run =>
    ⟨String.ofList (run.map Cell.char), (run.head?.map Cell.style).getD .plain⟩

end Screen

end FormulaCheck
