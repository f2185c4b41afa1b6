import FormulaCheck.Screen

/-!
# Frames and tables

A frame is a border around an area with a title in its top edge. Inside it stand lines of text or a
table of cells.
-/

namespace FormulaCheck

structure Frame where
  title : String
  style : Style
  padded : Bool
deriving Repr, DecidableEq, Inhabited

namespace Frame

def inner (f : Frame) (a : Area) : Area where
  x := a.x + 1 + f.padded.toNat
  y := a.y + 1
  width := a.width - 2 - f.padded.toNat
  height := a.height - 2

def sides (a : Area) : List (Nat × Nat × Char) :=
  (List.range a.height).flatMap (fun j => [(a.x, a.y + j, '│'), (a.right - 1, a.y + j, '│')]) ++
    (List.range a.width).flatMap fun i => [(a.x + i, a.y, '─'), (a.x + i, a.bottom - 1, '─')]

/-- The corners of a border, in the order in which they are drawn. -/
def corners (a : Area) : List (Nat × Nat × Char) :=
  [(a.right - 1, a.bottom - 1, '┘'), (a.right - 1, a.y, '┐'), (a.x, a.bottom - 1, '└'),
   (a.x, a.y, '┌')]

def draw (f : Frame) (s : Screen) (a : Area) : Screen :=
  if a.isEmpty then s
  else
    let s := (sides a ++ corners a).foldl (fun s (x, y, c) => s.put x y c f.style) s
    s.drawLine ⟨a.x + 1, a.y, a.width - 2, 1⟩ [⟨f.title, .plain⟩]

def drawParagraph (f : Frame) (style : Style) (lines : List StyledLine) (s : Screen) (a : Area) :
    Screen :=
  let s := f.draw (s.paint a style) a
  (s.paint (f.inner a) style).drawLines (f.inner a) lines

structure Row where
  style : Style
  cells : List Span
deriving Repr, DecidableEq, Inhabited

def drawRow (columns : List (Nat × Nat)) (s : Screen) (a : Area) (row : Row) : Screen :=
  (columns.zip row.cells).foldl (fun s ((start, width), cell) =>
    let place := { a with x := a.x + start, width := width }
    (s.paint place cell.style).drawLine place [⟨cell.text, .plain⟩]) (s.paint a row.style)

def drawTable (f : Frame) (columns : Nat → List (Nat × Nat)) (rows : List Row) (s : Screen)
    (a : Area) : Screen :=
  let room := f.inner a
  if room.isEmpty then f.draw s a
  else ((rows.take room.height).zipIdx).foldl (fun s (row, i) =>
    drawRow (columns room.width) s (room.row i) row) (f.draw s a)

end Frame

end FormulaCheck
