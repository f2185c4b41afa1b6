import FormulaCheck.Text.Split

/-!
# Lines of a text

Two ways to cut a text at its line feeds. `splitLines` keeps every piece, the last one also when
it is empty, so that a piece's index is its line number. `readLines` is the reader's view: the
empty piece after a final line feed is no line, and a carriage return directly before a line feed
belongs to the line break.
-/

namespace FormulaCheck.Text

def splitLines (text : String) : List String := split '\n' text

/-- A piece that a line feed ended, without the carriage return before it. -/
def dropReturn (piece : List Char) : List Char :=
  if piece.getLast? = some '\r' then piece.dropLast else piece

/-- The lines among the pieces: all but the last were ended by a line feed, and an empty last
piece is no line. -/
def linesOfPieces : List (List Char) → List (List Char)
  | [] => []
  | [piece] => if piece.isEmpty then [] else [piece]
  | piece :: rest => dropReturn piece :: linesOfPieces rest

def readLines (text : String) : List String :=
  (linesOfPieces (splitChars '\n' text.toList)).map String.ofList

end FormulaCheck.Text
