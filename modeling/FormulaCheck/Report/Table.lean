import FormulaCheck.Text.Blank

/-!
# Tables

A table is printed as lines of cells: the header, a rule of dashes and the rows. Every column is as
wide as its longest cell, two spaces stand between columns, and blanks at the end of a line are
dropped. Widths count characters.
-/

namespace FormulaCheck.Table

def widen : List Nat → List String → List Nat
  | width :: widths, cell :: cells => max width cell.length :: widen widths cells
  | widths, _ => widths

def widths (header : List String) (rows : List (List String)) : List Nat :=
  rows.foldl widen (header.map String.length)

def pad (cell : String) (width : Nat) : String :=
  cell ++ String.ofList (List.replicate (width - cell.length) ' ')

def rowLine (widths : List Nat) (cells : List String) : String :=
  Text.trimEnd ("  ".intercalate ((cells.zip widths).map fun (cell, width) => pad cell width))

def rule (widths : List Nat) : List String :=
  widths.map fun width => String.ofList (List.replicate width '-')

def lines (header : List String) (rows : List (List String)) : List String :=
  let ws := widths header rows
  rowLine ws header :: rowLine ws (rule ws) :: rows.map (rowLine ws)

end FormulaCheck.Table
