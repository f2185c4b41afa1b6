/-!
# Positions in a text

A position is a line and a column, both counted from 1 in a text; a column counts characters.
-/

namespace FormulaCheck

structure Position where
  line : Nat
  column : Nat
deriving Repr, DecidableEq, Inhabited

namespace Position

def origin : Position := ⟨1, 1⟩

def advance (p : Position) (c : Char) : Position :=
  if c = '\n' then ⟨p.line + 1, 1⟩ else ⟨p.line, p.column + 1⟩

def advanceBy (p : Position) (cs : List Char) : Position := cs.foldl advance p

def render (p : Position) : String := s!"{p.line}:{p.column}"

end Position

end FormulaCheck
