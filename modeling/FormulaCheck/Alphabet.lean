import FormulaCheck.Text.Blank

/-!
# The alphabet of formulas

Which characters a formula may hold at all, and which of them are operators or parts of a name.
The scanner and the raw scan of a line share these classes. Letters and digits are the ASCII ones.
-/

namespace FormulaCheck.Alphabet

/-- The arithmetic operators; the equals sign is not one of them. -/
def isOperator (c : Char) : Bool := c ∈ ['+', '-', '*', '/']

def isAllowed (c : Char) : Bool :=
  c.isAlphanum || isBlank c || isOperator c || c ∈ ['=', '(', ')', '.']

def startsName (c : Char) : Bool := c.isAlpha

def continuesName (c : Char) : Bool := c.isAlphanum

end FormulaCheck.Alphabet
