/-!
# Styles

The looks of a cell of a screen, and texts with a look.
-/

namespace FormulaCheck

inductive Color
  | rgb (red green blue : Nat)
  | black
deriving Repr, DecidableEq, Inhabited

/-- What a style says about a cell; a color that it does not name stays as it is. -/
structure Style where
  foreground? : Option Color
  background? : Option Color
  bold : Bool
  underlined : Bool
deriving Repr, DecidableEq, Inhabited

namespace Style

def plain : Style := ⟨none, none, false, false⟩

def colored (c : Color) : Style := { plain with foreground? := some c }

def on (s : Style) (c : Color) : Style := { s with background? := some c }

def inBold (s : Style) : Style := { s with bold := true }

def onto (upper lower : Style) : Style where
  foreground? := upper.foreground? <|> lower.foreground?
  background? := upper.background? <|> lower.background?
  bold := upper.bold || lower.bold
  underlined := upper.underlined || lower.underlined

end Style

structure Span where
  text : String
  style : Style
deriving Repr, DecidableEq, Inhabited

abbrev StyledLine := List Span

end FormulaCheck
