import FormulaCheck.Token.Scan
import FormulaCheck.Viewer.Theme

/-!
# Highlighting

The text of a line with a style for each token and each character at which no lexeme begins. A span
is as long as the style stays the same.
-/

namespace FormulaCheck.Viewer

structure Stroke where
  first : Nat
  last : Nat
  style : Style
deriving Repr, DecidableEq, Inhabited

namespace Stroke

def Covers (k : Stroke) (column : Nat) : Prop := k.first ≤ column ∧ column ≤ k.last

instance (k : Stroke) (column : Nat) : Decidable (k.Covers column) :=
  inferInstanceAs (Decidable (_ ∧ _))

def ofToken (t : Token) : Stroke := ⟨t.startColumn, t.endColumn, tokenStyle t.kind⟩

def ofError (e : ScanError) : Stroke := ⟨e.place.column, e.place.column, errorStyle⟩

end Stroke

def paint (styles : List Style) (k : Stroke) : List Style :=
  styles.mapIdx fun i style => if k.Covers (i + 1) then k.style else style

/-- The styles of the characters of a text. All of it is taken for one line: in a text of several
lines what stands in a column of any of them is painted in that column of the text. -/
def charStyles (scanned : Scan) (length : Nat) : List Style :=
  (scanned.tokens.map Stroke.ofToken ++ scanned.errors.map Stroke.ofError).foldl paint
    (List.replicate length (.colored Theme.text))

def spanOfRun : List (Char × Style) → Span
  | [] => ⟨"", .plain⟩
  | (c, style) :: rest => ⟨String.ofList (c :: rest.map Prod.fst), style⟩

def highlight (text : String) : StyledLine :=
  let cs := text.toList
  ((cs.zip (charStyles (scan text) cs.length)).splitBy fun a b => a.2 == b.2).map spanOfRun

end FormulaCheck.Viewer
