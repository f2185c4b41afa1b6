import FormulaCheck.Analysis
import FormulaCheck.Screen.Frame
import FormulaCheck.Viewer.Columns
import FormulaCheck.Viewer.Highlight

/-!
# Panes

The panes of the viewer: the list of lines, and the tokens, symbols, tree and diagnostics of the
selected line; and the status bar. A pane shows the rows from its offset on. Before it is drawn the
offset is brought into the range in which the last page is full; a pane with nothing to show leaves
it alone.
-/

namespace FormulaCheck.Viewer

def visibleRows (height : Nat) : Nat := max (height - 2) 1

def visibleSymbolRows (height : Nat) : Nat := max (visibleRows height - 1) 1

def clampOffset (count visible offset : Nat) : Nat := min offset (count - visible)

def settleOffset (count visible offset : Nat) : Nat :=
  if count = 0 then offset else clampOffset count visible offset

/-- The offset nearest to another one with which the selected row is seen. -/
def followSelection (selected visible offset : Nat) : Nat :=
  if selected < offset then selected
  else if offset + visible ≤ selected then selected + 1 - visible
  else offset

def settleLinesOffset (count selected visible offset : Nat) : Nat :=
  if count = 0 then offset else clampOffset count visible (followSelection selected visible offset)

def page (rows : List α) (visible offset : Nat) : List α := (rows.drop offset).take visible

def padAfter (text : String) (width : Nat) : String :=
  text ++ String.ofList (List.replicate (width - text.length) ' ')

def padBefore (text : String) (width : Nat) : String :=
  String.ofList (List.replicate (width - text.length) ' ') ++ text

def paneFrame (title : String) (focused padded : Bool) : Frame :=
  ⟨title, borderStyle focused, padded⟩

def drawNote (title : String) (focused : Bool) (note : String) (color : Color) (s : Screen)
    (a : Area) : Screen :=
  (paneFrame title focused false).drawParagraph (.colored color) [[⟨note, .plain⟩]] s a

def drawPage (title : String) (focused padded : Bool) (note : String) (noteColor : Color)
    (lines : List StyledLine) (offset : Nat) (s : Screen) (a : Area) : Screen :=
  if lines.isEmpty then drawNote title focused note noteColor s a
  else (paneFrame title focused padded).drawParagraph .plain
    (page lines (visibleRows a.height) offset) s a

-- ---------------------------------------------------------------------------
-- The pane of lines
-- ---------------------------------------------------------------------------

def documentLine (selected : Bool) (a : LineAnalysis) : StyledLine :=
  let numberStyle :=
    if selected then (Style.colored Theme.secondary).inBold else .colored Theme.comment
  let verdict : Span :=
    if a.accepted then ⟨"✓ ", .colored Theme.success⟩ else ⟨"✗ ", .colored Theme.error⟩
  let line : StyledLine :=
    ⟨if selected then "▶" else " ", numberStyle⟩ ::
      ⟨padBefore (toString a.number) 4 ++ " ", numberStyle⟩ :: verdict :: highlight a.source
  if selected then line.map fun span => { span with style := span.style.on Theme.selection }
  else line

def drawLinesPane (analyses : List LineAnalysis) (selected : Nat) (focused : Bool) (offset : Nat)
    (s : Screen) (a : Area) : Screen :=
  let shown := page analyses.zipIdx (visibleRows a.height) offset
  let title := s!" Lines ({analyses.length}) "
  if analyses.isEmpty then drawNote title focused "(no input)" Theme.comment s a
  else (paneFrame title focused false).drawParagraph .plain
    (shown.map fun (analysis, i) => documentLine (i == selected) analysis) s a

-- ---------------------------------------------------------------------------
-- The panes of the selected line
-- ---------------------------------------------------------------------------

def tokenLine (kindWidth : Nat) (t : Token) : StyledLine :=
  [⟨padAfter t.kind.label kindWidth ++ "  ", .colored Theme.comment⟩,
   ⟨padAfter t.text 8, tokenStyle t.kind⟩,
   ⟨s!" {t.startLine}:{t.startColumn}-{t.endColumn}", .colored Theme.comment⟩]

def drawTokensPane (tokens : List Token) (focused : Bool) (offset : Nat) (s : Screen) (a : Area) :
    Screen :=
  let kindWidth := (tokens.map fun t => t.kind.label.length).foldl max 0
  drawPage s!" Tokens ({tokens.length}) " focused true "(no tokens)" Theme.comment
    (tokens.map (tokenLine kindWidth)) offset s a

def symbolHeader : Frame.Row where
  style := (Style.colored Theme.primary).inBold
  cells := ["ID", "Lexeme", "Type", "Line", "Col", "Len", "Scope"].map (⟨·, .plain⟩)

def symbolRow (symbol : Symbol) : Frame.Row where
  style := .colored Theme.text
  cells :=
    [⟨toString symbol.id, .plain⟩, ⟨symbol.lexeme, tokenStyle symbol.kind⟩,
     ⟨symbol.kind.label, .plain⟩, ⟨toString symbol.line, .plain⟩,
     ⟨toString symbol.column, .plain⟩, ⟨toString symbol.length, .plain⟩, ⟨symbol.scope, .plain⟩]

def drawSymbolsPane (symbols : List Symbol) (focused : Bool) (offset : Nat) (s : Screen)
    (a : Area) : Screen :=
  let title := s!" Symbol Table ({symbols.length}) "
  if symbols.isEmpty then drawNote title focused "(no symbols)" Theme.comment s a
  else (paneFrame title focused false).drawTable symbolColumns
    (symbolHeader :: (page symbols (visibleSymbolRows a.height) offset).map symbolRow) s a

def splitIndent (line : String) : String × String :=
  (String.ofList (line.toList.takeWhile isBlank), String.ofList (line.toList.dropWhile isBlank))

def readsAsRule (text : String) : Bool :=
  Rule.all.any fun rule => rule.label == text || rule.shortLabel == text

/-- A line of an outline. Whether it is for a rule is read off its text. -/
def outlineLine (line : String) : StyledLine :=
  let (indent, text) := splitIndent line
  let color := if readsAsRule text then Theme.rule else Theme.text
  [⟨indent, .colored Theme.comment⟩, ⟨text, .colored color⟩]

def treeTitle : OutlineStyle → String
  | .full => " Parse Tree "
  | .simplified => " Parse Tree (simplified) "

def shownOutline (analysis? : Option LineAnalysis) (style : OutlineStyle) : List String :=
  (analysis?.map (·.outline style)).getD []

def drawTreePane (analysis? : Option LineAnalysis) (style : OutlineStyle) (focused : Bool)
    (offset : Nat) (s : Screen) (a : Area) : Screen :=
  drawPage (treeTitle style) focused true "(no parse tree)" Theme.comment
    ((shownOutline analysis? style).map outlineLine) offset s a

def diagnosticColor : Diagnostic.Kind → Color
  | .lexical => Theme.warning
  | .syntactic => Theme.error
  | .runtime => Theme.secondary

def diagnosticLine (d : Diagnostic) : StyledLine :=
  [⟨d.kind.label ++ " ", (Style.colored (diagnosticColor d.kind)).inBold⟩,
   ⟨s!"{d.line}:{d.column} ", .colored Theme.comment⟩] ++
  d.symbol?.toList.map (fun symbol => ⟨s!"[{symbol}] ", .colored Theme.secondary⟩) ++
  [⟨d.message, .colored Theme.text⟩]

def drawDiagnosticsPane (diagnostics : List Diagnostic) (focused : Bool) (offset : Nat)
    (s : Screen) (a : Area) : Screen :=
  drawPage s!" Diagnostics ({diagnostics.length}) " focused true "No errors." Theme.success
    (diagnostics.map diagnosticLine) offset s a

-- ---------------------------------------------------------------------------
-- The status bar
-- ---------------------------------------------------------------------------

def barStyle : Style := Style.plain.on Theme.selection

def onBar (c : Color) : Style := (Style.colored c).on Theme.selection

def statusLine (message : String) (totals : Totals) (selected : Nat) : StyledLine :=
  let allValid := 0 < totals.lines ∧ totals.valid = totals.lines
  let place :=
    if totals.lines = 0 then " Line 0/0 " else s!" Line {selected + 1}/{totals.lines} "
  let placeStyle :=
    ((Style.colored .black).on (if allValid then Theme.success else Theme.primary)).inBold
  [⟨place, placeStyle⟩, ⟨" | ", onBar Theme.comment⟩,
   ⟨s!"tokens {totals.tokens}  symbols {totals.symbols}  errors {totals.errors}  " ++
      s!"valid {totals.valid}  success {totals.successRate}% ", onBar Theme.text⟩,
   ⟨"| ", onBar Theme.comment⟩, ⟨message, onBar Theme.comment⟩]

def keyLine : StyledLine :=
  let key (text : String) : Span := ⟨text, (Style.colored .black).on Theme.comment⟩
  let use (text : String) : Span := ⟨text, onBar Theme.text⟩
  let gap : StyledLine := [⟨"│", onBar Theme.comment⟩, use " "]
  [key " ↑/↓ ", use " line "] ++ gap ++ [key " ⇥ ", use " focus "] ++ gap ++
    [key " PgUp/PgDn ", use " scroll "] ++ gap ++ [key " t ", use " tree "] ++
    [⟨"│", onBar Theme.comment⟩, use " "] ++ [key "q", use " quit "]

def drawStatusBar (message : String) (totals : Totals) (selected : Nat) (s : Screen) (a : Area) :
    Screen :=
  match a.columns [50] with
  | [left, right] =>
    let s := (s.paint left barStyle).drawLine left (statusLine message totals selected)
    (s.paint right barStyle).drawLineRight right keyLine
  | _ => s

end FormulaCheck.Viewer
