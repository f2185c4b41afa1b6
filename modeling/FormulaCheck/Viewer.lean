import FormulaCheck.Viewer.Panes

/-!
# The viewer

The state of the viewer of an analysed document, what the keys do to it, and how it is drawn. A
page down may move an offset too far; drawing brings every offset back into its range first.
-/

namespace FormulaCheck

namespace Viewer

inductive Pane
  | lines
  | tokens
  | symbols
  | tree
  | diagnostics
deriving Repr, DecidableEq, Inhabited

def Pane.next : Pane → Pane
  | .lines => .tokens
  | .tokens => .symbols
  | .symbols => .tree
  | .tree => .diagnostics
  | .diagnostics => .lines

def Pane.previous : Pane → Pane
  | .lines => .diagnostics
  | .tokens => .lines
  | .symbols => .tokens
  | .tree => .symbols
  | .diagnostics => .tree

inductive Key
  | escape
  | tab
  | backTab
  | up
  | down
  | left
  | right
  | home
  | «end»
  | pageUp
  | pageDown
  | enter
  | char (c : Char)
deriving Repr, DecidableEq, Inhabited

inductive Status
  | nothingToAnalyze
  | ready
  | accepted (line : Nat)
  | rejected (line errors : Nat)
  | outline (style : OutlineStyle)
deriving Repr, DecidableEq, Inhabited

def Status.message : Status → String
  | .nothingToAnalyze => "Nothing to analyze"
  | .ready => "Ready!"
  | .accepted line => s!"Line {line} accepted"
  | .rejected line errors => s!"Line {line}: {errors} error(s)"
  | .outline .full => "Full parse tree"
  | .outline .simplified => "Simplified parse tree"

def Status.ofLine (a : LineAnalysis) : Status :=
  if a.accepted then .accepted a.number else .rejected a.number a.diagnostics.length

structure Offsets where
  lines : Nat
  tokens : Nat
  symbols : Nat
  tree : Nat
  diagnostics : Nat
deriving Repr, DecidableEq, Inhabited

namespace Offsets

def zero : Offsets := ⟨0, 0, 0, 0, 0⟩

def modify (o : Offsets) (f : Nat → Nat) : Pane → Offsets
  | .lines => { o with lines := f o.lines }
  | .tokens => { o with tokens := f o.tokens }
  | .symbols => { o with symbols := f o.symbols }
  | .tree => { o with tree := f o.tree }
  | .diagnostics => { o with diagnostics := f o.diagnostics }

def backToTop (o : Offsets) : Offsets := { zero with lines := o.lines }

end Offsets

end Viewer

structure Viewer where
  analyses : List LineAnalysis
  totals : Totals
  selected : Nat
  focus : Viewer.Pane
  style : OutlineStyle
  offsets : Viewer.Offsets
  quit : Bool
  status : Viewer.Status
deriving Inhabited

namespace Viewer

def start (analyses : List LineAnalysis) : Viewer where
  analyses := analyses
  totals := .ofAnalyses analyses
  selected := 0
  focus := .lines
  style := .full
  offsets := .zero
  quit := false
  status := if analyses.isEmpty then .nothingToAnalyze else .ready

def current? (v : Viewer) : Option LineAnalysis := v.analyses[v.selected]?

-- ---------------------------------------------------------------------------
-- Keys
-- ---------------------------------------------------------------------------

def pageStep : Nat := 10

/-- The largest offset: it is counted in 64 bits. -/
def maxOffset : Nat := UInt64.size - 1

/-- Selects a line, or the last one if there are not so many. If that is another line than before
its panes start at their tops. -/
def select (v : Viewer) (index : Nat) : Viewer :=
  let index := min index (v.analyses.length - 1)
  if index = v.selected then v
  else match v.analyses[index]? with
    | none => v
    | some a =>
      { v with selected := index, offsets := v.offsets.backToTop, status := .ofLine a }

def toggleStyle (v : Viewer) : Viewer :=
  let style := match v.style with
    | .full => .simplified
    | .simplified => .full
  { v with style, offsets := { v.offsets with tree := 0 }, status := .outline style }

def press (v : Viewer) : Key → Viewer
  | .escape | .char 'q' | .char 'Q' => { v with quit := true }
  | .tab => { v with focus := v.focus.next }
  | .backTab => { v with focus := v.focus.previous }
  | .up => v.select (v.selected - 1)
  | .down => v.select (v.selected + 1)
  | .home => v.select 0
  | .end => v.select (v.analyses.length - 1)
  | .pageUp => { v with offsets := v.offsets.modify (· - pageStep) v.focus }
  | .pageDown =>
    { v with offsets := v.offsets.modify (fun offset => min (offset + pageStep) maxOffset) v.focus }
  | .char 't' | .char 'T' => v.toggleStyle
  | .left | .right | .enter | .char _ => v

-- ---------------------------------------------------------------------------
-- Drawing
-- ---------------------------------------------------------------------------

structure Layout where
  lines : Area
  tokens : Area
  symbols : Area
  tree : Area
  diagnostics : Area
  status : Area
deriving Repr, DecidableEq, Inhabited

/-- The layout of a screen: the status bar is its last row. Above it the lines take 35 percent of
the width, and the rest has the tokens beside the symbols, the tree and the diagnostics below each
other. -/
def layout (width height : Nat) : Layout :=
  let upper : Area := ⟨0, 0, width, height - 1⟩
  let left := upper.columns [35] |>.getD 0 default
  let right := upper.columns [35] |>.getD 1 default
  let rows := right.rows [35, 75]
  let top := (rows.getD 0 default).columns [45]
  { lines := left, tokens := top.getD 0 default, symbols := top.getD 1 default,
    tree := rows.getD 1 default, diagnostics := rows.getD 2 default,
    status := ⟨0, height - 1, width, min height 1⟩ }

def settle (v : Viewer) (l : Layout) : Viewer :=
  let current := v.current?
  let tokens := (current.map (·.tokens.length)).getD 0
  let symbols := (current.map (·.symbols.length)).getD 0
  let diagnostics := (current.map (·.diagnostics.length)).getD 0
  let o := v.offsets
  { v with offsets := {
      lines :=
        settleLinesOffset v.analyses.length v.selected (visibleRows l.lines.height) o.lines
      tokens := settleOffset tokens (visibleRows l.tokens.height) o.tokens
      symbols := settleOffset symbols (visibleSymbolRows l.symbols.height) o.symbols
      tree :=
        settleOffset (shownOutline current v.style).length (visibleRows l.tree.height) o.tree
      diagnostics := settleOffset diagnostics (visibleRows l.diagnostics.height) o.diagnostics } }

def drawOn (v : Viewer) (l : Layout) (s : Screen) : Screen :=
  let current := v.current?
  let o := v.offsets
  let s := drawLinesPane v.analyses v.selected (v.focus == .lines) o.lines s l.lines
  let s := drawTokensPane ((current.map (·.tokens)).getD []) (v.focus == .tokens) o.tokens s
    l.tokens
  let s := drawSymbolsPane ((current.map (·.symbols)).getD []) (v.focus == .symbols) o.symbols s
    l.symbols
  let s := drawTreePane current v.style (v.focus == .tree) o.tree s l.tree
  let s := drawDiagnosticsPane ((current.map (·.diagnostics)).getD []) (v.focus == .diagnostics)
    o.diagnostics s l.diagnostics
  drawStatusBar v.status.message v.totals v.selected s l.status

/-- Draws the viewer on an empty screen, and gives the viewer with its offsets brought into their
ranges. -/
def draw (v : Viewer) (width height : Nat) : Viewer × Screen :=
  let l := layout width height
  let v := v.settle l
  (v, v.drawOn l (.blank width height))

end Viewer

end FormulaCheck
