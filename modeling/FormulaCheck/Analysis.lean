import FormulaCheck.Graph
import FormulaCheck.RawCheck
import FormulaCheck.SymbolTable
import FormulaCheck.Text.Lines
import FormulaCheck.Tree.Outline

/-!
# Analysis of lines and documents

`analyzeLine` says everything about one line. A line that does not scan has only the errors of the
scan; any other line has the findings on its raw characters followed by the faults of its parse.
`analyzeDocument` analyses the lines of a text that are not blank, and `Totals` adds them up.
-/

namespace FormulaCheck

structure LineAnalysis where
  number : Nat
  source : String
  tokens : List Token
  symbols : List Symbol
  tree? : Option Tree
  diagnostics : List Diagnostic
  primaryKind? : Option Diagnostic.Kind
deriving Repr, Inhabited

namespace LineAnalysis

def outline (a : LineAnalysis) (style : OutlineStyle) : List String :=
  (a.tree?.map (Tree.outline style)).getD []

def accepted (a : LineAnalysis) : Bool := a.diagnostics.isEmpty && a.tree?.any Tree.isNode

def graph (a : LineAnalysis) : Graph := .ofTree? a.tree?

end LineAnalysis

def parseDiagnostics (tokens : List Token) (chars : List Char) :
    Option Tree × List Diagnostic :=
  match parse defaultNestingLimit tokens with
  | .ok parsed => (some parsed.tree, parsed.faults.map (.ofFault tokens chars))
  | .error failure => (none, [.ofNestingTooDeep failure])

def analyzeLine (line : String) (number : Nat) : LineAnalysis :=
  let source := Text.trim line
  let scanned := scan source
  if scanned.hasErrors then
    { number, source, tokens := scanned.tokens, symbols := [], tree? := none,
      diagnostics := scanned.errors.map .ofScanError, primaryKind? := some .lexical }
  else
    let (tree?, ofParse) := parseDiagnostics scanned.tokens source.toList
    let diagnostics := rawCheck source ++ ofParse
    { number, source, tokens := scanned.tokens, symbols := symbolTable scanned.tokens, tree?,
      diagnostics, primaryKind? := diagnostics.head?.map (·.kind) }

/-- The analyses of the lines of a text that are not blank, each with its number in the text. -/
def analyzeDocument (text : String) : List LineAnalysis :=
  (((Text.splitLines text).zipIdx 1).filter fun (line, _) => !Text.isBlankText line).map
    fun (line, number) => analyzeLine line number

structure Totals where
  lines : Nat
  tokens : Nat
  symbols : Nat
  errors : Nat
  valid : Nat
deriving Repr, DecidableEq, Inhabited

namespace Totals

def zero : Totals := ⟨0, 0, 0, 0, 0⟩

def count (totals : Totals) (a : LineAnalysis) : Totals where
  lines := totals.lines + 1
  tokens := totals.tokens + a.tokens.length
  symbols := totals.symbols + a.symbols.length
  errors := totals.errors + a.diagnostics.length
  valid := totals.valid + a.accepted.toNat

def ofAnalyses (analyses : List LineAnalysis) : Totals := analyses.foldl count zero

/-- The accepted lines in percent of the accepted lines and the errors together, and 0 if there are
none of either or no token. The quotient is rounded to a binary fraction of 64 bits before it is
scaled, and the percentage to the nearest integer, a half away from zero. -/
def successRate (totals : Totals) : Nat :=
  let all := totals.valid + totals.errors
  if totals.tokens = 0 ∨ all = 0 then 0
  else (Float.ofNat totals.valid / Float.ofNat all * 100.0).round.toUInt32.toNat

end Totals

end FormulaCheck
