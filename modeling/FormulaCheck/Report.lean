import FormulaCheck.Analysis
import FormulaCheck.Report.Table

/-!
# Reports

A report is a text about a document: its input, its totals, and for every line its tokens, symbols,
parse tree and diagnostics. A part that is empty says so.
-/

namespace FormulaCheck.Report

def heading (title : String) (underline : Char) : List String :=
  [title, String.ofList (List.replicate title.length underline)]

def setIn (line : String) : String := "    " ++ line

/-- A part of the report: its name and its lines, or a note if it has none. -/
def part (name note : String) (lines : List String) : List String :=
  name :: if lines.isEmpty then [note] else lines

def tableLines (header : List String) (rows : List (List String)) : List String :=
  if rows.isEmpty then [] else Table.lines header rows

def tokenHeader : List String := ["Token", "Type", "Value", "Line", "Col"]

def tokenRow (t : Token) : List String :=
  [t.text, t.kind.label, t.text, toString t.startLine, toString t.startColumn]

def symbolHeader : List String := ["ID", "Lexeme", "Type", "Line", "Col", "Len", "Scope"]

def symbolRow (s : Symbol) : List String :=
  [toString s.id, s.lexeme, s.kind.label, toString s.line, toString s.column, toString s.length,
   s.scope]

def diagnosticHeader : List String := ["Type", "Line", "Col", "Symbol", "Message"]

def diagnosticRow (d : Diagnostic) : List String :=
  [d.kind.label, toString d.line, toString d.column, d.symbol?.getD "", d.message]

def lineSection (a : LineAnalysis) : List String :=
  let verdict := if a.accepted then "valid" else "invalid"
  heading s!"Line {a.number}: \"{a.source}\" ({verdict})" '-' ++
    part "Tokens" "No tokens." (tableLines tokenHeader (a.tokens.map tokenRow)) ++ [""] ++
    part "Symbol Table" "No symbols." (tableLines symbolHeader (a.symbols.map symbolRow)) ++ [""] ++
    part "Parse Tree" "No parse tree." ((a.outline .full).map setIn) ++ [""] ++
    part "Diagnostics" "No errors."
      (tableLines diagnosticHeader (a.diagnostics.map diagnosticRow))

def summaryLine (t : Totals) : String :=
  s!"Lines: {t.lines}  Tokens: {t.tokens}  Symbols: {t.symbols}  Errors: {t.errors}  " ++
    s!"Valid: {t.valid}  Success: {t.successRate}%"

/-- The text that is shown as input: the input itself, or the analysed lines if it is blank. -/
def shownInput (analyses : List LineAnalysis) (input : String) : String :=
  if Text.isBlankText input then "\n".intercalate (analyses.map (·.source)) else input

def lines (analyses : List LineAnalysis) (input : String) : List String :=
  heading "Expression Analysis Report" '=' ++ [""] ++
    heading "Input" '-' ++ (Text.readLines (shownInput analyses input)).map setIn ++ [""] ++
    heading "Analysis Summary" '-' ++ [summaryLine (.ofAnalyses analyses)] ++
    if analyses.isEmpty then ["", "No analysis results available."]
    else analyses.flatMap fun a => "" :: lineSection a

def render (analyses : List LineAnalysis) (input : String) : String :=
  String.join ((lines analyses input).map (· ++ "\n"))

end FormulaCheck.Report
