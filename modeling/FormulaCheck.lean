import FormulaCheck.Files.Folder
import FormulaCheck.Main
import FormulaCheck.Proofs.Arrangement
import FormulaCheck.Proofs.Grammar
import FormulaCheck.Proofs.Grammar.Progress
import FormulaCheck.Proofs.Parse.Reads
import FormulaCheck.Proofs.Parse.Faultless
import FormulaCheck.Proofs.Parse.FirstFault
import FormulaCheck.Proofs.Parse.Recovery
import FormulaCheck.Proofs.Cut
import FormulaCheck.Proofs.Scan
import FormulaCheck.Proofs.Grammar.Neighbours
import FormulaCheck.Proofs.RawCheck
import FormulaCheck.Proofs.Acceptance
import FormulaCheck.Proofs.Analysis
import FormulaCheck.Proofs.Analysis.Located
import FormulaCheck.Proofs.Analysis.Layout
import FormulaCheck.Proofs.Analysis.Document
import FormulaCheck.Proofs.Parse.Machine
import FormulaCheck.Proofs.Parse.Reported
import FormulaCheck.Proofs.Parse.Renaming
import FormulaCheck.Proofs.Parse.Mistakes
import FormulaCheck.Proofs.Parse.MissingToken
import FormulaCheck.Proofs.Parse.ExtraToken
import FormulaCheck.Proofs.Parse.Cascade
import FormulaCheck.Proofs.GivenUp
import FormulaCheck.Proofs.Spans
import FormulaCheck.Proofs.Drawings
import FormulaCheck.Proofs.Drawings.Mermaid
import FormulaCheck.Proofs.Json.RoundTrip
import FormulaCheck.Proofs.Json.Bounds
import FormulaCheck.Proofs.Json.Records
import FormulaCheck.Proofs.Files
import FormulaCheck.Proofs.Files.Folder
import FormulaCheck.Proofs.History
import FormulaCheck.Proofs.HistoryStore
import FormulaCheck.Proofs.HistoryStore.Lifetime
import FormulaCheck.Proofs.Run.ClearHistory
import FormulaCheck.Proofs.Run.History
import FormulaCheck.Proofs.Drawings.Items
import FormulaCheck.Proofs.Drawings.Reordering
import FormulaCheck.Proofs.Json.Structures
import FormulaCheck.Proofs.Json.Trees
import FormulaCheck.Proofs.Nesting
import FormulaCheck.Proofs.Parse.Limit
import FormulaCheck.Proofs.Viewer
import FormulaCheck.Proofs.Parse.WellFormed
import FormulaCheck.Proofs.Parse.Assumed
import FormulaCheck.Proofs.Parse.Appended
import FormulaCheck.Proofs.Parse.FaultOrder
import FormulaCheck.Proofs.Balance
import FormulaCheck.Proofs.RawCheck.Tokens
import FormulaCheck.Proofs.RawCheck.Repair
import FormulaCheck.Proofs.Scan.Longest
import FormulaCheck.Proofs.Scan.Append
import FormulaCheck.Proofs.RawCheck.Foreign
import FormulaCheck.Proofs.Analysis.Wording
import FormulaCheck.Proofs.SymbolTable
import FormulaCheck.Proofs.Parse.Height
import FormulaCheck.Proofs.Drawings.Plumbing
import FormulaCheck.Proofs.Drawings.Labels
import FormulaCheck.Proofs.Slots
import FormulaCheck.Proofs.Viewer.Highlight
import FormulaCheck.Proofs.Viewer.TreePane
import FormulaCheck.Proofs.Report
