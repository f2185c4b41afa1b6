import FormulaCheck.Files
import FormulaCheck.Report

/-!
# Saved reports

Writing a report into a file.
-/

namespace FormulaCheck

structure ReportError where
  path : String
  cause : FileError
deriving Repr, DecidableEq, Inhabited

def ReportError.message (e : ReportError) : String :=
  s!"cannot write report to {e.path}: {e.cause.message}"

def Report.save {m : Type → Type} [Monad m] (files : Files m) (path : String)
    (analyses : List LineAnalysis) (input : String) : m (Except ReportError Unit) := do
  match ← files.write path (Report.render analyses input) with
  | .ok () => return .ok ()
  | .error cause => return .error ⟨path, cause⟩

end FormulaCheck
