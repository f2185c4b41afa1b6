import FormulaCheck.CommandLine
import FormulaCheck.HistoryStore
import FormulaCheck.Report.Save

/-!
# A run of the program

What the program does for a list of arguments: the files that it reads and writes, the text that it
prints, its notes and its exit code. `run` works over any access to files.
-/

namespace FormulaCheck

/-- What surrounds a run: the access to files, the text of its standard input, the time in
milliseconds, and whether its input comes from a person at a terminal and its output goes to one. -/
structure Surroundings (m : Type → Type) where
  files : Files m
  input : m (Except FileError String)
  time : m Nat
  inputAtTerminal : Bool
  atTerminal : Bool

/-- What a run leaves besides files. `view?` holds the analysed lines if they are to be viewed. -/
structure RunOutcome where
  code : Nat
  output : String
  notes : List String
  view? : Option (List LineAnalysis)
deriving Inhabited

namespace Run

variable {m : Type → Type} [Monad m]

def versionText : String := "exprscope 0.1.0\n"

def success (output : String) : RunOutcome := ⟨0, output, [], none⟩

def failure (code : Nat) : RunOutcome := ⟨code, "", [], none⟩

/-- Opens the history of a run: none if it is not wanted, and one without a file if the file cannot
be accessed. -/
def openHistory (s : Surroundings m) (o : Options) : m (Option HistoryStore) := do
  if o.noHistory then return none
  else
    match ← HistoryStore.openFile s.files o.history o.historyLimit with
    | .ok store => return some store
    | .error _ => return some (.inMemory o.historyLimit)

def padCount (n : Nat) : String :=
  let digits := toString n
  String.ofList (List.replicate (3 - digits.length) ' ') ++ digits

def recordLine (r : Record) : String :=
  let first := ((Text.readLines r.input).head?).getD ""
  s!"{r.id}  tokens {padCount r.summary.tokens}  symbols {padCount r.summary.symbols}  " ++
    s!"errors {padCount r.summary.errors}  valid {padCount r.summary.valid}  {first}\n"

def historyList (records : List Record) : String :=
  if records.isEmpty then "No history.\n" else String.join (records.map recordLine)

def diagram (a : LineAnalysis) : String :=
  s!"%% line {a.number}: {a.source}\n{a.graph.mermaid}\n\n"

/-- The text to analyse when there is neither a file nor a pipe. -/
def sampleInput : String := "3 + 4 * 5\n(a + b) * c\nx + y + z"

def readInput (s : Surroundings m) (o : Options) : m (Except FileError String) :=
  match o.file? with
  | some path => if path = "-" then s.input else s.files.read path
  | none => if s.inputAtTerminal then pure (.ok sampleInput) else s.input

/-- Records an input that is not blank. It does not matter if that fails. -/
def recordInput (s : Surroundings m) (store? : Option HistoryStore) (input : String)
    (totals : Totals) : m Unit := do
  match store? with
  | some store =>
    if Text.isBlankText input then return ()
    else
      let _ ← store.add s.files (← s.time) input totals.summary
      return ()
  | none => return ()

def clearHistory (s : Surroundings m) (store? : Option HistoryStore) : m RunOutcome := do
  match store? with
  | some store =>
    match ← store.clear s.files with
    | (.ok (), _) => return success "History cleared.\n"
    | (.error _, _) => return failure 1
  | none => return success "History cleared.\n"

def writeReport (s : Surroundings m) (o : Options) (analyses : List LineAnalysis)
    (input : String) : m (Except ReportError (List String)) := do
  match o.report? with
  | none => return .ok []
  | some path =>
    match ← Report.save s.files path analyses input with
    | .ok () => return .ok [s!"Report written to {path}"]
    | .error e => return .error e

def analyze (s : Surroundings m) (o : Options) (store? : Option HistoryStore) :
    m RunOutcome := do
  match ← readInput s o with
  | .error _ => return failure 1
  | .ok input =>
    let analyses := analyzeDocument input
    recordInput s store? input (.ofAnalyses analyses)
    match ← writeReport s o analyses input with
    | .error _ => return failure 1
    | .ok notes =>
      let diagrams := if o.mermaid then String.join (analyses.map diagram) else ""
      if o.plain ∨ ¬s.atTerminal then
        return ⟨0, diagrams ++ Report.render analyses input, notes, none⟩
      else if o.mermaid then return ⟨0, diagrams, notes, none⟩
      else return ⟨0, "", notes, some analyses⟩

def perform (s : Surroundings m) (o : Options) : m RunOutcome := do
  let store? ← openHistory s o
  if o.clearHistory then clearHistory s store?
  else if o.listHistory then
    return success (historyList ((store?.map (·.history.records)).getD []))
  else analyze s o store?

/-- Does what options ask for. The log file is written first, and empty. -/
def withLog (s : Surroundings m) (o : Options) : m RunOutcome := do
  match o.logFile? with
  | none => perform s o
  | some path =>
    match ← s.files.write path "" with
    | .ok () => perform s o
    | .error _ => return failure 1

end Run

def run {m : Type → Type} [Monad m] (s : Surroundings m) (arguments : List String) :
    m RunOutcome :=
  match CommandLine.read arguments with
  | .error .usage => pure (Run.failure 2)
  | .error .version => pure (Run.success Run.versionText)
  | .error .help => pure (Run.success "")
  | .ok o => Run.withLog s o

end FormulaCheck
