import FormulaCheck.History

/-!
# Command lines

What the arguments of the program ask for. An option is `--name`, with its value after an equals
sign or as the next argument; `-v` and `-V` are the short options, and `--` ends the options. A
lone `-` is no option.
-/

namespace FormulaCheck

structure Options where
  file? : Option String
  plain : Bool
  report? : Option String
  mermaid : Bool
  history : String
  historyLimit : Nat
  noHistory : Bool
  listHistory : Bool
  clearHistory : Bool
  verbosity : Nat
  logFile? : Option String
deriving Repr, DecidableEq, Inhabited

namespace CommandLine

inductive ValueOption
  | report
  | history
  | historyLimit
  | logFile
deriving Repr, DecidableEq, Inhabited

inductive Flag
  | plain
  | mermaid
  | noHistory
  | listHistory
  | clearHistory
deriving Repr, DecidableEq, Inhabited

inductive Name
  | value (option : ValueOption)
  | flag (flag : Flag)
  | verbose
  | version
  | help
deriving Repr, DecidableEq, Inhabited

def longName? : String → Option Name
  | "report" => some (.value .report)
  | "history" => some (.value .history)
  | "history-limit" => some (.value .historyLimit)
  | "log-file" => some (.value .logFile)
  | "plain" => some (.flag .plain)
  | "mermaid" => some (.flag .mermaid)
  | "no-history" => some (.flag .noHistory)
  | "list-history" => some (.flag .listHistory)
  | "clear-history" => some (.flag .clearHistory)
  | "verbose" => some .verbose
  | "version" => some .version
  | "help" => some .help
  | _ => none

def shortName? : Char → Option Name
  | 'v' => some .verbose
  | 'V' => some .version
  | 'h' => some .help
  | _ => none

structure Given where
  files : List String
  values : List (ValueOption × String)
  flags : List Flag
  verbosity : Nat
deriving Repr, DecidableEq, Inhabited

inductive Stop
  | usage
  | version
  | help
deriving Repr, DecidableEq, Inhabited

def Given.take (g : Given) : Name → Except Stop Given
  | .value _ => .error .usage
  | .flag flag =>
    if flag ∈ g.flags then .error .usage else .ok { g with flags := flag :: g.flags }
  | .verbose => .ok { g with verbosity := g.verbosity + 1 }
  | .version => .error .version
  | .help => .error .help

/-- The natural number below `2^64` that a value stands for, with a plus sign or
zeros in front at will. -/
def number? (text : String) : Option Nat :=
  let digits := match text.toList with
    | '+' :: cs => cs
    | cs => cs
  if digits.isEmpty ∨ digits.any (fun c => !c.isDigit) then none
  else
    let n := Nat.ofDigitChars 10 digits 0
    if n < UInt64.size then some n else none

def ValueOption.admits (option : ValueOption) (value : String) : Bool :=
  match option with
  | .historyLimit => (number? value).isSome
  | _ => value ≠ ""

def Given.takeValue (g : Given) (option : ValueOption) (value : String) : Except Stop Given :=
  if g.values.any (·.1 == option) || !option.admits value then .error .usage
  else .ok { g with values := (option, value) :: g.values }

def Given.takeFile (g : Given) (file : String) : Except Stop Given :=
  if g.files.isEmpty && file ≠ "" then .ok { g with files := [file] } else .error .usage

def Given.takeShort (g : Given) (names : List Char) : Except Stop Given :=
  names.foldlM (fun g c => match shortName? c with
    | some name => g.take name
    | none => .error .usage) g

inductive Argument
  | endOfOptions
  | long (name : String) (value? : Option String)
  | short (names : List Char)
  | file
deriving Repr, DecidableEq, Inhabited

def Argument.of (argument : String) : Argument :=
  match argument.toList with
  | ['-', '-'] => .endOfOptions
  | '-' :: '-' :: name =>
    match name.dropWhile (· ≠ '=') with
    | [] => .long (String.ofList name) none
    | _ :: value =>
      .long (String.ofList (name.takeWhile (· ≠ '='))) (some (String.ofList value))
  | '-' :: c :: cs => .short (c :: cs)
  | _ => .file

def readFrom (g : Given) : List String → Except Stop Given
  | [] => .ok g
  | argument :: rest =>
    match Argument.of argument with
    | .endOfOptions => rest.foldlM Given.takeFile g
    | .file => do
      let g ← g.takeFile argument
      readFrom g rest
    | .short names => do
      let g ← g.takeShort names
      readFrom g rest
    | .long name value? =>
      match longName? name, value? with
      | some (.value option), some value => do
        let g ← g.takeValue option value
        readFrom g rest
      | some (.value option), none =>
        match rest with
        | [] => .error .usage
        | value :: rest =>
          if Argument.of value = .file then do
            let g ← g.takeValue option value
            readFrom g rest
          else .error .usage
      | some option, none => do
        let g ← g.take option
        readFrom g rest
      | _, _ => .error .usage

def Given.value? (g : Given) (option : ValueOption) : Option String :=
  (g.values.find? (·.1 == option)).map Prod.snd

def defaultHistory : String := ".exprscope_history.json"

def defaultHistoryLimit : Nat := History.defaultLimit

/-- The options that arguments stand for. A history that is neither read nor recorded can be
neither listed nor cleared. -/
def Given.options (g : Given) : Except Stop Options :=
  if .noHistory ∈ g.flags ∧ (.listHistory ∈ g.flags ∨ .clearHistory ∈ g.flags) then .error .usage
  else .ok {
    file? := g.files.head?
    plain := .plain ∈ g.flags
    report? := g.value? .report
    mermaid := .mermaid ∈ g.flags
    history := (g.value? .history).getD defaultHistory
    historyLimit := ((g.value? .historyLimit).bind number?).getD defaultHistoryLimit
    noHistory := .noHistory ∈ g.flags
    listHistory := .listHistory ∈ g.flags
    clearHistory := .clearHistory ∈ g.flags
    verbosity := g.verbosity
    logFile? := g.value? .logFile }

def read (arguments : List String) : Except Stop Options := do
  (← readFrom ⟨[], [], [], 0⟩ arguments).options

end CommandLine

end FormulaCheck
