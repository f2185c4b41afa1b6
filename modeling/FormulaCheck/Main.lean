import FormulaCheck.Run
import FormulaCheck.Viewer
import Std.Time.DateTime.Timestamp

/-!
# The program

The command line program: it gives `run` the arguments, the files of the system and the clock, and
prints what the run leaves. For a person at a terminal it prints the first screen of the viewer.
-/

namespace FormulaCheck.Main

def reasonOf : IO.Error → FileError
  | .noFileOrDirectory .. => .notFound
  | .inappropriateType _ code _ => if code = 21 then .isFolder else .notFolder
  | .invalidArgument (some _) 36 _ => .nameTooLong
  | e => .other (toString e)

def attempt (action : IO α) : IO (Except FileError α) := do
  try
    return .ok (← action)
  catch e =>
    return .error (reasonOf e)

def systemFiles : Files IO where
  read path := do
    match ← attempt (IO.FS.readBinFile path) with
    | .error e => return .error e
    | .ok bytes => return (Content.ofBytes bytes).read
  write path text := attempt (IO.FS.writeFile path text)
  remove path := attempt (IO.FS.removeFile path)

def readClock : IO Nat := do
  return (← Std.Time.Timestamp.now).toMillisecondsSinceUnixEpoch.toInt.toNat

def screenSize : Nat × Nat := (100, 30)

def firstScreen (analyses : List LineAnalysis) : List String :=
  let (_, screen) := (Viewer.start analyses).draw screenSize.1 screenSize.2
  screen.rows.map Screen.rowText

def program (arguments : List String) : IO UInt32 := do
  let input ← IO.getStdin
  let output ← IO.getStdout
  let outcome ← run
    { files := systemFiles, input := attempt input.readToEnd, time := readClock,
      inputAtTerminal := ← input.isTty, atTerminal := ← output.isTty } arguments
  outcome.notes.forM IO.eprintln
  IO.print outcome.output
  match outcome.view? with
  | some analyses => (firstScreen analyses).forM IO.println
  | none => pure ()
  return UInt32.ofNat outcome.code

end FormulaCheck.Main

def main (arguments : List String) : IO UInt32 := FormulaCheck.Main.program arguments
