import FormulaCheck.Files
import FormulaCheck.Json.Codec

/-!
# Stored histories

A history that is kept in a file, if it has one: the file is written anew after every record and
removed when the history is cleared. A file that cannot be read as records is removed and counts as
empty. A record whose file could not be written stays in the history all the same.
-/

namespace FormulaCheck

structure HistoryStore where
  path? : Option String
  history : History
deriving Repr, DecidableEq, Inhabited

structure HistoryError where
  path : String
  cause : FileError
deriving Repr, DecidableEq, Inhabited

def HistoryError.message (e : HistoryError) : String :=
  s!"cannot access history file {e.path}: {e.cause.message}"

namespace HistoryStore

variable {m : Type → Type} [Monad m]

def inMemory (limit : Nat) : HistoryStore := ⟨none, .empty limit⟩

def initial : HistoryStore := inMemory History.defaultLimit

/-- The records in the file at a path. A file that is not there has none. -/
def load (files : Files m) (path : String) : m (Except HistoryError (List Record)) := do
  match ← files.read path with
  | .ok text =>
    match Record.ofFileText? text with
    | some records => return .ok records
    | none =>
      let _ ← files.remove path
      return .ok []
  | .error .notFound => return .ok []
  | .error cause => return .error ⟨path, cause⟩

def openFile (files : Files m) (path : String) (limit : Nat) :
    m (Except HistoryError HistoryStore) := do
  match ← load files path with
  | .ok records => return .ok ⟨some path, .ofRecords limit records⟩
  | .error e => return .error e

def save (files : Files m) (store : HistoryStore) : m (Except HistoryError Unit) := do
  match store.path? with
  | none => return .ok ()
  | some path =>
    match ← files.write path (Record.fileText store.history.records) with
    | .ok () => return .ok ()
    | .error cause => return .error ⟨path, cause⟩

def add (files : Files m) (store : HistoryStore) (timestamp : Nat) (input : String)
    (summary : Summary) : m (Except HistoryError Record × HistoryStore) := do
  let record := store.history.newRecord timestamp input summary
  let store := { store with history := store.history.push record }
  match ← store.save files with
  | .ok () => return (.ok record, store)
  | .error e => return (.error e, store)

def clear (files : Files m) (store : HistoryStore) :
    m (Except HistoryError Unit × HistoryStore) := do
  let cleared := { store with history := store.history.clear }
  match store.path? with
  | none => return (.ok (), cleared)
  | some path =>
    match ← files.remove path with
    | .ok () | .error .notFound => return (.ok (), cleared)
    | .error cause => return (.error ⟨path, cause⟩, cleared)

end HistoryStore

end FormulaCheck
