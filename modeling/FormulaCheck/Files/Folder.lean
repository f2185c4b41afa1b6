import FormulaCheck.Files
import FormulaCheck.Text.Split

/-!
# Folders

A folder with the files and folders in it, held in memory, and the access to files in it. A path is
followed name by name from the folder on: every name before the last one has to be that of a folder,
`.` stays where one is, and `..` leads back. Outside the folder there is nothing but what is put
there. `Folder.resolve` says where a path leads.
-/

namespace FormulaCheck

inductive Entry
  | file (content : Content)
  | folder
deriving Repr, DecidableEq, Inhabited

/-- The names on the way to a place. Those of a place outside the folder begin with one `..` for each
folder that it is further out, or with `/` if the way begins at the root. -/
abbrev Names := List String

structure Folder where
  entries : List (Names × Entry)
deriving Repr, DecidableEq, Inhabited

namespace Folder

def empty : Folder := ⟨[]⟩

def nameLimit : Nat := 255

def pathLimit : Nat := 4095

/-- The names in a path. Of empty names only one at the end counts, and it stands for `.`. -/
def namesOf (path : String) : Names :=
  let pieces := Text.split '/' path
  let last := pieces.getLastD ""
  pieces.dropLast.filter (· ≠ "") ++ [if last = "" then "." else last]

def start (path : String) : Names := if path.toList.head? = some '/' then ["/"] else []

def isAround (place : Names) : Bool := place == ["/"] || place.all (· == "..")

/-- The place around a place. The root has none around it. -/
def around (place : Names) : Names :=
  if place = ["/"] then place else if isAround place then place ++ [".."] else place.dropLast

def entry? (f : Folder) (place : Names) : Option Entry :=
  if isAround place then some .folder else (f.entries.find? (·.1 == place)).map Prod.snd

def next (place : Names) (name : String) : Except FileError Names :=
  if name = "." then .ok place
  else if name = ".." then .ok (around place)
  else if nameLimit < name.utf8ByteSize then .error .nameTooLong
  else .ok (place ++ [name])

def enter (f : Folder) (place : Names) (name : String) : Except FileError Names := do
  let there ← next place name
  match f.entry? there with
  | some .folder => .ok there
  | some (.file _) => .error .notFolder
  | none => .error .notFound

def flaw? (path : String) : Option FileError :=
  if '\x00' ∈ path.toList then some .nullInName
  else if pathLimit < path.utf8ByteSize then some .nameTooLong
  else none

def follow (f : Folder) (path : String) (names : Names) : Except FileError Names :=
  match flaw? path with
  | some e => .error e
  | none => names.foldlM f.enter (start path)

def resolve (f : Folder) (path : String) : Except FileError Names := do
  let names := namesOf path
  next (← f.follow path names.dropLast) (names.getLastD ".")

def lookup (f : Folder) (path : String) : Except FileError Entry := do
  match f.entry? (← f.resolve path) with
  | some e => .ok e
  | none => .error .notFound

def insert (f : Folder) (place : Names) (e : Entry) : Folder :=
  ⟨f.entries.filter (·.1 != place) ++ [(place, e)]⟩

def erase (f : Folder) (place : Names) : Folder := ⟨f.entries.filter (·.1 != place)⟩

def read (f : Folder) (path : String) : Except FileError String := do
  match ← f.lookup path with
  | .file content => content.read
  | .folder => .error .isFolder

/-- Puts a text into the file at a path. The folder around the file must be there. A path with a
slash at the end is that of a folder, whether there is one or not. -/
def write (f : Folder) (path text : String) : Except FileError Folder := do
  if path.toList.getLast? = some '/' then
    let _ ← f.follow path (namesOf path).dropLast.dropLast
    .error .isFolder
  else
    let place ← f.resolve path
    match f.entry? place with
    | some .folder => .error .isFolder
    | some (.file _) | none => .ok (f.insert place (.file (.text text)))

def remove (f : Folder) (path : String) : Except FileError Folder := do
  match ← f.lookup path with
  | .file _ => .ok (f.erase (← f.resolve path))
  | .folder => .error .isFolder

def change (result : Folder → Except FileError Folder) : StateM Folder (Except FileError Unit) :=
  fun f => match result f with
    | .ok f' => (.ok (), f')
    | .error e => (.error e, f)

def files : Files (StateM Folder) where
  read path := fun f => (f.read path, f)
  write path text := change (·.write path text)
  remove path := change (·.remove path)

/-- The folder with an entry at a path, and with folders on the way to it where there is nothing. -/
def furnish (f : Folder) (path : String) (e : Entry) : Folder :=
  let place := (namesOf path).foldl (fun place name =>
    if name = "." then place else if name = ".." then around place else place ++ [name]) (start path)
  let ways := (List.range place.length).map place.take
  let missing := ways.filter fun way => (f.entry? way).isNone
  (missing.foldl (fun f way => f.insert way .folder) f).insert place e

def list (f : Folder) : List (String × Entry) :=
  (f.entries.filterMap fun (names, e) => match names with
    | [name] => some (name, e)
    | _ => none).mergeSort fun a b => a.1 ≤ b.1

end Folder

end FormulaCheck
