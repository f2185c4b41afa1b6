import FormulaCheck.Files.Folder
import FormulaCheck.Proofs.Files

/-!
# What changes of a folder do

A path leads to the same place as long as the folders on the way stay (`FoldersIn.resolve`). So a
text that is written is read back (`read_of_write`), a file that is removed is no longer there
(`read_of_remove`), and only what is a file can be removed (`remove_of_lookup`). Writing elsewhere
does not touch a file (`read_of_write_apart`). Bytes are held as a text exactly if they are those of
the text (`Content.ofBytes_eq_text_iff`).
-/

namespace FormulaCheck

namespace Content

@[simp] theorem read_text (s : String) : (Content.text s).read = .ok s := rfl

@[simp] theorem read_bytes (b : Undecodable) : (Content.bytes b).read = .error .notText := rfl

theorem ofBytes_eq_text_iff : ofBytes data = .text s ↔ data = s.toUTF8 := by
  constructor
  · intro h
    unfold ofBytes at h
    split at h <;> cases h
    rfl
  · rintro rfl
    exact dif_pos s.isValidUTF8

end Content

namespace Folder

variable {f g : Folder} {place there : Names} {path : String}

-- ---------------------------------------------------------------------------
-- Entries
-- ---------------------------------------------------------------------------

theorem isAround_eq_false (h : f.entry? place ≠ some .folder) : isAround place = false := by
  unfold entry? at h
  split at h
  · exact absurd rfl h
  · next hout => simpa using hout

theorem find?_filter_place (entries : List (Names × Entry)) :
    (entries.filter (·.1 != place)).find? (·.1 == there) =
      if there = place then none else entries.find? (·.1 == there) := by
  rw [List.find?_filter]
  by_cases h : there = place
  · simp [h]
  · rw [if_neg h]
    congr
    funext e
    by_cases he : e.1 = there <;> simp [he, h]

theorem entry?_erase (hplace : isAround place = false) :
    Folder.entry? (f.erase place) there = if there = place then none else f.entry? there := by
  unfold entry? erase
  rw [find?_filter_place]
  by_cases h : there = place <;> simp [h, hplace]

theorem entry?_insert (hplace : isAround place = false) :
    Folder.entry? (f.insert place e) there = if there = place then some e else f.entry? there := by
  unfold entry? insert
  rw [List.find?_append, find?_filter_place]
  by_cases h : there = place
  · simp [h, hplace]
  · simp [h, Ne.symm h]

-- ---------------------------------------------------------------------------
-- Where a path leads
-- ---------------------------------------------------------------------------

def FoldersIn (f g : Folder) : Prop :=
  ∀ place, f.entry? place = some .folder → g.entry? place = some .folder

theorem enter_eq_ok_iff : f.enter place name = .ok there ↔
    next place name = .ok there ∧ f.entry? there = some .folder := by
  simp only [enter, bind_eq_ok_iff]
  constructor
  · rintro ⟨a, hnext, h⟩
    split at h
    · next hentry => cases h; exact ⟨hnext, hentry⟩
    · cases h
    · cases h
  · rintro ⟨hnext, hentry⟩
    exact ⟨there, hnext, by simp [hentry]⟩

theorem FoldersIn.enter (h : f.FoldersIn g) (hf : f.enter place name = .ok there) :
    g.enter place name = .ok there := by
  rw [enter_eq_ok_iff] at hf ⊢
  exact ⟨hf.1, h there hf.2⟩

theorem FoldersIn.follow (h : f.FoldersIn g) (hf : f.follow path names = .ok there) :
    g.follow path names = .ok there := by
  unfold Folder.follow at hf ⊢
  split
  · next hflaw => simp [hflaw] at hf
  · next hflaw =>
    simp only [hflaw] at hf
    generalize start path = place at hf ⊢
    induction names generalizing place with
    | nil => exact hf
    | cons name names ih =>
      simp only [List.foldlM_cons, bind_eq_ok_iff] at hf ⊢
      obtain ⟨next, hnext, hf⟩ := hf
      exact ⟨next, h.enter hnext, ih next hf⟩

theorem FoldersIn.resolve (h : f.FoldersIn g) (hf : f.resolve path = .ok place) :
    g.resolve path = .ok place := by
  simp only [Folder.resolve, bind_eq_ok_iff] at hf ⊢
  obtain ⟨around, hfollow, hnext⟩ := hf
  exact ⟨around, h.follow hfollow, hnext⟩

theorem foldersIn_of_eq_elsewhere (h : f.entry? place ≠ some .folder)
    (hsame : ∀ there, there ≠ place → g.entry? there = f.entry? there) : f.FoldersIn g := by
  intro there hthere
  have hne : there ≠ place := fun heq => h (heq ▸ hthere)
  exact (hsame there hne).trans hthere

theorem foldersIn_insert (h : f.entry? place ≠ some .folder) : f.FoldersIn (f.insert place e) :=
  foldersIn_of_eq_elsewhere h fun there hne => by
    rw [entry?_insert (isAround_eq_false h), if_neg hne]

theorem foldersIn_erase (h : f.entry? place ≠ some .folder) : f.FoldersIn (f.erase place) :=
  foldersIn_of_eq_elsewhere h fun there hne => by
    rw [entry?_erase (isAround_eq_false h), if_neg hne]

-- ---------------------------------------------------------------------------
-- Reading, writing and removing
-- ---------------------------------------------------------------------------

theorem lookup_eq_ok_iff :
    f.lookup path = .ok e ↔ ∃ place, f.resolve path = .ok place ∧ f.entry? place = some e := by
  simp only [lookup, bind_eq_ok_iff]
  refine exists_congr fun place => and_congr_right fun _ => ?_
  cases f.entry? place <;> simp

theorem lookup_eq_notFound (hresolve : f.resolve path = .ok place) (h : f.entry? place = none) :
    f.lookup path = .error .notFound := by
  simp [lookup, hresolve, h, bind, Except.bind]

theorem write_eq_ok_iff : f.write path text = .ok g ↔ path.toList.getLast? ≠ some '/' ∧
    ∃ place, f.resolve path = .ok place ∧ f.entry? place ≠ some .folder ∧
      g = f.insert place (.file (.text text)) := by
  unfold write
  split
  · next hslash => simp [hslash, bind_eq_ok_iff]
  · next hslash =>
    simp only [bind_eq_ok_iff, ne_eq, hslash, not_false_eq_true, true_and]
    refine exists_congr fun place => and_congr_right fun _ => ?_
    split
    · next hentry => simp [hentry]
    · next hentry => simp [hentry, eq_comm]
    · next hentry => simp [hentry, eq_comm]

theorem remove_eq_ok_iff : f.remove path = .ok g ↔ ∃ place content,
    f.resolve path = .ok place ∧ f.entry? place = some (.file content) ∧ g = f.erase place := by
  simp only [remove, bind_eq_ok_iff, lookup_eq_ok_iff]
  constructor
  · rintro ⟨e, ⟨place, hresolve, hentry⟩, h⟩
    split at h
    · next content =>
      obtain ⟨place', hresolve', h⟩ := bind_eq_ok_iff.mp h
      cases hresolve.symm.trans hresolve'
      cases h
      exact ⟨place, content, hresolve, hentry, rfl⟩
    · cases h
  · rintro ⟨place, content, hresolve, hentry, rfl⟩
    exact ⟨_, ⟨place, hresolve, hentry⟩, by simp [hresolve, bind, Except.bind]⟩

theorem lookup_of_write (h : f.write path text = .ok g) :
    g.lookup path = .ok (.file (.text text)) := by
  obtain ⟨-, place, hresolve, hentry, rfl⟩ := write_eq_ok_iff.mp h
  refine lookup_eq_ok_iff.mpr ⟨place, (foldersIn_insert hentry).resolve hresolve, ?_⟩
  simp [entry?_insert (isAround_eq_false hentry)]

theorem read_of_write (h : f.write path text = .ok g) : g.read path = .ok text := by
  simp [read, lookup_of_write h, bind, Except.bind]

theorem lookup_of_remove (h : f.remove path = .ok g) : g.lookup path = .error .notFound := by
  obtain ⟨place, content, hresolve, hentry, rfl⟩ := remove_eq_ok_iff.mp h
  have hfile : f.entry? place ≠ some .folder := by simp [hentry]
  refine lookup_eq_notFound ((foldersIn_erase hfile).resolve hresolve) ?_
  simp [entry?_erase (isAround_eq_false hfile)]

theorem read_of_remove (h : f.remove path = .ok g) : g.read path = .error .notFound := by
  simp [read, lookup_of_remove h, bind, Except.bind]

theorem remove_of_lookup (h : f.lookup path = .ok (.file content)) :
    ∃ g, f.remove path = .ok g := by
  obtain ⟨place, hresolve, hentry⟩ := lookup_eq_ok_iff.mp h
  exact ⟨_, remove_eq_ok_iff.mpr ⟨place, content, hresolve, hentry, rfl⟩⟩

theorem read_of_remove_eq_notFound (h : f.remove path = .error .notFound) :
    f.read path = .error .notFound := by
  cases hlookup : f.lookup path with
  | error e => simpa [remove, read, hlookup, bind, Except.bind] using h
  | ok e =>
    cases e with
    | folder => simp [remove, hlookup, bind, Except.bind] at h
    | file content =>
      obtain ⟨g, hg⟩ := remove_of_lookup hlookup
      simp [hg] at h

theorem read_eq_ok_iff : f.read path = .ok text ↔ f.lookup path = .ok (.file (.text text)) := by
  simp only [read, bind_eq_ok_iff]
  constructor
  · rintro ⟨e, hlookup, h⟩
    rcases e with ⟨_ | _⟩ | _ <;> cases h
    exact hlookup
  · exact fun hlookup => ⟨_, hlookup, rfl⟩

theorem read_eq_notFound_iff :
    f.read path = .error .notFound ↔ f.lookup path = .error .notFound := by
  cases hlookup : f.lookup path with
  | error e => simp [read, hlookup, bind, Except.bind]
  | ok e => rcases e with ⟨_ | _⟩ | _ <;> simp [read, hlookup, bind, Except.bind]

/-- There is a text at a path, or no file. -/
def Legible (f : Folder) (path : String) : Prop :=
  f.read path = .error .notFound ∨ ∃ text, f.read path = .ok text

theorem legible_iff_of_lookup (h : f.lookup path = .ok (.file content)) :
    f.Legible path ↔ ∃ text, content = .text text := by
  cases content <;> simp [Legible, read, h, bind, Except.bind]

theorem Legible.remove (h : f.Legible path) :
    ∃ g, (files.remove path f = (.ok (), g) ∨ files.remove path f = (.error .notFound, g)) ∧
      g.read path = .error .notFound := by
  obtain hmissing | ⟨text, htext⟩ := h
  · have hremove : f.remove path = .error .notFound := by
      simp [Folder.remove, read_eq_notFound_iff.mp hmissing, bind, Except.bind]
    exact ⟨f, .inr (by simp [files, change, hremove]), hmissing⟩
  · obtain ⟨g, hremove⟩ := remove_of_lookup (read_eq_ok_iff.mp htext)
    exact ⟨g, .inl (by simp [files, change, hremove]), read_of_remove hremove⟩

-- ---------------------------------------------------------------------------
-- Writing elsewhere
-- ---------------------------------------------------------------------------

def Writable (f : Folder) (path : String) : Prop := ∃ g, f.write path "" = .ok g

def Apart (f : Folder) (path other : String) : Prop :=
  ∀ place, f.resolve path = .ok place → f.resolve other ≠ .ok place

structure SameFolders (f g : Folder) : Prop where
  left : f.FoldersIn g
  right : g.FoldersIn f

theorem SameFolders.refl (f : Folder) : f.SameFolders f := ⟨fun _ h => h, fun _ h => h⟩

theorem SameFolders.resolve_eq_ok_iff (h : SameFolders f g) :
    g.resolve path = .ok place ↔ f.resolve path = .ok place :=
  ⟨h.right.resolve, h.left.resolve⟩

theorem SameFolders.apart (h : SameFolders f g) (hapart : f.Apart path other) :
    g.Apart path other := fun place hplace hother =>
  hapart place (h.resolve_eq_ok_iff.mp hplace) (h.resolve_eq_ok_iff.mp hother)

theorem writable_iff : f.Writable path ↔ path.toList.getLast? ≠ some '/' ∧
    ∃ place, f.resolve path = .ok place ∧ f.entry? place ≠ some .folder := by
  simp only [Writable, write_eq_ok_iff]
  constructor
  · rintro ⟨-, hslash, place, hresolve, hentry, -⟩
    exact ⟨hslash, place, hresolve, hentry⟩
  · rintro ⟨hslash, place, hresolve, hentry⟩
    exact ⟨_, hslash, place, hresolve, hentry, rfl⟩

theorem SameFolders.writable (h : SameFolders f g) (hpath : f.Writable path) :
    g.Writable path := by
  obtain ⟨hslash, place, hresolve, hentry⟩ := writable_iff.mp hpath
  exact writable_iff.mpr ⟨hslash, place, h.left.resolve hresolve, fun hg => hentry (h.right _ hg)⟩

theorem Writable.exists_write (h : f.Writable path) (text : String) :
    ∃ g, f.write path text = .ok g := by
  obtain ⟨hslash, place, hresolve, hentry⟩ := writable_iff.mp h
  exact ⟨_, write_eq_ok_iff.mpr ⟨hslash, place, hresolve, hentry, rfl⟩⟩

theorem sameFolders_of_write (h : f.write path text = .ok g) : f.SameFolders g := by
  obtain ⟨-, place, -, hentry, rfl⟩ := write_eq_ok_iff.mp h
  refine ⟨foldersIn_insert hentry, fun there hthere => ?_⟩
  rw [entry?_insert (isAround_eq_false hentry)] at hthere
  split at hthere
  · cases hthere
  · exact hthere

theorem read_of_write_apart (h : f.write other text = .ok g) (hpath : f.Writable path)
    (hapart : f.Apart path other) : g.read path = f.read path := by
  obtain ⟨-, place, hresolve, -⟩ := writable_iff.mp hpath
  obtain ⟨-, there, hthere, hentry, rfl⟩ := write_eq_ok_iff.mp h
  have hne : place ≠ there := fun heq => hapart place hresolve (heq ▸ hthere)
  simp only [read, lookup, (foldersIn_insert hentry).resolve hresolve, hresolve,
    entry?_insert (isAround_eq_false hentry), if_neg hne, bind, Except.bind]

theorem files_write_of_ok (h : f.write path text = .ok g) :
    files.write path text f = (.ok (), g) := by
  simp [files, change, h]

theorem files_write_of_error (h : f.write path text = .error e) :
    files.write path text f = (.error e, f) := by
  simp [files, change, h]

theorem sameFolders_files_write (f : Folder) (path text : String) :
    f.SameFolders (files.write path text f).2 := by
  cases h : f.write path text with
  | error e => simpa [files_write_of_error h] using SameFolders.refl f
  | ok g => simpa [files_write_of_ok h] using sameFolders_of_write h

-- ---------------------------------------------------------------------------
-- Changes that may fail
-- ---------------------------------------------------------------------------

def failure : FileError := .other "Input/output error (os error 5)"

def unreliableChange (result : Folder → Except FileError Folder) :
    StateM (Folder × List Bool) (Except FileError Unit) := fun s =>
  if s.2.head? = some true then (.error failure, s.1, s.2.tail)
  else ((change result s.1).1, (change result s.1).2, s.2.tail)

/-- Access to a folder, where it is said of each of the next changes whether it fails. -/
def unreliableFiles : Files (StateM (Folder × List Bool)) where
  read path := fun s => (s.1.read path, s)
  write path text := unreliableChange (·.write path text)
  remove path := unreliableChange (·.remove path)

theorem of_unreliableChange_ok (h : (unreliableChange result s).1 = .ok ()) :
    result s.1 = .ok (unreliableChange result s).2.1 := by
  unfold unreliableChange change at h ⊢
  by_cases hfails : s.2.head? = some true
  · simp [hfails] at h
  · cases hresult : result s.1 with
    | error e => simp [hfails, hresult] at h
    | ok g => simp [hfails]

theorem of_unreliableChange_notFound (h : (unreliableChange result s).1 = .error .notFound) :
    result s.1 = .error .notFound ∧ (unreliableChange result s).2.1 = s.1 := by
  unfold unreliableChange change at h ⊢
  by_cases hfails : s.2.head? = some true
  · simp [hfails, failure] at h
  · cases hresult : result s.1 with
    | error e => simpa [hfails, hresult] using h
    | ok g => simp [hfails, hresult] at h

theorem unreliableFiles_keeps : unreliableFiles.Keeps path where
  read_of_write _ _ h := read_of_write (of_unreliableChange_ok h)
  read_of_remove _ h := read_of_remove (of_unreliableChange_ok h)
  read_of_missing s h := by
    obtain ⟨hmissing, hsame⟩ := of_unreliableChange_notFound h
    exact (congrArg (·.read path) hsame).trans (read_of_remove_eq_notFound hmissing)

end Folder

end FormulaCheck
