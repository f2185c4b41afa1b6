import FormulaCheck.HistoryStore
import FormulaCheck.Proofs.Files
import FormulaCheck.Proofs.Files.Folder
import FormulaCheck.Proofs.Json.Records

/-!
# Histories that are opened again

A history is opened on a file, and records are added and forgotten, where any change of the file may
fail (`HistoryStore.Session`). After every change that succeeded the file holds all of the history,
also the records whose own change failed: opened again, it is the same history
(`HistoryStore.Session.reopens`).
-/

namespace FormulaCheck.HistoryStore

open Folder (unreliableFiles unreliableFiles_keeps)

inductive Operation
  | add (timestamp : Nat) (input : String) (summary : Summary)
  | clear
deriving Repr, DecidableEq, Inhabited

/-- The numbers that an operation stores are those that the program counts with, below `2^64`. -/
def Operation.InRange : Operation → Prop
  | .add timestamp _ summary => timestamp < UInt64.size ∧ summary.InRange
  | .clear => True

def Operation.perform {m : Type → Type} [Monad m] (files : Files m) (store : HistoryStore) :
    Operation → m (Except HistoryError Unit × HistoryStore)
  | .add timestamp input summary => do
    let (result, store) ← store.add files timestamp input summary
    return (result.map fun _ => (), store)
  | .clear => store.clear files

/-- What an operation makes of a history, whether its file follows or not. -/
def Operation.apply (store : HistoryStore) : Operation → HistoryStore
  | .add timestamp input summary =>
    ⟨store.path?, store.history.push (store.history.newRecord timestamp input summary)⟩
  | .clear => ⟨store.path?, store.history.clear⟩

/-- The histories that there can be once one has been opened on a path, each with what surrounds it
then. Any of the operations on the way may have failed. -/
inductive Session {σ : Type} (files : Files (StateM σ)) (path : String) (limit : Nat) :
    HistoryStore → σ → Prop
  | opened {s₀ s : σ} {store : HistoryStore} (h : openFile files path limit s₀ = (.ok store, s)) :
      Session files path limit store s
  | performed {s s' : σ} {store store' : HistoryStore} {operation : Operation}
      {result : Except HistoryError Unit} (before : Session files path limit store s)
      (hrange : operation.InRange)
      (h : operation.perform files store s = ((result, store'), s')) :
      Session files path limit store' s'

variable {σ : Type} {files : Files (StateM σ)} {path : String} {limit : Nat}
variable {store store' : HistoryStore} {s s' : σ} {operation : Operation}

-- ---------------------------------------------------------------------------
-- What each function does
-- ---------------------------------------------------------------------------

theorem load_of_records (h : files.read path s = (.ok text, s'))
    (hrecords : Record.ofFileText? text = some records) :
    load files path s = (.ok records, s') := by
  simp [load, h, hrecords]

theorem load_of_corrupt (h : files.read path s = (.ok text, s'))
    (hrecords : Record.ofFileText? text = none) :
    load files path s = (.ok [], (files.remove path s').2) := by
  simp [load, h, hrecords]

theorem load_of_missing (h : files.read path s = (.error .notFound, s')) :
    load files path s = (.ok [], s') := by
  simp [load, h]

theorem load_of_error (h : files.read path s = (.error cause, s')) (hcause : cause ≠ .notFound) :
    load files path s = (.error ⟨path, cause⟩, s') := by
  simp [load, h]

theorem openFile_eq : openFile files path limit s =
    ((load files path s).1.map fun records => ⟨some path, .ofRecords limit records⟩,
      (load files path s).2) := by
  rcases hload : load files path s with ⟨_ | records, s'⟩ <;> simp [openFile, hload, Except.map]

theorem save_eq (hpath : store.path? = some path) : store.save files s =
    let written := files.write path (Record.fileText store.history.records) s
    (written.1.mapError fun cause => ⟨path, cause⟩, written.2) := by
  rcases hwrite : files.write path (Record.fileText store.history.records) s with ⟨_ | _, s'⟩ <;>
    simp [save, hpath, hwrite, Except.mapError]

theorem add_eq : store.add files timestamp input summary s =
    let added := (Operation.add timestamp input summary).apply store
    (((added.save files s).1.map fun _ => store.history.newRecord timestamp input summary, added),
      (added.save files s).2) := by
  rcases hsave : save files ((Operation.add timestamp input summary).apply store) s with ⟨_ | _, s'⟩
  all_goals
    simp only [Operation.apply] at hsave
    simp [add, Operation.apply, hsave, Except.map]

theorem perform_add :
    (Operation.add timestamp input summary).perform files store s =
      let added := (Operation.add timestamp input summary).apply store
      (((added.save files s).1, added), (added.save files s).2) := by
  rcases hsave : save files ((Operation.add timestamp input summary).apply store) s with ⟨_ | _, s'⟩
  all_goals simp [Operation.perform, add_eq, hsave, Except.map]

theorem clear_eq (hpath : store.path? = some path) : store.clear files s =
    let removed := files.remove path s
    ((if removed.1 = .error .notFound then .ok ()
      else removed.1.mapError fun cause => ⟨path, cause⟩, Operation.clear.apply store),
      removed.2) := by
  rcases hremove : files.remove path s with ⟨cause | _, s'⟩
  · by_cases hcause : cause = .notFound <;>
      simp [clear, hpath, hremove, Operation.apply, Except.mapError, hcause]
  · simp [clear, hpath, hremove, Operation.apply, Except.mapError]

theorem perform_store : (operation.perform files store s).1.2 = operation.apply store := by
  cases operation with
  | add timestamp input summary => rw [perform_add]
  | clear =>
    cases hpath : store.path? with
    | none => simp [Operation.perform, clear, Operation.apply, hpath]
    | some path => simp only [Operation.perform, clear_eq hpath]

theorem eq_apply_of_perform (h : operation.perform files store s = ((result, store'), s')) :
    store' = operation.apply store := by
  have hstore : (operation.perform files store s).1.2 = operation.apply store := perform_store
  rw [← hstore, h]

-- ---------------------------------------------------------------------------
-- What stays the same in a session
-- ---------------------------------------------------------------------------

/-- A history on a path that loses nothing when it is stored and opened again. -/
structure Sound (path : String) (limit : Nat) (store : HistoryStore) : Prop where
  path_eq : store.path? = some path
  limit_eq : store.history.limit = max limit 1
  length_le : store.history.records.length ≤ max limit 1
  inRange : ∀ r ∈ store.history.records, r.InRange

theorem Sound.eq_ofRecords (h : Sound path limit store) :
    store = ⟨some path, .ofRecords limit store.history.records⟩ := by
  obtain ⟨path?, limit', records⟩ := store
  obtain ⟨rfl, rfl, hlength, -⟩ := h
  simp only [History.ofRecords, List.take_of_length_le hlength]

theorem sound_ofRecords (h : ∀ r ∈ records, Record.InRange r) :
    Sound path limit ⟨some path, .ofRecords limit records⟩ where
  path_eq := rfl
  limit_eq := rfl
  length_le := List.length_take_le ..
  inRange r hr := h r (List.mem_of_mem_take hr)

theorem Sound.apply (h : Sound path limit store) (hrange : operation.InRange) :
    Sound path limit (operation.apply store) := by
  cases operation with
  | add timestamp input summary =>
    refine ⟨h.path_eq, h.limit_eq, h.limit_eq ▸ List.length_take_le .., fun r hr => ?_⟩
    obtain rfl | hr := List.mem_cons.mp (List.mem_of_mem_take hr)
    · exact ⟨hrange.1, hrange.2⟩
    · exact h.inRange r hr
  | clear => exact ⟨h.path_eq, h.limit_eq, Nat.zero_le _, by simp [Operation.apply, History.clear]⟩

theorem inRange_of_load (h : (load files path s).1 = .ok records) : ∀ r ∈ records, r.InRange := by
  rcases hread : files.read path s with ⟨cause | text, s'⟩
  · by_cases hcause : cause = .notFound
    · simp only [load_of_missing (hcause ▸ hread), Except.ok.injEq] at h
      simp [← h]
    · simp [load_of_error hread hcause] at h
  · cases hrecords : Record.ofFileText? text with
    | none =>
      simp only [load_of_corrupt hread hrecords, Except.ok.injEq] at h
      simp [← h]
    | some found =>
      simp only [load_of_records hread hrecords, Except.ok.injEq] at h
      exact h ▸ Record.inRange_of_ofFileText? hrecords

theorem sound_of_openFile (h : (openFile files path limit s).1 = .ok store) :
    Sound path limit store := by
  rw [openFile_eq] at h
  obtain ⟨records, hload, rfl⟩ := map_eq_ok_iff.mp h
  exact sound_ofRecords (inRange_of_load hload)

theorem Session.sound (h : Session files path limit store s) : Sound path limit store := by
  induction h with
  | opened h => exact sound_of_openFile (Prod.ext_iff.mp h).1
  | performed _ hrange hperform ih => exact eq_apply_of_perform hperform ▸ ih.apply hrange

-- ---------------------------------------------------------------------------
-- Opened again
-- ---------------------------------------------------------------------------

theorem openFile_of_records (h : (files.read path s).1 = .ok (Record.fileText records))
    (hrange : ∀ r ∈ records, Record.InRange r) :
    (openFile files path limit s).1 = .ok ⟨some path, .ofRecords limit records⟩ := by
  have hload := load_of_records (Prod.ext h rfl) (Record.ofFileText?_fileText hrange)
  rw [openFile_eq, hload]
  rfl

theorem openFile_of_missing (h : (files.read path s).1 = .error .notFound) :
    (openFile files path limit s).1 = .ok ⟨some path, .ofRecords limit []⟩ := by
  have hload := load_of_missing (Prod.ext h rfl)
  rw [openFile_eq, hload]
  rfl

theorem read_of_save (hfiles : files.Keeps path) (hpath : store.path? = some path)
    (h : (store.save files s).1 = .ok ()) : (files.read path (store.save files s).2).1 =
      .ok (Record.fileText store.history.records) := by
  rw [save_eq hpath] at h ⊢
  exact hfiles.read_of_write _ _ (mapError_eq_ok_iff.mp h)

theorem read_of_clear (hfiles : files.Keeps path) (hpath : store.path? = some path)
    (h : (store.clear files s).1.1 = .ok ()) :
    (files.read path (store.clear files s).2).1 = .error .notFound := by
  simp only [clear_eq hpath] at h ⊢
  by_cases hmissing : (files.remove path s).1 = .error .notFound
  · exact hfiles.read_of_missing _ hmissing
  · rw [if_neg hmissing] at h
    exact hfiles.read_of_remove _ (mapError_eq_ok_iff.mp h)

/-- A change that succeeded leaves a file that is opened as the history that it leaves. -/
theorem Sound.openFile_perform (h : Sound path limit store) (hfiles : files.Keeps path)
    (hrange : operation.InRange) (hok : (operation.perform files store s).1.1 = .ok ()) :
    (openFile files path limit (operation.perform files store s).2).1 =
      .ok (operation.apply store) := by
  have happly := h.apply hrange
  rw [happly.eq_ofRecords]
  cases operation with
  | add timestamp input summary =>
    rw [perform_add] at hok ⊢
    exact openFile_of_records (read_of_save hfiles happly.path_eq hok) happly.inRange
  | clear => exact openFile_of_missing (read_of_clear hfiles h.path_eq hok)

/-- After a change that succeeded the history is the one that its file holds. -/
theorem Session.reopens (hfiles : files.Keeps path) (hsession : Session files path limit store s)
    (hrange : operation.InRange)
    (hperform : operation.perform files store s = ((.ok (), store'), s')) :
    (openFile files path limit s').1 = .ok store' := by
  have hsound := hsession.sound
  have hok : (operation.perform files store s).1.1 = .ok () := by rw [hperform]
  have hreopens := hsound.openFile_perform hfiles hrange hok
  rw [hperform] at hreopens
  rw [hreopens, eq_apply_of_perform hperform]

/-- A record whose change fails is there when the next change has succeeded. -/
theorem Session.reopens_after_failure : ∃ store s store' s',
    Session unreliableFiles "h.json" 20 store s ∧
    (Operation.add 7 "b" ⟨1, 1, 0, 1⟩).perform unreliableFiles store s = ((.ok (), store'), s') ∧
    store'.history.records.map Record.input = ["b", "a"] ∧
    (openFile unreliableFiles "h.json" 20 s').1 = .ok store' := by
  let first : Operation := .add 5 "a" ⟨1, 1, 0, 1⟩
  have hfirst : first.InRange := ⟨by decide, by decide, by decide, by decide, by decide⟩
  have hsecond : (Operation.add 7 "b" ⟨1, 1, 0, 1⟩).InRange :=
    ⟨by decide, by decide, by decide, by decide, by decide⟩
  have hopened : Session unreliableFiles "h.json" 20 _ _ :=
    .opened (rfl : openFile unreliableFiles "h.json" 20 (Folder.empty, [true]) = _)
  have hfailed := hopened.performed hfirst
    (rfl : first.perform unreliableFiles _ _ = ((.error ⟨"h.json", Folder.failure⟩, _), _))
  exact ⟨_, _, _, _, hfailed, rfl, rfl, hfailed.reopens unreliableFiles_keeps hsecond rfl⟩

end FormulaCheck.HistoryStore
