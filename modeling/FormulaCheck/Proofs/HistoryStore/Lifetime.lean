import FormulaCheck.Proofs.History
import FormulaCheck.Proofs.HistoryStore

/-!
# Histories as long as they are in use

A history begins empty, or with the records of a file, and records are added and forgotten from then
on, whatever the clock shows and whether or not its file can be written (`HistoryStore.Lifetime`).
All that time it keeps its limit, the identifiers in it are distinct, and what a new record does to
it is always the same (`HistoryStore.Lifetime.bounded`).
-/

namespace FormulaCheck

namespace History

structure Bounded (h : History) : Prop where
  limit_pos : 1 ≤ h.limit
  length_le : h.records.length ≤ h.limit
  nodup_ids : (h.records.map Record.id).Nodup

/-- What a new record does: it comes first, and what is beyond the limit goes. Its identifier is its
time, alone or with a number, and the search for it takes no more than one candidate for each record
and one more. -/
structure Adds (h : History) (r : Record) (after : History) : Prop where
  limit_eq : after.limit = h.limit
  records_eq : after.records = (r :: h.records).take h.limit
  id_eq : r.id = toString r.timestamp ∨
    ∃ k, 1 ≤ k ∧ k ≤ h.records.length ∧ r.id = s!"{r.timestamp}-{k}"
  search : ∃ found tried, Search (h.records.map Record.id) r.timestamp 0 found tried ∧
    r.id = candidate r.timestamp found ∧ tried ≤ h.records.length + 1

theorem bounded_ofRecords (limit : Nat) {records : List Record}
    (h : (records.map Record.id).Nodup) : (ofRecords limit records).Bounded where
  limit_pos := Nat.le_max_right ..
  length_le := List.length_take_le ..
  nodup_ids := by
    rw [ofRecords, List.map_take]
    exact h.sublist (List.take_sublist ..)

theorem Bounded.push_newRecord (h : Bounded history) (timestamp : Nat) (input : String)
    (summary : Summary) : (history.push (history.newRecord timestamp input summary)).Bounded where
  limit_pos := h.limit_pos
  length_le := List.length_take_le ..
  nodup_ids := history.nodup_ids_push h.nodup_ids timestamp input summary

theorem Bounded.clear (h : Bounded history) : history.clear.Bounded :=
  ⟨h.limit_pos, Nat.zero_le _, .nil⟩

theorem adds_newRecord (h : History) (timestamp : Nat) (input : String) (summary : Summary) :
    h.Adds (h.newRecord timestamp input summary)
      (h.push (h.newRecord timestamp input summary)) := by
  obtain ⟨k, hk, hid, hsearch⟩ := h.exists_search_freeId timestamp
  refine ⟨rfl, rfl, ?_, k, k + 1, hsearch, hid, Nat.succ_le_succ hk⟩
  cases k with
  | zero => exact .inl hid
  | succ k => exact .inr ⟨k + 1, Nat.le_add_left .., hk, hid⟩

end History

namespace HistoryStore

open Folder (unreliableFiles)

def DistinctIds {σ : Type} (files : Files (StateM σ)) (path : String) (s : σ) : Prop :=
  ∀ text records, (files.read path s).1 = .ok text → Record.ofFileText? text = some records →
    (records.map Record.id).Nodup

/-- The histories that there can be with a limit. Any change of a file may fail, and between the
operations anything may happen to the files. -/
inductive Lifetime {σ : Type} (files : Files (StateM σ)) (limit : Nat) : HistoryStore → Prop
  | inMemory : Lifetime files limit (.inMemory limit)
  | opened {path : String} {s : σ} {store : HistoryStore} (hids : DistinctIds files path s)
      (h : (openFile files path limit s).1 = .ok store) : Lifetime files limit store
  | performed {store : HistoryStore} (before : Lifetime files limit store) (operation : Operation)
      (s : σ) : Lifetime files limit (operation.perform files store s).1.2

variable {σ : Type} {files : Files (StateM σ)} {path : String} {limit : Nat}
variable {store : HistoryStore} {s : σ}

theorem DistinctIds.nodup_of_load (hids : DistinctIds files path s)
    (h : (load files path s).1 = .ok records) : (records.map Record.id).Nodup := by
  rcases hread : files.read path s with ⟨cause | text, s'⟩
  · by_cases hcause : cause = .notFound
    · rw [load_of_missing (hcause ▸ hread)] at h
      cases h
      exact .nil
    · rw [load_of_error hread hcause] at h
      cases h
  · cases hrecords : Record.ofFileText? text with
    | none =>
      rw [load_of_corrupt hread hrecords] at h
      cases h
      exact .nil
    | some found =>
      rw [load_of_records hread hrecords] at h
      cases h
      exact hids text _ (by rw [hread]) hrecords

theorem distinctIds_of_records (h : (files.read path s).1 = .ok (Record.fileText records))
    (hrange : ∀ r ∈ records, Record.InRange r) (hids : (records.map Record.id).Nodup) :
    DistinctIds files path s := by
  intro text found htext hfound
  cases h.symm.trans htext
  cases (Record.ofFileText?_fileText hrange).symm.trans hfound
  exact hids

theorem bounded_of_openFile (hids : DistinctIds files path s)
    (h : (openFile files path limit s).1 = .ok store) : store.history.Bounded := by
  rw [openFile_eq] at h
  obtain ⟨records, hload, rfl⟩ := map_eq_ok_iff.mp h
  exact History.bounded_ofRecords limit (hids.nodup_of_load hload)

theorem bounded_apply (h : store.history.Bounded) (operation : Operation) :
    (operation.apply store).history.Bounded := by
  cases operation with
  | add timestamp input summary => exact h.push_newRecord timestamp input summary
  | clear => exact h.clear

theorem Lifetime.history_bounded (h : Lifetime files limit store) : store.history.Bounded := by
  induction h with
  | inMemory => exact History.bounded_ofRecords limit .nil
  | opened hids h => exact bounded_of_openFile hids h
  | performed _ operation s ih =>
    rw [perform_store]
    exact bounded_apply ih operation

theorem Lifetime.limit_eq (h : Lifetime files limit store) :
    store.history.limit = max limit 1 := by
  induction h with
  | inMemory => rfl
  | opened _ h =>
    rw [openFile_eq] at h
    obtain ⟨records, -, rfl⟩ := map_eq_ok_iff.mp h
    rfl
  | performed _ operation s ih =>
    rw [perform_store]
    cases operation <;> exact ih

/-- A history in use keeps its limit and the identifiers in it apart, and what a new record does to
it is the same whether or not the file could be written. -/
theorem Lifetime.bounded (h : Lifetime files limit store) :
    store.history.limit = max limit 1 ∧ store.history.Bounded ∧
      ∀ timestamp input summary s, ∃ r : Record,
        r.timestamp = timestamp ∧ r.input = input ∧ r.summary = summary ∧
        store.history.Adds r (store.add files timestamp input summary s).1.2.history ∧
        ∀ r', (store.add files timestamp input summary s).1.1 = .ok r' → r' = r := by
  refine ⟨h.limit_eq, h.history_bounded, fun timestamp input summary s => ?_⟩
  refine ⟨store.history.newRecord timestamp input summary, rfl, rfl, rfl, ?_, ?_⟩
  · rw [add_eq]
    exact store.history.adds_newRecord timestamp input summary
  · intro r hr
    rw [add_eq] at hr
    obtain ⟨-, -, rfl⟩ := map_eq_ok_iff.mp hr
    rfl

/-- The file has identifiers like those that the search makes, and it cannot be written. -/
theorem Lifetime.bounded_foreign : ∃ store s,
    Lifetime unreliableFiles 2 store ∧ store.history.records.map Record.id = ["5-1", "5"] ∧
    (store.add unreliableFiles 5 "c" ⟨1, 1, 0, 1⟩ s).1.1 = .error ⟨"h.json", Folder.failure⟩ ∧
    store.history.Bounded ∧ ∃ r : Record, r.id = "5-2" ∧
      store.history.Adds r (store.add unreliableFiles 5 "c" ⟨1, 1, 0, 1⟩ s).1.2.history := by
  let held : List Record := [⟨"5-1", "a", 9, ⟨1, 1, 0, 1⟩⟩, ⟨"5", "b", 5, ⟨1, 1, 0, 1⟩⟩]
  let s : Folder × List Bool := (⟨[(["h.json"], .file (.text (Record.fileText held)))]⟩, [true])
  have hread : (unreliableFiles.read "h.json" s).1 = .ok (Record.fileText held) := rfl
  have hrange : ∀ r ∈ held, r.InRange := by
    have hsummary : Summary.InRange ⟨1, 1, 0, 1⟩ := ⟨by decide, by decide, by decide, by decide⟩
    intro r hr
    rcases List.mem_pair.mp hr with rfl | rfl
    · exact ⟨by decide, hsummary⟩
    · exact ⟨by decide, hsummary⟩
  have hids : DistinctIds unreliableFiles "h.json" s :=
    distinctIds_of_records hread hrange (by decide)
  let store : HistoryStore := ⟨some "h.json", .ofRecords 2 held⟩
  have hlife : Lifetime unreliableFiles 2 store :=
    .opened hids (openFile_of_records hread hrange)
  obtain ⟨-, hbounded, hadd⟩ := hlife.bounded
  obtain ⟨r, -, -, -, hadds, -⟩ := hadd 5 "c" ⟨1, 1, 0, 1⟩ s
  have hafter : (store.add unreliableFiles 5 "c" ⟨1, 1, 0, 1⟩ s).1.2.history.records.map Record.id =
      ["5-2", "5-1"] := rfl
  rw [hadds.records_eq] at hafter
  exact ⟨store, s, hlife, rfl, rfl, hbounded, r, (List.cons.inj hafter).1, hadds⟩

end HistoryStore

end FormulaCheck
