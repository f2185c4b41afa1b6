import FormulaCheck.Proofs.History
import FormulaCheck.Proofs.Run.ClearHistory

/-!
# Histories over many runs

Runs that keep their history in one file, one after the other, each with its own limit and input.
The file always holds records with distinct identifiers, and a run changes them as its options and
its input say (`Reached.records_of_run`): it puts a record in front and cuts to its limit, or leaves
them as they are.

`Stored` says what is true of the file between runs, `Stored.run` what one run makes of it.
-/

namespace FormulaCheck

/-- The records in the file at a path. A file that is not there has none. -/
def Folder.records? (f : Folder) (path : String) : Option (List Record) :=
  match f.read path with
  | .ok text => Record.ofFileText? text
  | .error .notFound => some []
  | .error _ => none

structure Call where
  arguments : List String
  input : Except FileError String
  time : Nat
  inputAtTerminal : Bool
  atTerminal : Bool
deriving Inhabited

namespace Call

def surroundings (c : Call) : Surroundings (StateM Folder) where
  files := Folder.files
  input := pure c.input
  time := pure c.time
  inputAtTerminal := c.inputAtTerminal
  atTerminal := c.atTerminal

def folderAfter (c : Call) (f : Folder) : Folder := (run c.surroundings c.arguments f).2

/-- The run keeps its history in the file at a path. The log is written, it and the report are in
other files, and there is a text to analyse unless the history is listed. The time and the totals
are numbers that the program counts with, below `2^64`. -/
structure KeepsHistory (c : Call) (path : String) (f : Folder) (o : Options) (text : String) :
    Prop where
  read : CommandLine.read c.arguments = .ok o
  path_eq : o.history = path
  noHistory : o.noHistory = false
  clearHistory : o.clearHistory = false
  apart : ∀ other, o.logFile? = some other ∨ o.report? = some other → f.Apart path other
  input : ∃ g, Run.withLogFile f o = .ok g ∧
    (o.listHistory = false → (Run.readInput c.surroundings o g).1 = .ok text)
  time : c.time < UInt64.size
  totals : (Totals.ofAnalyses (analyzeDocument text)).summary.InRange

end Call

/-- The folders that there can be when the program has been run any number of times with its history
at a path, where there was no file at first. In between files elsewhere may be written. -/
inductive Reached (path : String) : Folder → Prop
  | start : f.lookup path = .error .notFound → f.Writable path → Reached path f
  | elsewhere : Reached path f → f.Apart path other → f.write other text = .ok g → Reached path g
  | run {c : Call} : Reached path f → c.KeepsHistory path f o text → Reached path (c.folderAfter f)

structure Stored (path : String) (f : Folder) (records : List Record) : Prop where
  records?_eq : f.records? path = some records
  writable : f.Writable path
  nodup : (records.map Record.id).Nodup

variable {path : String} {f g : Folder} {records : List Record} {c : Call} {o : Options}
variable {text : String}

-- ---------------------------------------------------------------------------
-- The file between runs
-- ---------------------------------------------------------------------------

theorem Stored.elsewhere (h : Stored path f records) (hapart : f.Apart path other)
    (hwrite : f.write other text = .ok g) : Stored path g records where
  records?_eq := by
    rw [Folder.records?, Folder.read_of_write_apart hwrite h.writable hapart]
    exact h.records?_eq
  writable := (Folder.sameFolders_of_write hwrite).writable h.writable
  nodup := h.nodup

theorem Stored.write (h : Stored path f records) (hrange : ∀ r ∈ new, Record.InRange r)
    (hnodup : (new.map Record.id).Nodup) :
    Stored path (Folder.files.write path (Record.fileText new) f).2 new := by
  obtain ⟨g, hwrite⟩ := h.writable.exists_write (Record.fileText new)
  rw [Folder.files_write_of_ok hwrite]
  refine ⟨?_, (Folder.sameFolders_of_write hwrite).writable h.writable, hnodup⟩
  simp [Folder.records?, Folder.read_of_write hwrite, Record.ofFileText?_fileText hrange]

-- ---------------------------------------------------------------------------
-- The steps of a run
-- ---------------------------------------------------------------------------

namespace Run

variable {s : Surroundings (StateM Folder)}

theorem load_of_records? (h : f.records? path = some records) :
    HistoryStore.load Folder.files path f = (.ok records, f) := by
  unfold Folder.records? at h
  split at h
  · next text hread => exact HistoryStore.load_of_records (congrArg (·, f) hread) h
  · next hread =>
    cases h
    exact HistoryStore.load_of_missing (congrArg (·, f) hread)
  · cases h

theorem openHistory_of_records? (hfiles : s.files = Folder.files) (hwanted : o.noHistory = false)
    (h : f.records? o.history = some records) :
    openHistory s o f = (some ⟨some o.history, .ofRecords o.historyLimit records⟩, f) := by
  simp [openHistory, hwanted, hfiles, HistoryStore.openFile_eq, load_of_records? h, Except.map]

theorem readInput_snd (c : Call) (o : Options) (f : Folder) :
    (readInput c.surroundings o f).2 = f := by
  cases hfile : o.file? with
  | none => cases hinput : c.inputAtTerminal <;> simp [readInput, hfile, hinput, Call.surroundings]
  | some path =>
    by_cases hpath : path = "-"
    · simp [readInput, hfile, hpath, Call.surroundings]
    · simp [readInput, hfile, hpath, Call.surroundings, Folder.files]

theorem recordInput_of_blank (h : Text.isBlankText input = true) (totals : Totals) :
    (recordInput s (some store) input totals f).2 = f := by
  simp [recordInput, h]

theorem recordInput_of_not_blank (h : Text.isBlankText input = false)
    (hpath : store.path? = some path) (totals : Totals) :
    (recordInput c.surroundings (some store) input totals f).2 =
      (Folder.files.write path (Record.fileText
        (store.history.push (store.history.newRecord c.time input totals.summary)).records) f).2 := by
  let added := (HistoryStore.Operation.add c.time input totals.summary).apply store
  have hadded : added.path? = some path := hpath
  calc (recordInput c.surroundings (some store) input totals f).2
    _ = (store.add Folder.files c.time input totals.summary f).2 := by
      simp [recordInput, h, Call.surroundings]
    _ = (added.save Folder.files f).2 := congrArg Prod.snd HistoryStore.perform_add
    _ = _ := by rw [HistoryStore.save_eq hadded]; rfl

theorem sameFolders_recordInput (hpath : store.path? = some path) (input : String)
    (totals : Totals) (f : Folder) :
    f.SameFolders (recordInput c.surroundings (some store) input totals f).2 := by
  cases hblank : Text.isBlankText input with
  | true => simpa [recordInput_of_blank hblank] using Folder.SameFolders.refl f
  | false =>
    rw [recordInput_of_not_blank hblank hpath]
    exact Folder.sameFolders_files_write ..

theorem writeReport_snd (s : Surroundings (StateM Folder)) (hfiles : s.files = Folder.files)
    (o : Options) (analyses : List LineAnalysis) (input : String) (f : Folder) :
    (writeReport s o analyses input f).2 = f ∨ ∃ other text, o.report? = some other ∧
      f.write other text = .ok (writeReport s o analyses input f).2 := by
  cases hreport : o.report? with
  | none => exact .inl (by simp [writeReport, hreport])
  | some other =>
    cases hwrite : f.write other (Report.render analyses input) with
    | error e =>
      refine .inl ?_
      simp [writeReport, hreport, hfiles, Report.save, Folder.files_write_of_error hwrite]
    | ok g =>
      refine .inr ⟨other, Report.render analyses input, rfl, ?_⟩
      simpa [writeReport, hreport, hfiles, Report.save, Folder.files_write_of_ok hwrite] using hwrite

theorem analyze_snd (h : (readInput c.surroundings o f).1 = .ok input)
    (store? : Option HistoryStore) : (analyze c.surroundings o store? f).2 =
      (writeReport c.surroundings o (analyzeDocument input) input
        (recordInput c.surroundings store? input (.ofAnalyses (analyzeDocument input)) f).2).2 := by
  have hread : readInput c.surroundings o f = (.ok input, f) := Prod.ext h (readInput_snd c o f)
  simp only [analyze, StateM.bind_apply, hread]
  rcases writeReport c.surroundings o (analyzeDocument input) input
    (recordInput c.surroundings store? input (.ofAnalyses (analyzeDocument input)) f).2
    with ⟨_ | notes, g⟩
  · rfl
  · dsimp only
    split
    · rfl
    · split <;> rfl

theorem perform_listHistory (hfiles : s.files = Folder.files) (hwanted : o.noHistory = false)
    (hclear : o.clearHistory = false) (hlist : o.listHistory = true)
    (h : f.records? o.history = some records) : (perform s o f).2 = f := by
  simp [perform, openHistory_of_records? hfiles hwanted h, hclear, hlist]

theorem perform_analyze (hfiles : s.files = Folder.files) (hwanted : o.noHistory = false)
    (hclear : o.clearHistory = false) (hlist : o.listHistory = false)
    (h : f.records? o.history = some records) : perform s o f =
      analyze s o (some ⟨some o.history, .ofRecords o.historyLimit records⟩) f := by
  simp [perform, openHistory_of_records? hfiles hwanted h, hclear, hlist]

theorem sameFolders_of_withLogFile (h : withLogFile f o = .ok g) : f.SameFolders g := by
  unfold withLogFile at h
  split at h
  · cases h
    exact .refl f
  · exact Folder.sameFolders_of_write h

theorem withLog_of_withLogFile (hfiles : s.files = Folder.files) (h : withLogFile f o = .ok g) :
    withLog s o f = perform s o g := by
  unfold withLogFile at h
  cases hlog : o.logFile? with
  | none =>
    rw [hlog] at h
    cases h
    simp [withLog, hlog]
  | some path =>
    have hwrite : f.write path "" = .ok g := by simpa [hlog] using h
    simp [withLog, hlog, hfiles, Folder.files_write_of_ok hwrite]

end Run

-- ---------------------------------------------------------------------------
-- Whole runs
-- ---------------------------------------------------------------------------

structure Call.Turns (c : Call) (o : Options) (text : String) (before after : List Record) :
    Prop where
  kept : o.listHistory = true ∨ Text.isBlankText text = true → after = before
  recorded : o.listHistory = false → Text.isBlankText text = false → ∃ r : Record,
    r.input = text ∧ r.timestamp = c.time ∧
      r.summary = (Totals.ofAnalyses (analyzeDocument text)).summary ∧
      after = (r :: before).take (max o.historyLimit 1)

theorem Stored.withLogFile (h : Stored path f records) (hc : c.KeepsHistory path f o text)
    (hlog : Run.withLogFile f o = .ok g) : Stored path g records := by
  unfold Run.withLogFile at hlog
  split at hlog
  · cases hlog
    exact h
  · next other hother => exact h.elsewhere (hc.apart other (.inl hother)) hlog

theorem Stored.writeReport (h : Stored path f records)
    (hapart : ∀ other, o.report? = some other → f.Apart path other) (analyses : List LineAnalysis)
    (input : String) : Stored path (Run.writeReport c.surroundings o analyses input f).2 records := by
  rcases Run.writeReport_snd c.surroundings rfl o analyses input f with hsame |
    ⟨other, report, hother, hwrite⟩
  · rwa [hsame]
  · exact h.elsewhere (hapart other hother) hwrite

theorem Stored.inRange (h : Stored path f records) : ∀ r ∈ records, r.InRange :=
  HistoryStore.inRange_of_load (congrArg Prod.fst (Run.load_of_records? h.records?_eq))

theorem Stored.record (h : Stored path f records) (hblank : Text.isBlankText text = false)
    (htime : c.time < UInt64.size) {totals : Totals} (htotals : totals.summary.InRange)
    (limit : Nat) : ∃ r : Record,
      r.input = text ∧ r.timestamp = c.time ∧ r.summary = totals.summary ∧
      Stored path (Run.recordInput c.surroundings (some ⟨some path, .ofRecords limit records⟩) text
        totals f).2 ((r :: records).take (max limit 1)) := by
  let history := History.ofRecords limit records
  have hkept : (history.records.map Record.id).Nodup := by
    rw [show history.records = records.take (max limit 1) from rfl, List.map_take]
    exact h.nodup.sublist (List.take_sublist ..)
  have hnodup := history.nodup_ids_push hkept c.time text totals.summary
  rw [History.records_push_ofRecords] at hnodup
  refine ⟨history.newRecord c.time text totals.summary, rfl, rfl, rfl, ?_⟩
  rw [Run.recordInput_of_not_blank hblank rfl, History.records_push_ofRecords]
  refine h.write (fun r hr => ?_) hnodup
  rcases List.mem_cons.mp (List.mem_of_mem_take hr) with rfl | hr
  · exact ⟨htime, htotals⟩
  · exact h.inRange r hr

theorem Stored.recordInput (h : Stored path f records) (hc : c.KeepsHistory path g o text)
    (hlist : o.listHistory = false) : ∃ after, c.Turns o text records after ∧
      Stored path (Run.recordInput c.surroundings
        (some ⟨some path, .ofRecords o.historyLimit records⟩) text
        (.ofAnalyses (analyzeDocument text)) f).2 after := by
  cases hblank : Text.isBlankText text with
  | true =>
    refine ⟨records, ⟨fun _ => rfl, by simp [hblank]⟩, ?_⟩
    rwa [Run.recordInput_of_blank hblank]
  | false =>
    obtain ⟨r, hinput, htime, htotals, hstored⟩ :=
      h.record hblank hc.time hc.totals o.historyLimit
    refine ⟨_, ⟨?_, fun _ _ => ⟨r, hinput, htime, htotals, rfl⟩⟩, hstored⟩
    simp [hlist, hblank]

theorem Stored.run (h : Stored path f records) (hc : c.KeepsHistory path f o text) :
    ∃ after, c.Turns o text records after ∧ Stored path (c.folderAfter f) after := by
  obtain ⟨g, hlog, hinput⟩ := hc.input
  obtain rfl := hc.path_eq
  have hg := h.withLogFile hc hlog
  have hrun : c.folderAfter f = (Run.perform c.surroundings o g).2 := by
    rw [Call.folderAfter, FormulaCheck.run, hc.read]
    exact congrArg Prod.snd (Run.withLog_of_withLogFile rfl hlog)
  cases hlist : o.listHistory with
  | true =>
    rw [Run.perform_listHistory rfl hc.noHistory hc.clearHistory hlist hg.records?_eq] at hrun
    exact ⟨records, ⟨fun _ => rfl, by simp [hlist]⟩, hrun ▸ hg⟩
  | false =>
    rw [Run.perform_analyze rfl hc.noHistory hc.clearHistory hlist hg.records?_eq,
      Run.analyze_snd (hinput hlist)] at hrun
    obtain ⟨after, hturns, hafter⟩ := hg.recordInput hc hlist
    refine ⟨after, hturns, hrun ▸ hafter.writeReport (fun other hother => ?_) ..⟩
    -- neither the log nor the record makes the path of the report lead to the history
    have hg := (Run.sameFolders_of_withLogFile hlog).apart (hc.apart other (.inr hother))
    exact (Run.sameFolders_recordInput rfl ..).apart hg

theorem Reached.exists_stored (h : Reached path f) : ∃ records, Stored path f records := by
  induction h with
  | start hmissing hwritable =>
    have hread := Folder.read_eq_notFound_iff.mpr hmissing
    exact ⟨[], by rw [Folder.records?, hread], hwritable, List.nodup_nil⟩
  | elsewhere _ hapart hwrite ih =>
    obtain ⟨records, hrecords⟩ := ih
    exact ⟨records, hrecords.elsewhere hapart hwrite⟩
  | run _ hc ih =>
    obtain ⟨records, hrecords⟩ := ih
    obtain ⟨after, -, hafter⟩ := hrecords.run hc
    exact ⟨after, hafter⟩

/-- The file of the history holds records with distinct identifiers all the time, and every run
changes them as it should. -/
theorem Reached.records_of_run (h : Reached path f) : ∃ records,
    f.records? path = some records ∧ (records.map Record.id).Nodup ∧
    ∀ (c : Call) (o : Options) (text : String), c.KeepsHistory path f o text →
      ∃ after, (c.folderAfter f).records? path = some after ∧ c.Turns o text records after := by
  obtain ⟨records, hrecords⟩ := h.exists_stored
  refine ⟨records, hrecords.records?_eq, hrecords.nodup, fun c o text hc => ?_⟩
  obtain ⟨after, hturns, hafter⟩ := hrecords.run hc
  exact ⟨after, hafter.records?_eq, hturns⟩

/-- Of two runs at the same time the second one leaves only its own record. -/
theorem Reached.records_of_run_limited :
    let first : Call := ⟨["--history=h.json"], .ok "a = 1", 5, false, false⟩
    let second : Call := ⟨["--history=h.json", "--history-limit=0"], .ok "2 *", 5, false, false⟩
    let o : Options :=
      ⟨none, false, none, false, "h.json", 0, false, false, false, 0, none⟩
    Reached "h.json" (first.folderAfter .empty) ∧
      second.KeepsHistory "h.json" (first.folderAfter .empty) o "2 *" ∧ ∃ r : Record,
        r.input = "2 *" ∧
        (second.folderAfter (first.folderAfter .empty)).records? "h.json" = some [r] := by
  intro first second o
  have hfirst : first.KeepsHistory "h.json" .empty { o with historyLimit := 20 } "a = 1" :=
    ⟨rfl, rfl, rfl, rfl, by simp [o], ⟨_, rfl, fun _ => rfl⟩, by decide,
      ⟨by decide +kernel, by decide +kernel, by decide +kernel, by decide +kernel⟩⟩
  have hsecond : second.KeepsHistory "h.json" (first.folderAfter .empty) o "2 *" :=
    ⟨rfl, rfl, rfl, rfl, by simp [o], ⟨_, rfl, fun _ => rfl⟩, by decide,
      ⟨by decide +kernel, by decide +kernel, by decide +kernel, by decide +kernel⟩⟩
  have hreached : Reached "h.json" (first.folderAfter .empty) := .run (.start rfl ⟨_, rfl⟩) hfirst
  obtain ⟨records, -, -, hrun⟩ := hreached.records_of_run
  obtain ⟨after, hafter, hturns⟩ := hrun second o "2 *" hsecond
  obtain ⟨r, hinput, -, -, rfl⟩ := hturns.recorded rfl (by decide +kernel)
  exact ⟨hreached, hsecond, r, hinput, hafter⟩

end FormulaCheck
