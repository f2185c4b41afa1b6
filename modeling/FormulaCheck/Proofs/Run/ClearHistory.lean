import FormulaCheck.Proofs.HistoryStore
import FormulaCheck.Run

/-!
# Runs that clear the history

A run that clears the history removes the file of the history if it holds a text, be it one of
records or not. A file that holds no text cannot be opened: the run goes on with a history in
memory, says that it is cleared, and leaves the file (`run_clearHistory`).
-/

namespace FormulaCheck

-- ---------------------------------------------------------------------------
-- Command lines
-- ---------------------------------------------------------------------------

theorem CommandLine.noHistory_of_clearHistory (h : read arguments = .ok o)
    (hclear : o.clearHistory = true) : o.noHistory = false := by
  obtain ⟨g, -, hoptions⟩ := bind_eq_ok_iff.mp h
  unfold Given.options at hoptions
  split at hoptions
  · cases hoptions
  · next hconflict =>
    cases hoptions
    simp_all

namespace Run

variable {s : Surroundings (StateM Folder)} {o : Options} {f f' g : Folder}

/-- The folder once the log file is there, if options ask for one. -/
def withLogFile (f : Folder) (o : Options) : Except FileError Folder :=
  match o.logFile? with
  | none => .ok f
  | some path => f.write path ""

theorem load_of_legible (h : f.Legible path) : ∃ records g,
    HistoryStore.load Folder.files path f = (.ok records, g) ∧ g.Legible path := by
  obtain hmissing | ⟨text, htext⟩ := id h
  · exact ⟨[], f, HistoryStore.load_of_missing (congrArg (·, f) hmissing), h⟩
  · have hread : Folder.files.read path f = (.ok text, f) := congrArg (·, f) htext
    cases hrecords : Record.ofFileText? text with
    | some records => exact ⟨records, f, HistoryStore.load_of_records hread hrecords, h⟩
    | none =>
      obtain ⟨g, hremove, hg⟩ := h.remove
      have hload := HistoryStore.load_of_corrupt hread hrecords
      obtain hremove | hremove := hremove <;>
        exact ⟨[], g, by rw [hload, hremove], .inl hg⟩

theorem load_of_not_legible (h : ¬ f.Legible path) :
    ∃ e, HistoryStore.load Folder.files path f = (.error e, f) := by
  cases hread : f.read path with
  | ok text => exact absurd (.inr ⟨text, hread⟩) h
  | error cause =>
    have hcause : cause ≠ .notFound := fun hcause => h (.inl (hcause ▸ hread))
    exact ⟨_, HistoryStore.load_of_error (congrArg (·, f) hread) hcause⟩

theorem openHistory_of_legible (hfiles : s.files = Folder.files) (hwanted : o.noHistory = false)
    (h : f.Legible o.history) : ∃ store g, openHistory s o f = (some store, g) ∧
      store.path? = some o.history ∧ g.Legible o.history := by
  obtain ⟨records, g, hload, hg⟩ := load_of_legible h
  refine ⟨⟨some o.history, .ofRecords o.historyLimit records⟩, g, ?_, rfl, hg⟩
  simp [openHistory, hwanted, hfiles, HistoryStore.openFile_eq, hload, Except.map]

theorem openHistory_of_not_legible (hfiles : s.files = Folder.files)
    (hwanted : o.noHistory = false) (h : ¬ f.Legible o.history) :
    openHistory s o f = (some (.inMemory o.historyLimit), f) := by
  obtain ⟨e, hload⟩ := load_of_not_legible h
  simp [openHistory, hwanted, hfiles, HistoryStore.openFile_eq, hload, Except.map]

theorem clearHistory_of_legible (hfiles : s.files = Folder.files)
    (hpath : store.path? = some path) (h : f.Legible path) :
    ∃ g, clearHistory s (some store) f = (success "History cleared.\n", g) ∧
      g.read path = .error .notFound := by
  obtain ⟨g, hremove, hg⟩ := h.remove
  have hclear := @HistoryStore.clear_eq _ Folder.files path store f hpath
  obtain hremove | hremove := hremove <;>
    exact ⟨g, by simp [clearHistory, hfiles, hclear, hremove, Except.mapError], hg⟩

theorem perform_clearHistory (hfiles : s.files = Folder.files) (hwanted : o.noHistory = false)
    (hclear : o.clearHistory = true) : ∃ g, perform s o f = (success "History cleared.\n", g) ∧
      (f.Legible o.history → g.read o.history = .error .notFound) ∧
      (¬ f.Legible o.history → g = f) := by
  by_cases h : f.Legible o.history
  · obtain ⟨store, g, hopen, hpath, hg⟩ := openHistory_of_legible hfiles hwanted h
    obtain ⟨g', hcleared, hg'⟩ := clearHistory_of_legible hfiles hpath hg
    exact ⟨g', by simp [perform, hopen, hclear, hcleared], fun _ => hg', absurd h⟩
  · have hopen := openHistory_of_not_legible hfiles hwanted h
    refine ⟨f, ?_, fun h' => absurd h' h, fun _ => rfl⟩
    simp [perform, hopen, hclear, clearHistory, HistoryStore.clear, HistoryStore.inMemory]

theorem perform_of_withLog (hfiles : s.files = Folder.files)
    (h : withLog s o f = (outcome, f')) (hcode : outcome.code = 0) :
    ∃ g, withLogFile f o = .ok g ∧ perform s o g = (outcome, f') := by
  unfold withLog at h
  unfold withLogFile
  cases hlog : o.logFile? with
  | none => exact ⟨f, rfl, by simpa [hlog] using h⟩
  | some path =>
    simp only [hlog, hfiles, Folder.files, Folder.change, StateM.bind_apply] at h
    cases hwrite : f.write path "" with
    | error e =>
      simp only [hwrite] at h
      cases h
      cases hcode
    | ok g => exact ⟨g, hwrite, by simpa [hwrite] using h⟩

/-- After a run that clears the history and succeeds, a file is left at its path just if it was
there with no text in it. -/
theorem run_clearHistory (hfiles : s.files = Folder.files)
    (hread : CommandLine.read arguments = .ok o) (hclear : o.clearHistory = true)
    (hrun : run s arguments f = (outcome, f')) (hcode : outcome.code = 0) :
    ∃ g, withLogFile f o = .ok g ∧ ∀ content, f'.lookup o.history = .ok (.file content) ↔
      g.lookup o.history = .ok (.file content) ∧ ∃ bytes, content = .bytes bytes := by
  have hwanted := CommandLine.noHistory_of_clearHistory hread hclear
  rw [run, hread] at hrun
  obtain ⟨g, hg, hperform⟩ := perform_of_withLog hfiles hrun hcode
  obtain ⟨g', hcleared, hlegible, hillegible⟩ := perform_clearHistory hfiles hwanted hclear
  cases hperform.symm.trans hcleared
  refine ⟨g, hg, fun content => ?_⟩
  by_cases h : g.Legible o.history
  · have hmissing := Folder.read_eq_notFound_iff.mp (hlegible h)
    refine iff_of_false (by simp [hmissing]) ?_
    rintro ⟨hlookup, bytes, rfl⟩
    obtain ⟨text, htext⟩ := (Folder.legible_iff_of_lookup hlookup).mp h
    cases htext
  · rw [hillegible h, iff_self_and]
    intro hlookup
    cases content with
    | text text => exact absurd ((Folder.legible_iff_of_lookup hlookup).mpr ⟨text, rfl⟩) h
    | bytes bytes => exact ⟨bytes, rfl⟩

def bareSurroundings : Surroundings (StateM Folder) where
  files := Folder.files
  input := pure (.ok "")
  time := pure 0
  inputAtTerminal := false
  atTerminal := false

/-- A text is removed also if it is not one of records. -/
theorem run_clearHistory_text : ∃ o outcome f',
    CommandLine.read ["--clear-history", "--history=h.json"] = .ok o ∧ o.clearHistory = true ∧
    run bareSurroundings ["--clear-history", "--history=h.json"]
      ⟨[(["h.json"], .file (.text "1 + 2"))]⟩ = (outcome, f') ∧ outcome.code = 0 ∧
    ∀ content, f'.lookup o.history ≠ .ok (.file content) := by
  refine ⟨_, _, _, rfl, rfl, rfl, rfl, fun content hleft => ?_⟩
  obtain ⟨g, hg, hiff⟩ := @run_clearHistory bareSurroundings _
    ⟨[(["h.json"], .file (.text "1 + 2"))]⟩ _ ["--clear-history", "--history=h.json"] _
    rfl rfl rfl rfl rfl
  cases hg
  obtain ⟨hlookup, bytes, rfl⟩ := (hiff content).mp hleft
  cases hlookup

/-- A byte with which no character begins. -/
def loneByte : Content := .bytes ⟨[0xff], by decide⟩

/-- The history is said to be cleared, and its file is still there. -/
theorem run_clearHistory_bytes : ∃ o outcome f',
    CommandLine.read ["--clear-history", "--history=h.json"] = .ok o ∧ o.clearHistory = true ∧
    run bareSurroundings ["--clear-history", "--history=h.json"]
      ⟨[(["h.json"], .file loneByte)]⟩ = (outcome, f') ∧ outcome.code = 0 ∧
    f'.lookup o.history = .ok (.file loneByte) :=
  ⟨_, _, _, rfl, rfl, rfl, rfl, rfl⟩

end Run

end FormulaCheck
