import FormulaCheck.Viewer

/-!
# The viewer at any time

What happens to a viewer is a sequence of events: a key is pressed, or the viewer is drawn with
panes of some heights.

* `Intact` holds of a viewer at any time: it shows the lines that it was started with, and one of
  them is selected.
* `Settled` holds of it after a draw: the selected line is seen, and no pane is scrolled further
  than to its last full page.
* `after?` is `after` with the numbers of a machine, where a sum that has more than 64 bits and a
  difference below zero give nothing. No event comes to that (`Intact.step?_eq`).
-/

namespace FormulaCheck.Viewer

-- ---------------------------------------------------------------------------
-- Panes
-- ---------------------------------------------------------------------------

def Offsets.of (o : Offsets) : Pane → Nat
  | .lines => o.lines
  | .tokens => o.tokens
  | .symbols => o.symbols
  | .tree => o.tree
  | .diagnostics => o.diagnostics

def rowCount (v : Viewer) : Pane → Nat
  | .lines => v.analyses.length
  | .tokens => (v.current?.map (·.tokens.length)).getD 0
  | .symbols => (v.current?.map (·.symbols.length)).getD 0
  | .tree => (shownOutline v.current? v.style).length
  | .diagnostics => (v.current?.map (·.diagnostics.length)).getD 0

def Layout.visible (l : Layout) : Pane → Nat
  | .lines => visibleRows l.lines.height
  | .tokens => visibleRows l.tokens.height
  | .symbols => visibleSymbolRows l.symbols.height
  | .tree => visibleRows l.tree.height
  | .diagnostics => visibleRows l.diagnostics.height

theorem Layout.visible_pos (l : Layout) (p : Pane) : 0 < l.visible p := by
  cases p <;> exact Nat.lt_of_lt_of_le Nat.one_pos (Nat.le_max_right ..)

theorem rowCount_settle (v : Viewer) (l : Layout) (p : Pane) :
    (v.settle l).rowCount p = v.rowCount p := by
  cases p <;> rfl

theorem offsets_settle (v : Viewer) (l : Layout) (hp : p ≠ .lines) :
    (v.settle l).offsets.of p = settleOffset (v.rowCount p) (l.visible p) (v.offsets.of p) := by
  cases p with
  | lines => exact absurd rfl hp
  | _ => rfl

-- ---------------------------------------------------------------------------
-- Offsets in the ranges of their panes
-- ---------------------------------------------------------------------------

theorem settleOffset_le (h : 0 < count) (visible offset : Nat) :
    settleOffset count visible offset ≤ count - visible := by
  rw [settleOffset, if_neg (Nat.ne_of_gt h)]
  exact Nat.min_le_right ..

theorem followSelection_le (selected offset : Nat) (hv : 0 < visible) :
    followSelection selected visible offset ≤ selected := by
  unfold followSelection
  split
  · exact Nat.le_refl _
  · split <;> omega

theorem lt_followSelection_add (selected offset : Nat) (hv : 0 < visible) :
    selected < followSelection selected visible offset + visible := by
  unfold followSelection
  split
  · exact Nat.lt_add_of_pos_right hv
  · split <;> omega

/-- To go back to the last full page does not hide a row that is seen. -/
theorem lt_clampOffset_add {count selected visible offset : Nat} (hs : selected < count)
    (h : selected < offset + visible) : selected < clampOffset count visible offset + visible := by
  unfold clampOffset
  omega

theorem settleLinesOffset_eq (h : 0 < count) (selected visible offset : Nat) :
    settleLinesOffset count selected visible offset =
      clampOffset count visible (followSelection selected visible offset) := by
  rw [settleLinesOffset, if_neg (Nat.ne_of_gt h)]

-- ---------------------------------------------------------------------------
-- Events
-- ---------------------------------------------------------------------------

inductive Event
  | key (key : Key)
  | draw (layout : Layout)

def step (v : Viewer) : Event → Viewer
  | .key key => v.press key
  | .draw layout => v.settle layout

def after (analyses : List LineAnalysis) (events : List Event) : Viewer :=
  events.foldl step (start analyses)

theorem after_concat (analyses : List LineAnalysis) (events : List Event) (e : Event) :
    after analyses (events ++ [e]) = (after analyses events).step e :=
  List.foldl_append

/-- A draw on a screen is one with the panes of its layout. -/
theorem draw_after (analyses : List LineAnalysis) (events : List Event) (width height : Nat) :
    ((after analyses events).draw width height).1 =
      after analyses (events ++ [.draw (layout width height)]) := by
  rw [after_concat]
  rfl

-- ---------------------------------------------------------------------------
-- At any time
-- ---------------------------------------------------------------------------

/-- The viewer shows the lines that it was started with, and one of them is selected. With no lines
the index of the selected one is zero. -/
structure Intact (analyses : List LineAnalysis) (v : Viewer) : Prop where
  analyses_eq : v.analyses = analyses
  totals_eq : v.totals = .ofAnalyses analyses
  selected_valid : v.selected < analyses.length ∨ analyses = [] ∧ v.selected = 0

variable {analyses : List LineAnalysis} {v : Viewer} {l : Layout} {events : List Event}

theorem intact_start (analyses : List LineAnalysis) : Intact analyses (start analyses) where
  analyses_eq := rfl
  totals_eq := rfl
  selected_valid := by
    cases analyses with
    | nil => exact .inr ⟨rfl, rfl⟩
    | cons a rest => exact .inl (Nat.zero_lt_succ _)

theorem Intact.selected_lt (h : Intact analyses v) (hne : analyses ≠ []) :
    v.selected < analyses.length :=
  h.selected_valid.resolve_right fun hempty => hne hempty.1

theorem Intact.select (h : Intact analyses v) (index : Nat) : Intact analyses (v.select index) := by
  unfold Viewer.select
  dsimp only
  split
  · exact h
  · split
    · exact h
    · next a ha =>
      refine ⟨h.analyses_eq, h.totals_eq, .inl ?_⟩
      rw [← h.analyses_eq]
      exact (List.getElem?_eq_some_iff.mp ha).1

theorem Intact.press (h : Intact analyses v) (key : Key) : Intact analyses (v.press key) := by
  -- only the keys that select a line touch what the invariant is about
  unfold Viewer.press
  split <;> first
    | exact h.select _
    | exact ⟨h.analyses_eq, h.totals_eq, h.selected_valid⟩

theorem Intact.settle (h : Intact analyses v) (l : Layout) : Intact analyses (v.settle l) :=
  ⟨h.analyses_eq, h.totals_eq, h.selected_valid⟩

theorem Intact.step (h : Intact analyses v) (e : Event) : Intact analyses (v.step e) := by
  cases e with
  | key key => exact h.press key
  | draw l => exact h.settle l

theorem Intact.foldl (h : Intact analyses v) (events : List Event) :
    Intact analyses (events.foldl Viewer.step v) := by
  induction events generalizing v with
  | nil => exact h
  | cons e events ih => exact ih (h.step e)

theorem intact_after (analyses : List LineAnalysis) (events : List Event) :
    Intact analyses (after analyses events) :=
  (intact_start analyses).foldl events

-- ---------------------------------------------------------------------------
-- After a draw
-- ---------------------------------------------------------------------------

/-- The selected line is seen in its pane, and every pane is scrolled no further than to its last
full page. A pane without rows may keep any offset. -/
structure Settled (l : Layout) (v : Viewer) : Prop where
  lines_le_selected : v.offsets.lines ≤ v.selected
  selected_lt : v.selected < v.offsets.lines + l.visible .lines
  le_last_page : ∀ p, 0 < v.rowCount p → v.offsets.of p ≤ v.rowCount p - l.visible p

theorem Intact.settled_settle (h : Intact analyses v) (hne : analyses ≠ []) (l : Layout) :
    Settled l (v.settle l) := by
  have hv := l.visible_pos .lines
  have hselected : v.selected < v.analyses.length := by
    rw [h.analyses_eq]
    exact h.selected_lt hne
  have hlines : (v.settle l).offsets.lines = clampOffset v.analyses.length (l.visible .lines)
      (followSelection v.selected (l.visible .lines) v.offsets.lines) :=
    settleLinesOffset_eq (Nat.zero_lt_of_lt hselected) ..
  refine ⟨?_, ?_, fun p hp => ?_⟩
  · rw [hlines]
    exact Nat.le_trans (Nat.min_le_left ..) (followSelection_le _ _ hv)
  · rw [hlines]
    exact lt_clampOffset_add hselected (lt_followSelection_add _ _ hv)
  · rw [rowCount_settle] at hp ⊢
    by_cases hlinesPane : p = .lines
    · subst hlinesPane
      exact Nat.le_trans (Nat.le_of_eq hlines) (Nat.min_le_right ..)
    · rw [offsets_settle v l hlinesPane]
      exact settleOffset_le hp ..

-- ---------------------------------------------------------------------------
-- The numbers of a machine
-- ---------------------------------------------------------------------------

/-- The sum of two numbers, if it has no more than 64 bits. -/
def add? (a b : Nat) : Option Nat := if a + b ≤ maxOffset then some (a + b) else none

def sub? (a b : Nat) : Option Nat := if b ≤ a then some (a - b) else none

def followSelection? (selected visible offset : Nat) : Option Nat :=
  if selected < offset then some selected
  else (add? offset visible).bind fun hidden =>
    if hidden ≤ selected then (add? selected 1).bind (sub? · visible) else some offset

def clampOffset? (count visible offset : Nat) : Option Nat :=
  if visible < count then (sub? count visible).map (min offset) else some 0

def settleOffset? (count visible offset : Nat) : Option Nat :=
  if count = 0 then some offset else clampOffset? count visible offset

def settleLinesOffset? (count selected visible offset : Nat) : Option Nat :=
  if count = 0 then some offset
  else (followSelection? selected visible offset).bind (clampOffset? count visible)

def select? (v : Viewer) (index : Nat) : Option Viewer :=
  if v.analyses.isEmpty then some v
  else (sub? v.analyses.length 1).map fun last => v.select (min index last)

/-- What a key does. A key that does not select a line moves an offset no further than to zero or
to the largest one, so that its sums and differences are always right. -/
def press? (v : Viewer) : Key → Option Viewer
  | .up => v.select? (v.selected - 1)
  | .down => v.select? (min (v.selected + 1) maxOffset)
  | .home => v.select? 0
  | .end => v.select? (v.analyses.length - 1)
  | key => some (v.press key)

/-- What a draw does. The status bar counts the selected line from one. -/
def settle? (v : Viewer) (l : Layout) : Option Viewer := do
  let lines ← settleLinesOffset? (v.rowCount .lines) v.selected (l.visible .lines) v.offsets.lines
  let tokens ← settleOffset? (v.rowCount .tokens) (l.visible .tokens) v.offsets.tokens
  let symbols ← settleOffset? (v.rowCount .symbols) (l.visible .symbols) v.offsets.symbols
  let tree ← settleOffset? (v.rowCount .tree) (l.visible .tree) v.offsets.tree
  let diagnostics ←
    settleOffset? (v.rowCount .diagnostics) (l.visible .diagnostics) v.offsets.diagnostics
  if v.totals.lines ≠ 0 then _ ← add? v.selected 1
  some { v with offsets := ⟨lines, tokens, symbols, tree, diagnostics⟩ }

def step? (v : Viewer) : Event → Option Viewer
  | .key key => v.press? key
  | .draw layout => v.settle? layout

def after? (analyses : List LineAnalysis) (events : List Event) : Option Viewer :=
  events.foldlM step? (start analyses)

theorem add?_eq (h : a + b ≤ maxOffset) : add? a b = some (a + b) := if_pos h

theorem sub?_eq (h : b ≤ a) : sub? a b = some (a - b) := if_pos h

theorem followSelection?_eq {selected visible : Nat} (hv : 0 < visible)
    (h : selected + visible ≤ maxOffset) (offset : Nat) :
    followSelection? selected visible offset = some (followSelection selected visible offset) := by
  unfold followSelection? followSelection
  split
  · rfl
  · next hle =>
    have hhidden : offset + visible ≤ maxOffset := by omega
    rw [add?_eq hhidden, Option.bind_some]
    split
    · have hnext : selected + 1 ≤ maxOffset := by omega
      rw [add?_eq hnext, Option.bind_some, sub?_eq (by omega)]
    · rfl

theorem clampOffset?_eq (count visible offset : Nat) :
    clampOffset? count visible offset = some (clampOffset count visible offset) := by
  unfold clampOffset? clampOffset
  split
  · next h => rw [sub?_eq (Nat.le_of_lt h), Option.map_some]
  · next h => rw [Nat.sub_eq_zero_of_le (Nat.not_lt.mp h), Nat.min_zero]

theorem settleOffset?_eq (count visible offset : Nat) :
    settleOffset? count visible offset = some (settleOffset count visible offset) := by
  unfold settleOffset? settleOffset
  split
  · rfl
  · exact clampOffset?_eq ..

theorem settleLinesOffset?_eq {selected visible : Nat} (hv : 0 < visible)
    (h : selected + visible ≤ maxOffset) (count offset : Nat) :
    settleLinesOffset? count selected visible offset =
      some (settleLinesOffset count selected visible offset) := by
  unfold settleLinesOffset? settleLinesOffset
  split
  · rfl
  · rw [followSelection?_eq hv h, Option.bind_some, clampOffset?_eq]

theorem select_min (v : Viewer) (index : Nat) (h : v.analyses.length - 1 ≤ bound) :
    v.select (min index bound) = v.select index := by
  unfold Viewer.select
  rw [Nat.min_assoc, Nat.min_eq_right h]

theorem select?_eq (v : Viewer) (index : Nat) : v.select? index = some (v.select index) := by
  unfold Viewer.select?
  split
  · next h => simp [Viewer.select, List.isEmpty_iff.mp h]
  · next h =>
    have hpos : 1 ≤ v.analyses.length :=
      List.length_pos_iff.mpr fun hnil => h (List.isEmpty_iff.mpr hnil)
    rw [sub?_eq hpos, Option.map_some, select_min v index (Nat.le_refl _)]

theorem press?_eq (h : v.analyses.length ≤ UInt64.size) (key : Key) :
    v.press? key = some (v.press key) := by
  cases key with
  | up | home | «end» => exact select?_eq ..
  | down => exact (select?_eq ..).trans (congrArg some (select_min v _ (Nat.sub_le_sub_right h 1)))
  | _ => rfl

theorem settle?_eq (h : v.selected + l.visible .lines ≤ maxOffset) :
    v.settle? l = some (v.settle l) := by
  have hv := l.visible_pos .lines
  have hnext : v.selected + 1 ≤ maxOffset := Nat.le_trans (Nat.add_le_add_left hv _) h
  unfold settle?
  simp only [settleLinesOffset?_eq hv h, settleOffset?_eq, add?_eq hnext, Option.bind_eq_bind,
    Option.bind_some]
  split <;> rfl

theorem Layout.visible_lines_lt (h : l.lines.height < UInt16.size) :
    l.visible .lines < UInt16.size :=
  Nat.max_lt.mpr ⟨Nat.lt_of_le_of_lt (Nat.sub_le ..) h, by decide⟩

/-- The lines are as many as a machine's memory holds at most, and heights have 16 bits. -/
theorem Intact.step?_eq (h : Intact analyses v) (hlength : analyses.length < UInt64.size / 2)
    (he : ∀ l, e = .draw l → l.lines.height < UInt16.size) : v.step? e = some (v.step e) := by
  have hlimit : UInt64.size / 2 + UInt16.size ≤ maxOffset := by decide
  cases e with
  | key key =>
    refine press?_eq ?_ key
    rw [h.analyses_eq]
    exact Nat.le_of_lt (Nat.lt_trans hlength (by decide))
  | draw l =>
    have hselected : v.selected < UInt64.size / 2 := by
      rcases h.selected_valid with hlt | ⟨-, hzero⟩
      · exact Nat.lt_trans hlt hlength
      · exact hzero ▸ by decide
    have hvisible := Layout.visible_lines_lt (he l rfl)
    have hsum := Nat.add_le_add (Nat.le_of_lt hselected) (Nat.le_of_lt hvisible)
    exact settle?_eq (Nat.le_trans hsum hlimit)

theorem Intact.foldlM_step? (h : Intact analyses v) (hlength : analyses.length < UInt64.size / 2)
    (hevents : ∀ l, .draw l ∈ events → l.lines.height < UInt16.size) :
    events.foldlM step? v = some (events.foldl Viewer.step v) := by
  induction events generalizing v with
  | nil => rfl
  | cons e events ih =>
    have he : ∀ l, e = .draw l → l.lines.height < UInt16.size := by
      rintro l rfl
      exact hevents l (List.mem_cons_self ..)
    rw [List.foldlM_cons, h.step?_eq hlength he]
    exact ih (h.step e) fun l hl => hevents l (List.mem_cons_of_mem _ hl)

/-- Whatever keys are pressed and however often the viewer is drawn, it shows the lines that it was
started with and one of them is selected. After every draw the selected line is seen, and no pane is
scrolled further than to its last full page. No number on the way is below zero or too large for a
machine. -/
theorem intact_settled_after (analyses : List LineAnalysis) (events : List Event) :
    Intact analyses (after analyses events) ∧
    (analyses ≠ [] → ∀ l, Settled l (after analyses (events ++ [.draw l]))) ∧
    (analyses.length < UInt64.size / 2 → (∀ l, .draw l ∈ events → l.lines.height < UInt16.size) →
      after? analyses events = some (after analyses events)) := by
  refine ⟨intact_after analyses events, fun hne l => ?_, fun hlength hevents => ?_⟩
  · rw [after_concat]
    exact (intact_after analyses events).settled_settle hne l
  · exact (intact_start analyses).foldlM_step? hlength hevents

def fiveLines : List LineAnalysis :=
  List.replicate 5
    ⟨1, "1", List.replicate 7 (.ofLexeme .number ['1'] ⟨1, 1⟩), [], none, [], none⟩

/-- A layout in which every pane shows two rows, but for the symbols. -/
def lowPanes : Layout :=
  let pane : Area := ⟨0, 0, 30, 4⟩
  ⟨pane, pane, pane, pane, pane, ⟨0, 4, 30, 1⟩⟩

/-- The last of five lines is seen with the one above it, and a page down in its seven tokens shows
the last two. -/
theorem intact_settled_after_pageDown :
    let v := after fiveLines [.key .end, .key .tab, .key .pageDown, .draw lowPanes]
    Settled lowPanes v ∧ v.selected = 4 ∧ v.offsets.lines = 3 ∧ v.offsets.tokens = 5 ∧
      after? fiveLines [.key .end, .key .tab, .key .pageDown, .draw lowPanes] = some v := by
  have hsettled := (intact_settled_after fiveLines [.key .end, .key .tab, .key .pageDown]).2.1
    (List.length_pos_iff.mp (by decide)) lowPanes
  have hmachine := (intact_settled_after fiveLines
    [.key .end, .key .tab, .key .pageDown, .draw lowPanes]).2.2 (by decide)
    fun l hl => by
      obtain rfl : l = lowPanes := by simpa using hl
      decide
  exact ⟨hsettled, by decide, by decide, by decide, hmachine⟩

end FormulaCheck.Viewer
