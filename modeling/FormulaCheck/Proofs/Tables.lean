import FormulaCheck.Report.Table
import FormulaCheck.Text.Lines
import Mathlib.Data.List.Forall2

/-!
# Tables can be read back

Cells are as wide as their column at most, so that every column starts where the widths of the ones
before it say (`starts`). Cut at these places a line gives its cells again, up to the blanks at
their ends (`cellsAt_rowLine`): what was dropped at the end of the line were blanks too.
`ReadsBack` says it of the text of a whole table, and `readsBack_starts` proves it of every table
whose cells stay on their lines.
-/

namespace FormulaCheck

def Text.ofLines (lines : List String) : String := String.join (lines.map (· ++ "\n"))

namespace Table

def starts (start : Nat) : List Nat → List Nat
  | [] => []
  | width :: widths => start :: starts (start + width + 2) widths

/-- The pieces of a line from each offset to the next one; the last piece has no end. -/
def cutAt : List Nat → List Char → List (List Char)
  | [], _ => []
  | [start], cs => [cs.drop start]
  | start :: stop :: offsets, cs => (cs.take stop).drop start :: cutAt (stop :: offsets) cs

def cellsAt (offsets : List Nat) (line : String) : List String :=
  (cutAt offsets line.toList).map fun piece => String.ofList (Text.trimEndChars piece)

def spaces (n : Nat) : String := String.ofList (List.replicate n ' ')

/-- The rows have a cell for each column, and no cell has a line feed in it. Only the header may
have cells that end in a blank. -/
structure Regular (header : List String) (rows : List (List String)) : Prop where
  header_line : ∀ cell ∈ header, '\n' ∉ cell.toList
  row_length : ∀ row ∈ rows, row.length = header.length
  cell_line : ∀ row ∈ rows, ∀ cell ∈ row, '\n' ∉ cell.toList
  cell_end : ∀ row ∈ rows, ∀ cell ∈ row, ∀ c ∈ cell.toList.getLast?, isBlank c = false

/-- The text of a table has a line for the header, one for the rule and one for each row. Cut at the
offsets, with any number of spaces behind it, each of them gives its cells. -/
structure ReadsBack (offsets : List Nat) (header : List String) (rows : List (List String)) :
    Prop where
  length_eq : offsets.length = header.length
  ordered : offsets.Pairwise (· < ·)
  exists_lines : ∃ top dashes body,
    Text.readLines (Text.ofLines (lines header rows)) = top :: dashes :: body ∧
    ∀ n, cellsAt offsets (top ++ spaces n) = header.map Text.trimEnd ∧
      cellsAt offsets (dashes ++ spaces n) = rule (widths header rows) ∧
      body.map (fun line => cellsAt offsets (line ++ spaces n)) = rows

-- ---------------------------------------------------------------------------
-- Widths
-- ---------------------------------------------------------------------------

/-- The cells fit into columns of these widths. -/
abbrev Fits (cells : List String) (widths : List Nat) : Prop :=
  List.Forall₂ (fun cell width => cell.length ≤ width) cells widths

variable {header cells row : List String} {rows : List (List String)} {ws : List Nat}

theorem Fits.widen (h : Fits cells ws) (row : List String) : Fits cells (widen ws row) := by
  induction h generalizing row with
  | nil => exact .nil
  | cons hcell hcells ih =>
    cases row with
    | nil => exact .cons hcell hcells
    | cons _ row => exact .cons (Nat.le_trans hcell (Nat.le_max_left ..)) (ih row)

theorem Fits.foldl_widen (h : Fits cells ws) (rows : List (List String)) :
    Fits cells (rows.foldl Table.widen ws) := by
  induction rows generalizing ws with
  | nil => exact h
  | cons row rows ih => exact ih (h.widen row)

theorem length_widen (ws : List Nat) (row : List String) : (widen ws row).length = ws.length := by
  fun_induction widen ws row with
  | case1 width ws cell row ih => rw [List.length_cons, ih, List.length_cons]
  | case2 ws => rfl

theorem fits_widen (h : row.length = ws.length) : Fits row (widen ws row) := by
  induction row generalizing ws with
  | nil =>
    obtain rfl := List.eq_nil_of_length_eq_zero h.symm
    exact .nil
  | cons cell row ih =>
    cases ws with
    | nil => cases h
    | cons width ws => exact .cons (Nat.le_max_right ..) (ih (Nat.succ.inj h))

theorem fits_foldl_widen (hrow : row ∈ rows) (h : row.length = ws.length) :
    Fits row (rows.foldl widen ws) := by
  induction rows generalizing ws with
  | nil => cases hrow
  | cons first rows ih =>
    rcases List.mem_cons.mp hrow with rfl | hrow
    · exact (fits_widen h).foldl_widen rows
    · exact ih hrow (h.trans (length_widen ws first).symm)

theorem fits_header (header : List String) (rows : List (List String)) :
    Fits header (widths header rows) := by
  have hself : Fits header (header.map String.length) :=
    List.forall₂_map_right_iff.mpr (List.forall₂_same.mpr fun _ _ => Nat.le_refl _)
  exact hself.foldl_widen rows

theorem fits_row (hrow : row ∈ rows) (h : row.length = header.length) :
    Fits row (widths header rows) :=
  fits_foldl_widen hrow (by rw [h, List.length_map])

theorem fits_rule (ws : List Nat) : Fits (rule ws) ws := by
  refine List.forall₂_map_left_iff.mpr (List.forall₂_same.mpr fun width _ => ?_)
  simp

-- ---------------------------------------------------------------------------
-- Lines of cells
-- ---------------------------------------------------------------------------

/-- The characters of a line of cells before the blanks at its end are dropped. -/
def joined (ws : List Nat) (cells : List String) : List Char :=
  [' ', ' '].intercalate ((cells.zip ws).map fun (cell, width) => (pad cell width).toList)

theorem toList_rowLine (ws : List Nat) (cells : List String) :
    (rowLine ws cells).toList = Text.trimEndChars (joined ws cells) := by
  simp [rowLine, Text.trimEnd, joined, String.toList_intercalate, Function.comp_def]

theorem length_pad {cell : String} {width : Nat} (h : cell.length ≤ width) :
    (pad cell width).toList.length = width := by
  simp [pad, String.length_toList, h]

theorem isBlank_of_mem_spaces (h : c ∈ List.replicate n ' ') : isBlank c = true := by
  rw [List.eq_of_mem_replicate h]
  rfl

theorem trimEndChars_pad (cell : String) (width : Nat) :
    Text.trimEndChars (pad cell width).toList = Text.trimEndChars cell.toList := by
  rw [pad, String.toList_append, String.toList_ofList,
    Text.trimEndChars_append fun c => isBlank_of_mem_spaces]

theorem cutAt_append (lead piece rest : List Char) (offsets : List Nat) :
    cutAt (lead.length :: (lead ++ piece).length :: offsets) (lead ++ piece ++ rest) =
      piece :: cutAt ((lead ++ piece).length :: offsets) (lead ++ piece ++ rest) := by
  rw [cutAt, List.take_left, List.drop_left]

/-- Cut where the columns start, a line gives its cells. Here something stands in front of it. -/
theorem map_trimEndChars_cutAt_joined (h : Fits cells ws) (lead : List Char) :
    (cutAt (starts lead.length ws) (lead ++ joined ws cells)).map Text.trimEndChars =
      cells.map fun cell => Text.trimEndChars cell.toList := by
  induction h generalizing lead with
  | nil => rfl
  | @cons cell width cells ws hcell hcells ih =>
    cases hcells with
    | nil => simp [starts, cutAt, joined, List.intercalate, trimEndChars_pad]
    | @cons cell' width' cells ws =>
      let piece := (pad cell width).toList ++ List.replicate 2 ' '
      have hstart : lead.length + width + 2 = (lead ++ piece).length := by
        simp [piece, length_pad hcell, Nat.add_assoc]
      have hline : lead ++ joined (width :: width' :: ws) (cell :: cell' :: cells) =
          lead ++ piece ++ joined (width' :: ws) (cell' :: cells) := by
        simp [piece, joined, List.intercalate_cons_cons]
      have hpiece : Text.trimEndChars piece = Text.trimEndChars cell.toList := by
        rw [Text.trimEndChars_append fun c => isBlank_of_mem_spaces, trimEndChars_pad]
      have hrest := ih (lead ++ piece)
      rw [starts] at hrest
      rw [hline, starts, starts, hstart, cutAt_append, List.map_cons, hpiece, hrest]
      rfl

theorem map_trimEndChars_cutAt_append (h : ∀ c ∈ blanks, isBlank c = true) (offsets : List Nat)
    (cs : List Char) : (cutAt offsets (cs ++ blanks)).map Text.trimEndChars =
      (cutAt offsets cs).map Text.trimEndChars := by
  fun_induction cutAt offsets cs with
  | case1 => rfl
  | case2 start cs =>
    have hdropped : ∀ c ∈ blanks.drop (start - cs.length), isBlank c = true :=
      fun c hc => h c (List.mem_of_mem_drop hc)
    rw [cutAt, List.drop_append, List.map_singleton, List.map_singleton,
      Text.trimEndChars_append hdropped]
  | case3 start stop offsets cs ih =>
    have hdropped : ∀ c ∈ (blanks.take (stop - cs.length)).drop (start - (cs.take stop).length),
        isBlank c = true :=
      fun c hc => h c (List.mem_of_mem_take (List.mem_of_mem_drop hc))
    rw [cutAt, List.take_append, List.drop_append, List.map_cons, List.map_cons,
      Text.trimEndChars_append hdropped, ih]

theorem cellsAt_eq_map (offsets : List Nat) (line : String) : cellsAt offsets line =
    ((cutAt offsets line.toList).map Text.trimEndChars).map String.ofList := by
  rw [cellsAt, List.map_map]
  rfl

theorem cellsAt_rowLine (h : Fits cells ws) (n : Nat) :
    cellsAt (starts 0 ws) (rowLine ws cells ++ spaces n) = cells.map Text.trimEnd := by
  obtain ⟨blanks, hblanks, hjoined⟩ := Text.exists_trimEndChars_append (joined ws cells)
  rw [cellsAt_eq_map, String.toList_append, toList_rowLine, spaces, String.toList_ofList,
    map_trimEndChars_cutAt_append fun c => isBlank_of_mem_spaces,
    ← map_trimEndChars_cutAt_append hblanks, ← hjoined]
  have hcells := map_trimEndChars_cutAt_joined h []
  rw [List.nil_append, List.length_nil] at hcells
  rw [hcells, List.map_map]
  rfl

theorem length_starts (start : Nat) (ws : List Nat) : (starts start ws).length = ws.length := by
  induction ws generalizing start with
  | nil => rfl
  | cons width ws ih => rw [starts, List.length_cons, ih, List.length_cons]

theorem pairwise_starts (start : Nat) (ws : List Nat) : (starts start ws).Pairwise (· < ·) := by
  have hle : ∀ (ws : List Nat) (start offset : Nat), offset ∈ starts start ws → start ≤ offset := by
    intro ws
    induction ws with
    | nil => exact fun _ _ h => nomatch h
    | cons width ws ih =>
      intro start offset h
      rcases List.mem_cons.mp h with rfl | h
      · exact Nat.le_refl _
      · have hnext := ih _ _ h
        omega
  induction ws generalizing start with
  | nil => exact .nil
  | cons width ws ih =>
    refine .cons (fun offset h => ?_) (ih _)
    have hnext := hle ws _ _ h
    omega

-- ---------------------------------------------------------------------------
-- The text of a table
-- ---------------------------------------------------------------------------

end Table

namespace Text

theorem splitChars_flatMap {lines : List (List Char)} (h : ∀ line ∈ lines, '\n' ∉ line) :
    splitChars '\n' (lines.flatMap (· ++ ['\n'])) = lines ++ [[]] := by
  induction lines with
  | nil => rfl
  | cons line lines ih =>
    obtain ⟨hline, hlines⟩ := List.forall_mem_cons.mp h
    rw [List.flatMap_cons, List.append_assoc, List.singleton_append, splitChars_append_cons,
      splitChars_of_not_mem hline, ih hlines]
    rfl

theorem linesOfPieces_append_nil (pieces : List (List Char)) :
    linesOfPieces (pieces ++ [[]]) = pieces.map dropReturn := by
  induction pieces with
  | nil => rfl
  | cons piece pieces ih =>
    obtain ⟨next, more, hmore⟩ := List.exists_cons_of_ne_nil
      (List.append_ne_nil_of_right_ne_nil pieces (List.cons_ne_nil ([] : List Char) []))
    rw [List.cons_append, hmore, linesOfPieces, ← hmore, ih, List.map_cons]
    exact fun h => nomatch h

theorem readLines_ofLines {lines : List String}
    (h : ∀ line ∈ lines, '\n' ∉ line.toList ∧ line.toList.getLast? ≠ some '\r') :
    readLines (ofLines lines) = lines := by
  have htext : (ofLines lines).toList = (lines.map String.toList).flatMap (· ++ ['\n']) := by
    simp [ofLines, String.toList_join, List.flatMap_map]
  have hfeed : ∀ line ∈ lines.map String.toList, '\n' ∉ line :=
    List.forall_mem_map.mpr fun line hline => (h line hline).1
  have hreturn : (lines.map String.toList).map dropReturn = lines.map String.toList := by
    rw [List.map_map]
    exact List.map_congr_left fun line hline => if_neg (h line hline).2
  rw [readLines, htext, splitChars_flatMap hfeed, linesOfPieces_append_nil, hreturn, List.map_map]
  simp [Function.comp_def]

theorem trimEnd_eq_self {text : String} (h : ∀ c ∈ text.toList.getLast?, isBlank c = false) :
    trimEnd text = text := by
  rw [trimEnd, trimEndChars_eq_self h, String.ofList_toList]

end Text

theorem mem_of_mem_intercalate {between : List α} {pieces : List (List α)}
    (h : a ∈ between.intercalate pieces) : a ∈ between ∨ ∃ piece ∈ pieces, a ∈ piece := by
  induction pieces with
  | nil => cases h
  | cons piece pieces ih =>
    cases pieces with
    | nil => exact .inr ⟨piece, List.mem_singleton_self _, by simpa [List.intercalate] using h⟩
    | cons next pieces =>
      rw [List.intercalate_cons_cons, List.mem_append, List.mem_append] at h
      rcases h with (h | h) | h
      · exact .inr ⟨piece, List.mem_cons_self, h⟩
      · exact .inl h
      · exact (ih h).imp_right fun ⟨p, hp, ha⟩ => ⟨p, List.mem_cons_of_mem _ hp, ha⟩

namespace Table

variable {header cells row : List String} {rows : List (List String)} {ws : List Nat}

theorem mem_of_mem_joined (h : c ∈ joined ws cells) :
    c = ' ' ∨ ∃ cell ∈ cells, c ∈ cell.toList := by
  rcases mem_of_mem_intercalate h with h | ⟨piece, hpiece, h⟩
  · exact .inl (by simpa using h)
  · obtain ⟨⟨cell, width⟩, hcell, rfl⟩ := List.mem_map.mp hpiece
    simp only [pad, String.toList_append, String.toList_ofList, List.mem_append] at h
    rcases h with h | h
    · exact .inr ⟨cell, (List.of_mem_zip hcell).1, h⟩
    · exact .inl (List.eq_of_mem_replicate h)

/-- A line of cells is one line. Its last character is no blank, and so no carriage return. -/
theorem rowLine_readable (h : ∀ cell ∈ cells, '\n' ∉ cell.toList) :
    '\n' ∉ (rowLine ws cells).toList ∧ (rowLine ws cells).toList.getLast? ≠ some '\r' := by
  rw [toList_rowLine]
  constructor
  · intro hfeed
    obtain ⟨blanks, -, hjoined⟩ := Text.exists_trimEndChars_append (joined ws cells)
    have hmem : '\n' ∈ joined ws cells := by
      rw [hjoined]
      exact List.mem_append_left blanks hfeed
    rcases mem_of_mem_joined hmem with hspace | hcell
    · exact absurd hspace (by decide)
    · obtain ⟨cell, hmem, hfeed⟩ := hcell
      exact h cell hmem hfeed
  · intro hlast
    exact absurd (Text.isBlank_eq_false_of_getLast?_trimEndChars hlast) (by decide)

theorem eq_dash_of_mem_rule (hcell : cell ∈ rule ws) (hc : c ∈ cell.toList) : c = '-' := by
  obtain ⟨width, -, rfl⟩ := List.mem_map.mp hcell
  rw [String.toList_ofList] at hc
  exact List.eq_of_mem_replicate hc

theorem readLines_lines (h : Regular header rows) :
    Text.readLines (Text.ofLines (lines header rows)) = lines header rows := by
  have hrule : ∀ cell ∈ rule (widths header rows), '\n' ∉ cell.toList :=
    fun cell hcell hfeed => absurd (eq_dash_of_mem_rule hcell hfeed) (by decide)
  refine Text.readLines_ofLines ?_
  simp only [lines, List.forall_mem_cons, List.forall_mem_map]
  exact ⟨rowLine_readable h.header_line, rowLine_readable hrule,
    fun row hrow => rowLine_readable (h.cell_line row hrow)⟩

theorem cellsAt_rowLine_of_ends (h : Fits cells ws)
    (hends : ∀ cell ∈ cells, ∀ c ∈ cell.toList.getLast?, isBlank c = false) (n : Nat) :
    cellsAt (starts 0 ws) (rowLine ws cells ++ spaces n) = cells := by
  rw [cellsAt_rowLine h]
  exact (List.map_congr_left fun cell hcell => Text.trimEnd_eq_self (hends cell hcell)).trans
    (List.map_id cells)

theorem readsBack_starts (h : Regular header rows) :
    ReadsBack (starts 0 (widths header rows)) header rows where
  length_eq := (length_starts ..).trans (fits_header header rows).length_eq.symm
  ordered := pairwise_starts ..
  exists_lines := by
    have hdashes : ∀ cell ∈ rule (widths header rows), ∀ c ∈ cell.toList.getLast?,
        isBlank c = false := by
      intro cell hcell c hc
      rw [eq_dash_of_mem_rule hcell (List.mem_of_getLast? hc)]
      rfl
    refine ⟨_, _, _, readLines_lines h, fun n => ⟨cellsAt_rowLine (fits_header header rows) n,
      cellsAt_rowLine_of_ends (fits_rule _) hdashes n, ?_⟩⟩
    rw [List.map_map]
    refine (List.map_congr_left fun row hrow => ?_).trans (List.map_id rows)
    exact cellsAt_rowLine_of_ends (fits_row hrow (h.row_length row hrow)) (h.cell_end row hrow) n

end Table

end FormulaCheck
