import FormulaCheck.Proofs.Spans
import FormulaCheck.Viewer.Highlight
import Mathlib.Data.List.SplitBy

/-!
# Highlighting covers the text

A highlighted line is read character by character with `Span.cells`. Read in this way it is the
line itself, each character in the style for what the scan found in its column (`StyledFor`). No
span is longer or shorter than a stretch of one style (`highlight_covers`).

The styles are painted one stroke over the other, so that a column has the style of the last stroke
over it (`getElem?_foldl_paint`). In a line it is the only one (`Scan.InLine`).
-/

namespace FormulaCheck

-- ---------------------------------------------------------------------------
-- Scans of one line
-- ---------------------------------------------------------------------------

namespace Token

def Covers (t : Token) (column : Nat) : Prop :=
  t.startColumn ≤ column ∧ column ≤ t.endColumn

def Apart (t t' : Token) : Prop := ∀ column, t.Covers column → ¬ t'.Covers column

instance : Std.Symm Apart where
  symm _ _ h column hcovers hcovers' := h column hcovers' hcovers

end Token

namespace Scan

/-- Tokens and errors of one line: no two of them are in one column. -/
structure InLine (s : Scan) : Prop where
  tokens_apart : s.tokens.Pairwise Token.Apart
  apart : ∀ t ∈ s.tokens, ∀ e ∈ s.errors, ¬ t.Covers e.place.column

theorem InLine.eq_of_covers {s : Scan} (h : s.InLine) (ht : t ∈ s.tokens) (ht' : t' ∈ s.tokens)
    (hcovers : t.Covers column) (hcovers' : t'.Covers column) : t = t' := by
  by_contra hne
  exact h.tokens_apart.forall ht ht' hne column hcovers hcovers'

-- ---------------------------------------------------------------------------
-- What a text without line feeds is scanned to
-- ---------------------------------------------------------------------------

variable {cs : List Char} {t : Token} {e : ScanError}

theorem line_of_mem_tokens (hline : '\n' ∉ cs) (ht : t ∈ (ofChars .origin cs).tokens) :
    t.startLine = 1 ∧ t.endLine = 1 := by
  obtain ⟨before, k, l, after, rfl, -, rfl⟩ := exists_of_mem_tokens ht
  have hbefore : '\n' ∉ before := fun hmem => hline (List.mem_append_left _ hmem)
  rw [Position.advanceBy_of_not_mem hbefore]
  exact ⟨rfl, rfl⟩

theorem line_of_mem_errors (hline : '\n' ∉ cs) (he : e ∈ (ofChars .origin cs).errors) :
    e.place.line = 1 := by
  obtain ⟨before, after, rfl, hplace⟩ := Position.mem_marks_iff.mp (mem_marks_of_mem_errors he)
  have hbefore : '\n' ∉ before := fun hmem => hline (List.mem_append_left _ hmem)
  rw [hplace, Position.advanceBy_of_not_mem hbefore]
  rfl

theorem inLine_ofChars (hline : '\n' ∉ cs) : (ofChars .origin cs).InLine where
  tokens_apart := by
    refine (pairwise_tokens .origin cs).imp_of_mem fun ht ht' hprecedes column hcovers => ?_
    have hstop : (Token.stop _).line = 1 := (line_of_mem_tokens hline ht).2
    have hstart : (Token.start _).line = 1 := (line_of_mem_tokens hline ht').1
    have hlt := (hprecedes.resolve_left (by omega)).2
    exact fun hcovers' => Nat.not_le.mpr hlt (hcovers'.1.trans hcovers.2)
  apart t ht e he hcovers := by
    -- the place of the error would be in two spans
    have hspan : e.place ∈ t.span := by
      refine List.mem_map.mpr ⟨e.place.column, ?_, ?_⟩
      · rw [List.mem_range'_1]
        obtain ⟨hstart, hend⟩ := hcovers
        omega
      · rw [(line_of_mem_tokens hline ht).1, ← line_of_mem_errors hline he]
    have hdisjoint := (List.nodup_flatten.mp (nodup_flatten_spans .origin cs)).2
    rw [spans, List.pairwise_append] at hdisjoint
    exact hdisjoint.2.2 _ (List.mem_map_of_mem ht) _ (List.mem_map_of_mem he) hspan
      (List.mem_singleton_self _)

end Scan

namespace Viewer

-- ---------------------------------------------------------------------------
-- Styles
-- ---------------------------------------------------------------------------

/-- The style of a column is for the token or the error that the scan found there, or for plain
text if it found neither. -/
structure StyledFor (s : Scan) (column : Nat) (style : Style) : Prop where
  of_token : ∀ t ∈ s.tokens, t.Covers column → style = tokenStyle t.kind
  of_error : ∀ e ∈ s.errors, e.place.column = column → style = errorStyle
  of_neither : (∀ t ∈ s.tokens, ¬ t.Covers column) → (∀ e ∈ s.errors, e.place.column ≠ column) →
    style = .colored Theme.text

variable {s : Scan} {i length column : Nat} {style : Style} {k : Stroke} {as : List α} {a : α}

theorem length_foldl_paint (strokes : List Stroke) (styles : List Style) :
    (strokes.foldl paint styles).length = styles.length := by
  induction strokes generalizing styles with
  | nil => rfl
  | cons k strokes ih => rw [List.foldl_cons, ih, paint, List.length_mapIdx]

/-- A column has the style of the last stroke over it. -/
theorem getElem?_foldl_paint (strokes : List Stroke) (styles : List Style) (i : Nat) :
    (strokes.foldl paint styles)[i]? = styles[i]?.map fun style =>
      (strokes.reverse.find? (·.Covers (i + 1))).elim style Stroke.style := by
  induction strokes generalizing styles with
  | nil => simp
  | cons k strokes ih =>
    rw [List.foldl_cons, ih, paint, List.getElem?_mapIdx, Option.map_map, List.reverse_cons,
      List.find?_append]
    congr 1
    funext style
    cases strokes.reverse.find? (·.Covers (i + 1)) with
    | some later => rfl
    | none => by_cases hcovers : k.Covers (i + 1) <;> simp [hcovers]

theorem exists_of_find?_map_reverse {stroke : α → Stroke}
    (h : (as.map stroke).reverse.find? (·.Covers column) = some k) :
    ∃ a ∈ as, (stroke a).Covers column ∧ stroke a = k := by
  obtain ⟨a, ha, heq⟩ := List.mem_map.mp (List.mem_reverse.mp (List.mem_of_find?_eq_some h))
  exact ⟨a, ha, by simpa [heq] using List.find?_some h, heq⟩

theorem not_covers_of_find?_map_reverse {stroke : α → Stroke}
    (h : (as.map stroke).reverse.find? (·.Covers column) = none) (ha : a ∈ as) :
    ¬ (stroke a).Covers column := by
  simpa using List.find?_eq_none.mp h _ (List.mem_reverse.mpr (List.mem_map_of_mem ha))

theorem length_charStyles (s : Scan) (length : Nat) : (charStyles s length).length = length := by
  rw [charStyles, length_foldl_paint, List.length_replicate]

theorem styledFor_of_charStyles (h : s.InLine) (hi : (charStyles s length)[i]? = some style) :
    StyledFor s (i + 1) style := by
  rw [charStyles, getElem?_foldl_paint, List.reverse_append, List.find?_append,
    Option.map_eq_some_iff] at hi
  obtain ⟨under, hunder, rfl⟩ := hi
  cases herror : (s.errors.map Stroke.ofError).reverse.find? (·.Covers (i + 1)) with
  | some k =>
    -- an error stands here, so that no token does
    obtain ⟨e, he, hcovers, rfl⟩ := exists_of_find?_map_reverse herror
    have heq : e.place.column = i + 1 := Nat.le_antisymm hcovers.1 hcovers.2
    exact ⟨fun t ht hcovers' => absurd (heq ▸ hcovers') (h.apart t ht e he), fun _ _ _ => rfl,
      fun _ hnone => absurd heq (hnone e he)⟩
  | none =>
    have hnone : ∀ e ∈ s.errors, e.place.column ≠ i + 1 := fun e he heq =>
      not_covers_of_find?_map_reverse herror he ⟨heq.le, heq.ge⟩
    cases htoken : (s.tokens.map Stroke.ofToken).reverse.find? (·.Covers (i + 1)) with
    | some k =>
      obtain ⟨t, ht, hcovers, rfl⟩ := exists_of_find?_map_reverse htoken
      refine ⟨fun t' ht' hcovers' => ?_, fun e he heq => absurd heq (hnone e he),
        fun hfree => absurd hcovers (hfree t ht)⟩
      rw [h.eq_of_covers ht' ht hcovers' hcovers]
      rfl
    | none =>
      have hfree : ∀ t ∈ s.tokens, ¬ t.Covers (i + 1) := fun t ht =>
        not_covers_of_find?_map_reverse htoken ht
      refine ⟨fun t ht hcovers => absurd hcovers (hfree t ht),
        fun e he heq => absurd heq (hnone e he), fun _ _ => ?_⟩
      rw [List.getElem?_replicate] at hunder
      split at hunder
      · exact (Option.some.inj hunder).symm
      · cases hunder

end Viewer

-- ---------------------------------------------------------------------------
-- Spans
-- ---------------------------------------------------------------------------

def Span.cells (span : Span) : List (Char × Style) := span.text.toList.map (·, span.style)

namespace Viewer

variable {run : List (Char × Style)}

theorem style_eq_of_mem_run (h : run.IsChain fun a b => (a.2 == b.2) = true) (ha : a ∈ run) :
    a.2 = (spanOfRun run).style := by
  induction h with
  | nil => cases ha
  | singleton b =>
    obtain rfl := List.mem_singleton.mp ha
    rfl
  | @cons_cons b c run hbc _ ih =>
    rcases List.mem_cons.mp ha with rfl | ha
    · rfl
    · exact (ih ha).trans (eq_of_beq hbc).symm

theorem cells_spanOfRun (h : run.IsChain fun a b => (a.2 == b.2) = true) :
    (spanOfRun run).cells = run := by
  have htext : (spanOfRun run).text.toList = run.map Prod.fst := by
    cases run with
    | nil => rfl
    | cons => exact String.toList_ofList
  calc (spanOfRun run).cells
      = run.map fun a => (a.1, (spanOfRun run).style) := by
        rw [Span.cells, htext, List.map_map]
        rfl
    _ = run.map id :=
        List.map_congr_left fun a ha => Prod.ext rfl (style_eq_of_mem_run h ha).symm
    _ = run := List.map_id run

theorem flatMap_cells_highlight (text : String) : (highlight text).flatMap Span.cells =
    text.toList.zip (charStyles (scan text) text.toList.length) := by
  rw [highlight, List.flatMap_map]
  calc (List.splitBy _ _).flatMap (fun run => (spanOfRun run).cells)
      = (List.splitBy _ _).flatMap id :=
        List.flatMap_congr fun run hrun => cells_spanOfRun (List.isChain_of_mem_splitBy hrun)
    _ = (List.splitBy _ _).flatten := List.flatMap_id
    _ = _ := List.flatten_splitBy ..

theorem join_text_highlight (text : String) :
    String.join ((highlight text).map Span.text) = text := by
  have hcells : ∀ span : Span, span.cells.map Prod.fst = span.text.toList := fun span => by
    simp [Span.cells, Function.comp_def]
  have hfst := congrArg (List.map Prod.fst) (flatMap_cells_highlight text)
  rw [List.map_fst_zip (length_charStyles ..).ge, List.map_flatMap] at hfst
  simp only [hcells] at hfst
  exact String.toList_inj.mp (by rw [String.toList_join, List.flatMap_map, hfst])

theorem text_ne_empty_of_mem_highlight (h : span ∈ highlight text) : span.text ≠ "" := by
  obtain ⟨run, hrun, rfl⟩ := List.mem_map.mp h
  obtain ⟨⟨c, style⟩, rest, rfl⟩ := List.exists_cons_of_ne_nil (List.ne_nil_of_mem_splitBy hrun)
  exact fun hempty => List.cons_ne_nil _ _ (String.ofList_eq_empty_iff.mp hempty)

theorem isChain_style_highlight (text : String) :
    (highlight text).IsChain fun span span' => span.style ≠ span'.style := by
  have hborders := List.isChain_getLast_head_splitBy (fun a b : Char × Style => a.2 == b.2)
    (text.toList.zip (charStyles (scan text) text.toList.length))
  refine (List.isChain_map _).mpr (hborders.imp_of_mem_imp fun run run' hrun hrun' hborder => ?_)
  obtain ⟨hne, hne', hborder⟩ := hborder
  have hlast := style_eq_of_mem_run (List.isChain_of_mem_splitBy hrun) (List.getLast_mem hne)
  have hhead := style_eq_of_mem_run (List.isChain_of_mem_splitBy hrun') (List.head_mem hne')
  rw [← hlast, ← hhead]
  exact ne_of_beq_false hborder

/-- A highlighted line is the line, cut where the style changes, with each character in the style
for the token over it, for an error or for plain text. -/
theorem highlight_covers {text : String} (h : '\n' ∉ text.toList) :
    String.join ((highlight text).map Span.text) = text ∧
      (∀ span ∈ highlight text, span.text ≠ "") ∧
      (highlight text).IsChain (fun span span' => span.style ≠ span'.style) ∧
      ∀ i c, text.toList[i]? = some c →
        ∃ style, ((highlight text).flatMap Span.cells)[i]? = some (c, style) ∧
          StyledFor (scan text) (i + 1) style := by
  refine ⟨join_text_highlight text, fun span => text_ne_empty_of_mem_highlight,
    isChain_style_highlight text, fun i c hi => ?_⟩
  have hlength : i < (charStyles (scan text) text.toList.length).length := by
    rw [length_charStyles]
    exact (List.getElem?_eq_some_iff.mp hi).1
  have hstyle := List.getElem?_eq_getElem hlength
  refine ⟨_, ?_, styledFor_of_charStyles (Scan.inLine_ofChars h) hstyle⟩
  rw [flatMap_cells_highlight, List.getElem?_zip_eq_some]
  exact ⟨hi, hstyle⟩

/-- A number, a point that is an error, two operators in one span, a blank, a name and a character
that no formula holds. -/
theorem highlight_covers_mixed :
    '\n' ∉ "12.+- x§".toList ∧
      (highlight "12.+- x§").map Span.text = ["12", ".", "+-", " ", "x", "§"] ∧
      ∃ style, ((highlight "12.+- x§").flatMap Span.cells)[2]? = some ('.', style) ∧
        StyledFor (scan "12.+- x§") 3 style := by
  have hline : '\n' ∉ "12.+- x§".toList := by decide +kernel
  obtain ⟨-, -, -, hcells⟩ := highlight_covers hline
  exact ⟨hline, by decide +kernel, hcells 2 '.' (by decide +kernel)⟩

end Viewer

end FormulaCheck
