import FormulaCheck.Proofs.Scan.Longest
import Mathlib.Data.List.DropRight

/-!
# Scans of joined texts

No lexeme holds a blank, so a text with a blank in it begins with the same lexemes as what is in
front of the blank does, and nothing that a scan finds there depends on what is behind
(`ScansTo.append_blank`). Behind the blank a scan finds what it would find in that part alone, at
places that lie as much further as the blank does (`ScansTo.behind`). Both together give the scan of
the whole text (`scan_append_blank`).
-/

namespace FormulaCheck

-- ---------------------------------------------------------------------------
-- Places behind a text
-- ---------------------------------------------------------------------------

/-- The place that a place in a text has when that text is put behind some characters: these add
their line feeds to its line, and to its column, if it is in the first line, the characters behind
their last line feed. -/
def Position.behind (p : Position) (lead : List Char) : Position where
  line := p.line + lead.count '\n'
  column := if p.line = 1 then p.column + (lead.rtakeWhile (· ≠ '\n')).length else p.column

def Token.behind (t : Token) (lead : List Char) : Token :=
  { t with
    startLine := (t.start.behind lead).line, startColumn := (t.start.behind lead).column
    endLine := (t.stop.behind lead).line, endColumn := (t.stop.behind lead).column }

def ScanError.behind (e : ScanError) (lead : List Char) : ScanError :=
  { e with place := e.place.behind lead }

def Scan.behind (s : Scan) (lead : List Char) : Scan :=
  ⟨s.tokens.map (·.behind lead), s.errors.map (·.behind lead)⟩

variable {cs ds l lead : List Char} {c w : Char} {k : Token.Kind} {p : Position} {s s' : Scan}

namespace Position

theorem behind_origin (lead : List Char) : origin.behind lead = origin.advanceBy lead := by
  induction lead using List.reverseRecOn with
  | nil => rfl
  | append_singleton lead c ih =>
    have horigin : origin.line = 1 ∧ origin.column = 1 := ⟨rfl, rfl⟩
    rw [advanceBy_append, ← ih]
    by_cases hc : c = '\n' <;> simp [behind, advance, hc, horigin, Nat.add_assoc]

theorem behind_advance (hp : 1 ≤ p.line) (lead : List Char) (c : Char) :
    (p.advance c).behind lead = (p.behind lead).advance c := by
  by_cases hc : c = '\n'
  · have hline : p.line + 1 ≠ 1 := by omega
    simp only [behind, advance, hc, if_true, if_neg hline, mk.injEq, and_true]
    omega
  · simp only [behind, advance, hc, if_false, mk.injEq, true_and]
    split <;> omega

theorem behind_advanceBy (hp : 1 ≤ p.line) (lead cs : List Char) :
    (p.advanceBy cs).behind lead = (p.behind lead).advanceBy cs := by
  induction cs generalizing p with
  | nil => rfl
  | cons c cs ih =>
    rw [advanceBy_cons, advanceBy_cons, ← behind_advance hp]
    refine ih ?_
    unfold advance
    split
    · exact Nat.le_add_left 1 p.line
    · exact hp

end Position

-- ---------------------------------------------------------------------------
-- Lexemes in front of a blank
-- ---------------------------------------------------------------------------

theorem IsLexeme.begins_append_blank_iff (h : IsLexeme k l) (hw : isBlank w = true) :
    l <+: cs ++ w :: ds ↔ l <+: cs := by
  constructor
  · rintro ⟨more, hmore⟩
    have hl : w ∉ l := by
      intro hmem
      simp [h.isBlank_eq_false hmem] at hw
    obtain ⟨between, rfl, -⟩ := exists_append_of_not_mem hmore.symm hl
    exact List.prefix_append l between
  · exact fun hl => hl.trans (List.prefix_append ..)

theorem LongestLexeme.append_blank (h : LongestLexeme k l cs) (hw : isBlank w = true)
    (ds : List Char) : LongestLexeme k l (cs ++ w :: ds) where
  isLexeme := h.isLexeme
  begins := h.begins.trans (List.prefix_append ..)
  longest k' l' hl' hbegins := h.longest k' l' hl' ((hl'.begins_append_blank_iff hw).mp hbegins)

theorem NoLexeme.append_blank (h : NoLexeme cs) (hw : isBlank w = true) (ds : List Char) :
    NoLexeme (cs ++ w :: ds) :=
  fun k l hl hbegins => h k l hl ((hl.begins_append_blank_iff hw).mp hbegins)

-- ---------------------------------------------------------------------------
-- Scans
-- ---------------------------------------------------------------------------

theorem ScansTo.append_blank (h : ScansTo p cs s) (hw : isBlank w = true)
    (h' : ScansTo (p.advanceBy (cs ++ [w])) ds s') :
    ScansTo p (cs ++ w :: ds) ⟨s.tokens ++ s'.tokens, s.errors ++ s'.errors⟩ := by
  induction h with
  | nil => exact .blank hw h'
  | blank hblank _ ih => exact .blank hblank (ih h')
  | lexeme hl _ ih =>
    rw [List.append_assoc, Position.advanceBy_append] at h'
    rw [List.append_assoc]
    exact .lexeme (List.append_assoc .. ▸ hl.append_blank hw ds) (ih h')
  | error hblank hnone _ ih => exact .error hblank (hnone.append_blank hw ds) (ih h')

theorem Token.behind_ofLexeme (k : Token.Kind) (l : List Char) (p : Position) (lead : List Char) :
    (Token.ofLexeme k l p).behind lead = .ofLexeme k l (p.behind lead) := by
  simp only [Token.behind, ofLexeme, start, stop, Position.behind, mk.injEq, true_and]
  by_cases hline : p.line = 1
  · simp only [hline, if_true, true_and]
    omega
  · simp only [hline, if_false, true_and]

theorem ScansTo.behind (h : ScansTo p cs s) (hp : 1 ≤ p.line) (lead : List Char) :
    ScansTo (p.behind lead) cs (s.behind lead) := by
  have hline : ∀ {q : Position} cs, 1 ≤ q.line → 1 ≤ (q.advanceBy cs).line := by
    intro q cs hq
    rw [Position.line_advanceBy]
    exact Nat.le_add_right_of_le hq
  induction h with
  | nil => exact .nil
  | @blank c _ _ _ hblank _ ih =>
    have hrest := ih (hline [c] hp)
    rw [Position.behind_advance hp] at hrest
    exact .blank hblank hrest
  | @lexeme k l _ _ _ hl _ ih =>
    have hrest := ih (hline l hp)
    rw [Position.behind_advanceBy hp] at hrest
    have hscan := ScansTo.lexeme hl hrest
    rw [← Token.behind_ofLexeme] at hscan
    exact hscan
  | @error c _ _ _ hblank hnone _ ih =>
    have hrest := ih (hline [c] hp)
    rw [Position.behind_advance hp] at hrest
    exact .error hblank hnone hrest

/-- A blank splits a scan: in front of it a scan finds what it finds in the text up to there, and
behind it what it finds in the rest, as much further along as that begins. -/
theorem scan_append_blank (hw : isBlank w = true) (a b : String) :
    scan (a ++ String.singleton w ++ b) =
      ⟨(scan a).tokens ++ (scan b).tokens.map (·.behind (a.toList ++ [w])),
        (scan a).errors ++ (scan b).errors.map (·.behind (a.toList ++ [w]))⟩ := by
  have ha : ScansTo .origin a.toList (scan a) := scansTo_ofChars ..
  have hb : ScansTo .origin b.toList (scan b) := scansTo_ofChars ..
  have hrest := hb.behind (Nat.le_refl 1) (a.toList ++ [w])
  rw [Position.behind_origin] at hrest
  have hall := (ha.append_blank hw hrest).eq_ofChars
  rw [scan, String.toList_append, String.toList_append, String.toList_singleton,
    List.append_assoc, List.singleton_append]
  exact hall.symm

/-- The blank keeps `1.` and `5` apart, and what is behind a line feed of the second text keeps its
column. -/
theorem scan_append_blank_lines :
    isBlank ' ' = true ∧
      scan ("a\n1." ++ String.singleton ' ' ++ "5 b\nc") =
        ⟨(scan "a\n1.").tokens ++ (scan "5 b\nc").tokens.map (·.behind "a\n1. ".toList),
          (scan "a\n1.").errors ++ (scan "5 b\nc").errors.map (·.behind "a\n1. ".toList)⟩ ∧
      (scan ("a\n1." ++ String.singleton ' ' ++ "5 b\nc")).tokens.map Token.start =
        [⟨1, 1⟩, ⟨2, 1⟩, ⟨2, 4⟩, ⟨2, 6⟩, ⟨3, 1⟩] := by
  have hw : isBlank ' ' = true := by decide
  exact ⟨hw, scan_append_blank hw "a\n1." "5 b\nc", by decide +kernel⟩

end FormulaCheck
