import FormulaCheck.Graph
import Mathlib.Data.List.Basic

/-!
# Escaped labels

Escaping a label puts a backslash in front of a quote or bracket and spells a line break as a
backslash and a letter. No other character is escaped: a backslash of the label itself stays as it
is. In front of a quote or bracket it is told from an escape, since there is one more backslash
then, so that the label is read back up to the spelling of its line breaks (`dropEscapes_escape`).
But a line break and its spelling have one escape, and this is the only way in which two labels can
have the same one.
-/

namespace FormulaCheck.Graph

variable {c : Char} {cs rest : List Char}

/-- A line break as an escape spells it, and any other character as it is. -/
def spellBreak : Char → List Char
  | '\n' => ['\\', 'n']
  | '\r' => ['\\', 'r']
  | c => [c]

def spellBreaks (label : String) : String := String.ofList (label.toList.flatMap spellBreak)

def labelMarks : List Char := ['"', '[', ']', '(', ')', '\x7b', '\x7d']

/-- An escaped text without each backslash that stands in front of a quote or bracket. -/
def dropEscapes : List Char → List Char
  | [] => []
  | c :: rest =>
    if c = '\\' ∧ rest.head?.any (· ∈ labelMarks) then dropEscapes rest else c :: dropEscapes rest

-- ---------------------------------------------------------------------------
-- Single characters
-- ---------------------------------------------------------------------------

theorem escapeChar_cases (c : Char) :
    c ∈ labelMarks ∧ escapeChar c = ['\\', c] ∧ spellBreak c = [c] ∨
      (∃ letter, letter ∉ labelMarks ∧ letter ≠ '\\' ∧
        escapeChar c = ['\\', letter] ∧ spellBreak c = ['\\', letter]) ∨
      c ∉ labelMarks ∧ escapeChar c = [c] ∧ spellBreak c = [c] := by
  unfold escapeChar
  split
  · exact .inr (.inl ⟨'n', by decide, by decide, rfl, rfl⟩)
  · exact .inr (.inl ⟨'r', by decide, by decide, rfl, rfl⟩)
  · next hn hr =>
    have hspell : spellBreak c = [c] := by
      unfold spellBreak
      split <;> trivial
    by_cases hc : c ∈ labelMarks
    · exact .inl ⟨hc, if_pos hc, hspell⟩
    · exact .inr (.inr ⟨hc, if_neg hc, hspell⟩)

theorem escape_spellBreak (c : Char) : (spellBreak c).flatMap escapeChar = escapeChar c := by
  unfold spellBreak
  split <;> simp <;> rfl

theorem dropEscapes_cons_of_ne (hc : c ≠ '\\') :
    dropEscapes (c :: rest) = c :: dropEscapes rest :=
  if_neg fun h => hc h.1

theorem dropEscapes_mark (hc : c ∈ labelMarks) :
    dropEscapes ('\\' :: c :: rest) = c :: dropEscapes rest := by
  have hne : c ≠ '\\' := by
    rintro rfl
    exact absurd hc (by decide)
  rw [dropEscapes, if_pos (by simpa using hc), dropEscapes_cons_of_ne hne]

theorem dropEscapes_backslash (h : rest.head?.any (· ∈ labelMarks) = false) :
    dropEscapes ('\\' :: rest) = '\\' :: dropEscapes rest := by
  simp [dropEscapes, h]

-- ---------------------------------------------------------------------------
-- Labels
-- ---------------------------------------------------------------------------

/-- No escaped text begins with a quote or bracket, since a backslash comes first there. -/
theorem head?_escape (cs : List Char) :
    (cs.flatMap escapeChar).head?.any (· ∈ labelMarks) = false := by
  cases cs with
  | nil => rfl
  | cons c cs =>
    rw [List.flatMap_cons]
    rcases escapeChar_cases c with ⟨-, hc, -⟩ | ⟨letter, -, -, hc, -⟩ | ⟨hmark, hc, -⟩
    · rw [hc]
      rfl
    · rw [hc]
      rfl
    · simpa [hc] using hmark

theorem dropEscapes_escape (cs : List Char) :
    dropEscapes (cs.flatMap escapeChar) = cs.flatMap spellBreak := by
  induction cs with
  | nil => rfl
  | cons c cs ih =>
    rw [List.flatMap_cons, List.flatMap_cons, ← ih]
    rcases escapeChar_cases c with
      ⟨hmark, hc, hspell⟩ | ⟨letter, hletter, hne, hc, hspell⟩ | ⟨hmark, hc, hspell⟩
    · rw [hc, hspell]
      exact dropEscapes_mark hmark
    · rw [hc, hspell]
      exact (dropEscapes_backslash (by simpa using hletter)).trans
        (congrArg _ (dropEscapes_cons_of_ne hne))
    · rw [hc, hspell]
      by_cases hback : c = '\\'
      · subst hback
        exact dropEscapes_backslash (head?_escape cs)
      · exact dropEscapes_cons_of_ne hback

theorem escape_spell (cs : List Char) :
    (cs.flatMap spellBreak).flatMap escapeChar = cs.flatMap escapeChar := by
  rw [List.flatMap_assoc]
  exact List.flatMap_congr fun c _ => escape_spellBreak c

/-- Two labels have one escaped text exactly if they are the same once their line breaks are spelled
out. -/
theorem escapeLabel_eq_iff (a b : String) :
    escapeLabel a = escapeLabel b ↔ spellBreaks a = spellBreaks b := by
  rw [escapeLabel, escapeLabel, spellBreaks, spellBreaks, String.ofList_inj, String.ofList_inj]
  constructor
  · intro h
    rw [← dropEscapes_escape, h, dropEscapes_escape]
  · intro h
    rw [← escape_spell, h, escape_spell]

/-- A line feed has the same escape as a backslash in front of an `n`. -/
theorem escapeLabel_lineFeed : "\n" ≠ "\\n" ∧ escapeLabel "\n" = escapeLabel "\\n" := by
  decide

end FormulaCheck.Graph
