import FormulaCheck.Proofs.Drawings.Plumbing
import FormulaCheck.Viewer.Panes

/-!
# Colors in the pane of the tree

The pane of the tree has the lines of an outline and finds out from their texts which of them are
for rules. For a full outline it is right, since the line of a token has quotes in it. In a
simplified outline a name may be written like a rule: such names, and no other tokens, get the color
of a rule (`outlineLine_color`).
-/

namespace FormulaCheck

def ruleWords : List String :=
  ["statement", "assignment", "expression", "expressionPrime", "term", "termPrime", "factor",
   "expr"]

/-- What stands in an outline as a rule does: the rules themselves, and where tokens have no quotes
the names that are written like one. -/
def Outline.Entry.ShownAsRule (style : OutlineStyle) : Entry → Prop
  | .rule _ => True
  | .token t => style = .simplified ∧ t.kind = .name ∧ t.text ∈ ruleWords

-- ---------------------------------------------------------------------------
-- Texts
-- ---------------------------------------------------------------------------

theorem isAlpha_of_mem_ruleWords (h : word ∈ ruleWords) : ∀ c ∈ word.toList, c.isAlpha = true :=
  have hwords : ruleWords.all (·.toList.all Char.isAlpha) = true := by decide
  List.all_eq_true.mp (List.all_eq_true.mp hwords word h)

namespace Viewer

open Outline

variable {r : Row} {style : OutlineStyle} {t : Token} {text : String}

theorem readsAsRule_iff : readsAsRule text = true ↔ text ∈ ruleWords := by
  simp only [readsAsRule, Rule.all, List.any_cons, List.any_nil, Rule.label, Rule.shortLabel,
    ruleWords, Bool.or_eq_true, beq_iff_eq, List.mem_cons, List.not_mem_nil]
  grind

theorem readsAsRule_rule (style : OutlineStyle) (rule : Rule) :
    readsAsRule ((Entry.rule rule).text style) = true := by
  cases style <;> cases rule <;> decide

theorem readsAsRule_token_full (t : Token) : readsAsRule ((Entry.token t).text .full) = false := by
  rw [Bool.eq_false_iff]
  intro hreads
  have hquote : '"' ∈ ((Entry.token t).text .full).toList := by simp [Entry.toList_text_token]
  exact absurd (isAlpha_of_mem_ruleWords (readsAsRule_iff.mp hreads) _ hquote) (by decide)

theorem splitIndent_line (h : Trimmed (r.entry.text style).toList) :
    splitIndent (r.line style) = (indentation r.depth, r.entry.text style) := by
  have hline : (r.line style).toList =
      (indentation r.depth).toList ++ (r.entry.text style).toList :=
    String.toList_append ..
  have hblanks : ∀ c ∈ (indentation r.depth).toList, isBlank c = true :=
    fun c => isBlank_of_mem_indentation
  have hnone : (r.entry.text style).toList.takeWhile isBlank = [] := by
    rw [List.takeWhile_eq_nil_iff]
    intro hlength hblank
    have hfirst := h.first _ (List.head?_eq_getElem? ▸ List.getElem?_eq_getElem hlength)
    exact Bool.false_ne_true (hfirst ▸ hblank)
  have hall : (r.entry.text style).toList.dropWhile isBlank = (r.entry.text style).toList := by
    have hparts := List.takeWhile_append_dropWhile (p := isBlank) (l := (r.entry.text style).toList)
    rwa [hnone, List.nil_append] at hparts
  rw [splitIndent, hline, List.takeWhile_append_of_pos hblanks, hnone, List.append_nil,
    List.dropWhile_append_of_pos hblanks, hall, String.ofList_toList, String.ofList_toList]

theorem outlineLine_line (h : Trimmed (r.entry.text style).toList) : outlineLine (r.line style) =
    [⟨indentation r.depth, .colored Theme.comment⟩, ⟨r.entry.text style,
      .colored (if readsAsRule (r.entry.text style) then Theme.rule else Theme.text)⟩] := by
  rw [outlineLine, splitIndent_line h]

-- ---------------------------------------------------------------------------
-- Entries of a scanned text
-- ---------------------------------------------------------------------------

theorem readsAsRule_token (ht : t ∈ (scan text).tokens) :
    readsAsRule ((Entry.token t).text style) = true ↔ (Entry.token t).ShownAsRule style := by
  cases style with
  | full => simp [readsAsRule_token_full, Entry.ShownAsRule]
  | simplified =>
    constructor
    · intro hreads
      have hword : t.text ∈ ruleWords := readsAsRule_iff.mp hreads
      exact ⟨rfl, (Scan.token_lexeme ht).2 (isAlpha_of_mem_ruleWords hword), hword⟩
    · rintro ⟨-, -, hword⟩
      exact readsAsRule_iff.mpr hword

theorem trimmed_text_token (ht : t ∈ (scan text).tokens) :
    Trimmed ((Entry.token t).text style).toList := by
  cases style with
  | full => exact Entry.trimmed_text_full _
  | simplified => exact (Scan.token_lexeme ht).1

-- ---------------------------------------------------------------------------
-- The pane
-- ---------------------------------------------------------------------------

variable {line : String} {number : Nat} {tree : Tree}

/-- The pane shows one line for each row of the outline, in the color of a rule exactly if the row
stands as a rule does. -/
theorem outlineLine_color (h : (analyzeLine line number).tree? = some tree)
    (style : OutlineStyle) :
    shownOutline (some (analyzeLine line number)) style =
        tree.outlineRows.map (Row.line style) ∧
      ∀ r ∈ tree.outlineRows, ∃ color,
        outlineLine (r.line style) = [⟨indentation r.depth, .colored Theme.comment⟩,
          ⟨r.entry.text style, .colored color⟩] ∧
        (color = Theme.rule ↔ r.entry.ShownAsRule style) ∧
        (color = Theme.text ↔ ¬ r.entry.ShownAsRule style) := by
  obtain ⟨hleaves, htokens⟩ := leaves_subset_of_tree? h
  constructor
  · rw [shownOutline, Option.map_some, LineAnalysis.outline, h]
    rfl
  · intro r hr
    have hentry : Trimmed (r.entry.text style).toList ∧
        (readsAsRule (r.entry.text style) = true ↔ r.entry.ShownAsRule style) := by
      obtain ⟨depth, rule | t⟩ := r
      · exact ⟨Entry.trimmed_text_rule style rule,
          iff_of_true (readsAsRule_rule style rule) trivial⟩
      · have ht := htokens ▸ hleaves (Tree.mem_leaves_of_mem_rows tree hr)
        exact ⟨trimmed_text_token ht, readsAsRule_token ht⟩
    have hne : Theme.rule ≠ Theme.text := by decide
    refine ⟨_, outlineLine_line hentry.1, ?_⟩
    rw [← hentry.2]
    by_cases hreads : readsAsRule (r.entry.text style) = true <;> simp [hreads, hne, hne.symm]

/-- In the simplified outline of `term * 2` there is a name in the color of a rule. -/
theorem outlineLine_color_product : ∃ tree, (analyzeLine "term * 2" 1).tree? = some tree ∧
    ∃ r ∈ tree.outlineRows, r.line .simplified = "      term" ∧ ∃ color,
      outlineLine (r.line .simplified) = [⟨indentation r.depth, .colored Theme.comment⟩,
        ⟨r.entry.text .simplified, .colored color⟩] ∧
      (color = Theme.rule ↔ r.entry.ShownAsRule .simplified) ∧
      (color = Theme.text ↔ ¬ r.entry.ShownAsRule .simplified) := by
  have hline : (analyzeLine "term * 2" 1).tree?.any (fun tree => tree.outlineRows.any
      fun r => r.line .simplified = "      term") = true := by
    decide +kernel
  obtain ⟨tree, htree, hrows⟩ := (Option.any_eq_true ..).mp hline
  obtain ⟨r, hr, hname⟩ := List.any_eq_true.mp hrows
  obtain ⟨-, hcolors⟩ := outlineLine_color htree .simplified
  exact ⟨tree, htree, r, hr, of_decide_eq_true hname, hcolors r hr⟩

/-- The name `term` alone is shown in the color of a rule. -/
theorem outlineLine_name : ∃ tree, (analyzeLine "term" 1).tree? = some tree ∧
    ∃ r ∈ tree.outlineRows, r.entry = .token ⟨.name, "term", 1, 1, 1, 4⟩ ∧
      outlineLine (r.line .simplified) =
        [⟨"      ", .colored Theme.comment⟩, ⟨"term", .colored Theme.rule⟩] := by
  have hline : (analyzeLine "term" 1).tree?.any (fun tree => tree.outlineRows.any fun r =>
      r.entry = .token ⟨.name, "term", 1, 1, 1, 4⟩ ∧ outlineLine (r.line .simplified) =
        [⟨"      ", .colored Theme.comment⟩, ⟨"term", .colored Theme.rule⟩]) = true := by
    decide +kernel
  obtain ⟨tree, htree, hrows⟩ := (Option.any_eq_true ..).mp hline
  obtain ⟨r, hr, hshown⟩ := List.any_eq_true.mp hrows
  exact ⟨tree, htree, r, hr, of_decide_eq_true hshown⟩

end Viewer

end FormulaCheck
