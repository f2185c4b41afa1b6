import FormulaCheck.Proofs.Analysis.Wording
import FormulaCheck.Proofs.Drawings.Items
import FormulaCheck.Proofs.Drawings.Mermaid

/-!
# Plumbing rules are not shown

No line of an outline and no node of a graph is for a plumbing rule
(`Tree.isPlumbing_eq_false_of_mem_rows`). The word for such a rule is not seen in a full outline
either, where the line of a token says its kind. A simplified outline has the bare text of a token,
and a name may have the word for a rule as its text: these names are the only lines with such a
word.
-/

namespace FormulaCheck

def plumbingWords : List String := ["statement", "expressionPrime", "termPrime"]

-- ---------------------------------------------------------------------------
-- Words
-- ---------------------------------------------------------------------------

theorem Rule.label_mem_plumbingWords_iff (r : Rule) :
    r.label ∈ plumbingWords ↔ r.isPlumbing = true := by
  cases r <;> decide

theorem Rule.shortLabel_mem_plumbingWords_iff (r : Rule) :
    r.shortLabel ∈ plumbingWords ↔ r.isPlumbing = true := by
  cases r <;> decide

theorem isAlpha_of_mem_plumbingWords (h : word ∈ plumbingWords) :
    ∀ c ∈ word.toList, c.isAlpha = true := by
  simp only [plumbingWords, List.mem_cons, List.not_mem_nil, or_false] at h
  rcases h with rfl | rfl | rfl <;> exact List.all_eq_true.mp (by decide)

theorem IsLexeme.eq_name (h : IsLexeme k l) (hl : ∀ c ∈ l, Char.isAlpha c = true) : k = .name := by
  cases h with
  | name => rfl
  | @whole ds hne hds =>
    obtain ⟨d, ds, rfl⟩ := List.exists_cons_of_ne_nil hne
    have hdigit := hds d (List.mem_cons_self ..)
    have halpha := hl d (List.mem_cons_self ..)
    rw [isDigit_iff] at hdigit
    rw [isAlpha_iff] at halpha
    omega
  | decimal => exact absurd (hl '.' (by simp)) (by decide)
  | _ => exact absurd (hl _ (List.mem_singleton_self _)) (by decide)

-- ---------------------------------------------------------------------------
-- Lines without their indentation
-- ---------------------------------------------------------------------------

theorem Trimmed.of_forall (h : ∀ c ∈ cs, isBlank c = false) : Trimmed cs :=
  ⟨fun c hc => h c (List.mem_of_mem_head? hc), fun c hc => h c (List.mem_of_mem_getLast? hc)⟩

theorem trimChars_append (h : ∀ c ∈ blanks, isBlank c = true) :
    Text.trimChars (blanks ++ cs) = Text.trimChars cs := by
  rw [Text.trimChars, List.dropWhile_append_of_pos h, Text.trimChars]

namespace Outline

theorem isBlank_of_mem_indentation (h : c ∈ (indentation depth).toList) : isBlank c = true := by
  induction depth with
  | zero => simp [indentation] at h
  | succ depth ih =>
    rw [toList_indentation_succ, List.mem_cons, List.mem_cons] at h
    rcases h with rfl | rfl | h
    · rfl
    · rfl
    · exact ih h

theorem Row.trim_line {r : Row} (h : Trimmed (r.entry.text style).toList) :
    Text.trim (r.line style) = r.entry.text style := by
  have hline : (r.line style).toList =
      (indentation r.depth).toList ++ (r.entry.text style).toList :=
    String.toList_append ..
  rw [Text.trim, hline, trimChars_append fun c => isBlank_of_mem_indentation, h.trimChars_eq,
    String.ofList_toList]

theorem Entry.trimmed_text_rule (style : OutlineStyle) (r : Rule) :
    Trimmed ((Entry.rule r).text style).toList := by
  have hink : ((Entry.rule r).text style).toList.all (! isBlank ·) = true := by
    cases style <;> cases r <;> decide
  exact .of_forall (by simpa using hink)

theorem Entry.trimmed_text_full (e : Entry) : Trimmed (e.text .full).toList := by
  cases e with
  | rule r => exact trimmed_text_rule .full r
  | token t =>
    constructor
    · obtain ⟨kind, text⟩ := t
      cases kind <;> simp [toList_text_token, Token.Kind.label] <;> decide
    · have hquote : ((Entry.token t).text .full).toList =
          (t.kind.label.toList ++ ':' :: ' ' :: '"' :: t.text.toList) ++ ['"'] := by
        simp [toList_text_token]
      rw [hquote, List.getLast?_concat]
      exact fun c hc => Option.some.inj hc ▸ rfl

end Outline

-- ---------------------------------------------------------------------------
-- Drawings of a tree
-- ---------------------------------------------------------------------------

open Outline

section

variable {tree : Tree} {r : Row} {n : Graph.Node}

theorem Outline.Row.trim_line_rule {r : Row} {rule : Rule} (hr : r ∈ tree.outlineRows)
    (hrule : r.entry = .rule rule) (style : OutlineStyle) :
    Text.trim (r.line style) ∉ plumbingWords := by
  obtain ⟨depth, _⟩ := r
  cases hrule
  have hshown := Tree.isPlumbing_eq_false_of_mem_rows tree hr
  rw [Row.trim_line (Entry.trimmed_text_rule style rule)]
  cases style with
  | full => exact mt rule.label_mem_plumbingWords_iff.mp (Bool.eq_false_iff.mp hshown)
  | simplified => exact mt rule.shortLabel_mem_plumbingWords_iff.mp (Bool.eq_false_iff.mp hshown)

theorem Tree.trim_not_mem_plumbingWords (h : l ∈ tree.outline .full) :
    Text.trim l ∉ plumbingWords := by
  obtain ⟨r, hr, rfl⟩ := List.mem_map.mp h
  cases hentry : r.entry with
  | rule rule => exact Row.trim_line_rule hr hentry .full
  | token t =>
    intro hmem
    rw [Row.trim_line r.entry.trimmed_text_full, hentry] at hmem
    have hquote : '"' ∈ ((Entry.token t).text .full).toList := by simp [Entry.toList_text_token]
    exact absurd (isAlpha_of_mem_plumbingWords hmem _ hquote) (by decide)

theorem Graph.label_not_mem_plumbingWords (hn : n ∈ (ofTree? (some tree)).nodes)
    (hclass : n.nodeClass = .rule) : n.label ∉ plumbingWords := by
  rw [nodes_ofTree?, List.mem_mapIdx] at hn
  obtain ⟨i, hi, rfl⟩ := hn
  have hr := List.getElem_mem hi
  generalize tree.outlineRows[i] = r at hr hclass
  obtain ⟨depth, rule | t⟩ := r
  · have hshown := Tree.isPlumbing_eq_false_of_mem_rows tree hr
    exact mt rule.shortLabel_mem_plumbingWords_iff.mp (Bool.eq_false_iff.mp hshown)
  · cases hclass

end

-- ---------------------------------------------------------------------------
-- Drawings of a line
-- ---------------------------------------------------------------------------

variable {line : String} {number : Nat} {tree : Tree}

theorem Scan.token_lexeme (h : t ∈ (scan text).tokens) : Trimmed t.text.toList ∧
    ((∀ c ∈ t.text.toList, c.isAlpha = true) → t.kind = .name) := by
  obtain ⟨before, kind, l, after, -, hlexeme, rfl⟩ := Scan.exists_of_mem_tokens h
  have htext : (Token.ofLexeme kind l (Position.origin.advanceBy before)).text.toList = l := by
    simp [Token.ofLexeme]
  rw [htext]
  exact ⟨.of_forall fun c => hlexeme.isBlank_eq_false, hlexeme.eq_name⟩

theorem leaves_subset_of_tree? (h : (analyzeLine line number).tree? = some tree) :
    tree.leaves ⊆ (analyzeLine line number).tokens ∧
      (analyzeLine line number).tokens = (scan (Text.trim line)).tokens := by
  by_cases herrors : (scan (Text.trim line)).errors = []
  · cases hparse : parse defaultNestingLimit (scan (Text.trim line)).tokens with
    | error e =>
      rw [analyzeLine_of_error herrors hparse] at h
      cases h
    | ok p =>
      rw [analyzeLine_of_ok herrors hparse] at h ⊢
      cases h
      exact ⟨leaves_subset_of_parse hparse, rfl⟩
  · rw [analyzeLine_of_errors herrors] at h
    cases h

/-- Plumbing rules are not drawn, and the word for one of them is seen only where a name is written
like it, in a simplified outline. -/
theorem plumbing_elided (h : (analyzeLine line number).tree? = some tree) :
    (∀ l ∈ tree.outline .full, Text.trim l ∉ plumbingWords) ∧
      (∀ r ∈ tree.outlineRows, ∀ word ∈ plumbingWords, Text.trim (r.line .simplified) = word ↔
        ∃ t ∈ (analyzeLine line number).tokens,
          r.entry = .token t ∧ t.kind = .name ∧ t.text = word) ∧
      ∀ n ∈ (Graph.ofTree? (some tree)).nodes, n.nodeClass = .rule → n.label ∉ plumbingWords := by
  obtain ⟨hleaves, htokens⟩ := leaves_subset_of_tree? h
  refine ⟨fun l => tree.trim_not_mem_plumbingWords, fun r hr word hword => ?_,
    fun n => Graph.label_not_mem_plumbingWords⟩
  obtain ⟨depth, rule | t⟩ := r
  · have hrule := Row.trim_line_rule hr rfl .simplified
    constructor
    · exact fun hline => absurd (hline ▸ hword) hrule
    · rintro ⟨_, -, hentry, -⟩
      cases hentry
  · have ht : t ∈ (analyzeLine line number).tokens := hleaves (Tree.mem_leaves_of_mem_rows tree hr)
    obtain ⟨htrimmed, hname⟩ := Scan.token_lexeme (htokens ▸ ht)
    have hline : Text.trim (Row.line .simplified ⟨depth, .token t⟩) = t.text :=
      Row.trim_line htrimmed
    rw [hline]
    constructor
    · rintro rfl
      exact ⟨t, ht, rfl, hname (isAlpha_of_mem_plumbingWords hword), rfl⟩
    · rintro ⟨_, -, hentry, -, htext⟩
      cases hentry
      exact htext

/-- In the simplified outline of `statement + x` there is such a name. -/
theorem plumbing_elided_name : ∃ tree, (analyzeLine "statement + x" 1).tree? = some tree ∧
    (∃ r ∈ tree.outlineRows, ∃ t ∈ (analyzeLine "statement + x" 1).tokens,
      r.entry = .token t ∧ t.kind = .name ∧ t.text = "statement") ∧
    (∀ l ∈ tree.outline .full, Text.trim l ∉ plumbingWords) ∧
    ∀ n ∈ (Graph.ofTree? (some tree)).nodes, n.nodeClass = .rule → n.label ∉ plumbingWords := by
  have hline : (analyzeLine "statement + x" 1).tree?.any (fun tree => tree.outlineRows.any
      fun r => Text.trim (r.line .simplified) = "statement") = true := by
    decide +kernel
  obtain ⟨tree, htree, hrows⟩ := (Option.any_eq_true ..).mp hline
  obtain ⟨r, hr, hword⟩ := List.any_eq_true.mp hrows
  obtain ⟨hfull, hsimplified, hgraph⟩ := plumbing_elided htree
  have hname := (hsimplified r hr "statement" (by decide)).mp (of_decide_eq_true hword)
  exact ⟨tree, htree, ⟨r, hr, hname⟩, hfull, hgraph⟩

/-- The last line of the simplified outline of `statement` is the word for a plumbing rule. -/
theorem plumbingWord_mem_outline :
    ∃ l ∈ (analyzeLine "statement" 1).outline .simplified, Text.trim l = "statement" := by
  decide +kernel

end FormulaCheck
