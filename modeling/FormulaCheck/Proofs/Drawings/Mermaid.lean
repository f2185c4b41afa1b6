import FormulaCheck.Proofs.Analysis
import FormulaCheck.Proofs.Drawings
import FormulaCheck.Proofs.Parse.Recovery

/-!
# Graphs read back from their text

The text of a graph has a line for each node and each edge. A label without a backslash is read back
from its quotes (`Graph.readLabel_escape`), and no label ends its line, so that the text of a graph
with such labels tells the graph (`Graph.Plain.eq_of_mermaid_eq`). The labels of the graph of a line
are words for rules and texts of tokens, in which there is no backslash, whatever had to be repaired
(`LineAnalysis.graph_cases`).
-/

namespace FormulaCheck

namespace Graph

-- ---------------------------------------------------------------------------
-- Labels
-- ---------------------------------------------------------------------------

/-- The label up to the quote that ends it, with its escapes undone, and what comes after it. -/
def readLabel : List Char → Option (List Char × List Char)
  | [] => none
  | '"' :: rest => some ([], rest)
  | '\\' :: 'n' :: rest => (readLabel rest).map fun (cs, after) => ('\n' :: cs, after)
  | '\\' :: 'r' :: rest => (readLabel rest).map fun (cs, after) => ('\r' :: cs, after)
  | '\\' :: c :: rest => (readLabel rest).map fun (cs, after) => (c :: cs, after)
  | c :: rest => (readLabel rest).map fun (cs, after) => (c :: cs, after)

theorem readLabel_escapeChar (hc : c ≠ '\\') (rest : List Char) :
    readLabel (escapeChar c ++ rest) =
      (readLabel rest).map fun (cs, after) => (c :: cs, after) := by
  unfold escapeChar
  split
  · rfl
  · rfl
  · next hn hr =>
    split
    · next hspecial =>
      simp only [List.mem_cons, List.not_mem_nil, or_false] at hspecial
      rcases hspecial with rfl | rfl | rfl | rfl | rfl | rfl | rfl <;> rfl
    · cases rest <;> simp_all [readLabel]

theorem readLabel_escape (h : '\\' ∉ cs) (rest : List Char) :
    readLabel (cs.flatMap escapeChar ++ '"' :: rest) = some (cs, rest) := by
  induction cs with
  | nil => rfl
  | cons c cs ih =>
    rw [List.mem_cons, not_or] at h
    rw [List.flatMap_cons, List.append_assoc, readLabel_escapeChar (Ne.symm h.1), ih h.2]
    rfl

theorem lineFeed_not_mem_escapeChar (c : Char) : '\n' ∉ escapeChar c := by
  unfold escapeChar
  split
  · decide
  · decide
  · next hn _ => split <;> simpa using Ne.symm hn

theorem lineFeed_not_mem_escape (cs : List Char) : '\n' ∉ cs.flatMap escapeChar := by
  simp [lineFeed_not_mem_escapeChar]

-- ---------------------------------------------------------------------------
-- Lines
-- ---------------------------------------------------------------------------

theorem NodeId.isAlphanum_of_mem_render (id : NodeId) (h : c ∈ id.render.toList) :
    c.isAlphanum = true := by
  cases id with
  | placeholder =>
    obtain rfl : c = 'A' := by simpa [render] using h
    rfl
  | numbered i =>
    have hc : c ∈ "node".toList ∨ c ∈ Nat.toDigits 10 i := by
      rw [render, String.toList_append, List.mem_append] at h
      exact h.imp id fun h => Nat.toList_repr ▸ h
    rcases hc with hc | hc
    · exact List.all_eq_true.mp (by decide : "node".toList.all Char.isAlphanum) c hc
    · have hdigit := Nat.isDigit_of_mem_toDigits (by decide) (by decide) hc
      simp [Char.isAlphanum, hdigit]

theorem NodeId.render_injective : Function.Injective NodeId.render := by
  intro a b h
  have hchars := congrArg String.toList h
  cases a with
  | placeholder =>
    cases b with
    | placeholder => rfl
    | numbered j => simp [render, toString] at hchars
  | numbered i =>
    cases b with
    | placeholder => simp [render, toString] at hchars
    | numbered j =>
      have hdigits : Nat.toDigits 10 i = Nat.toDigits 10 j := by
        simpa [render, toString] using hchars
      have hvalue := congrArg (fun cs => Nat.ofDigitChars 10 cs 0) hdigits
      simpa using hvalue

theorem NodeClass.eq_of_label_eq {a b : NodeClass} (h : a.label = b.label) : a = b := by
  cases a <;> cases b <;> simp_all [label]

theorem NodeId.not_mem_render {id : NodeId} (hc : c.isAlphanum = false) :
    c ∉ id.render.toList := fun h => by simp [id.isAlphanum_of_mem_render h] at hc

def Node.line (n : Node) : List Char :=
  ' ' :: ' ' :: (n.id.render.toList ++ '[' :: '"' :: (n.label.toList.flatMap escapeChar ++
    '"' :: ("]:::".toList ++ n.nodeClass.label.toList)))

def Edge.line (e : Edge) : List Char :=
  ' ' :: ' ' :: (e.source.render.toList ++ ' ' :: ("--> ".toList ++ e.target.render.toList))

theorem Node.toList_mermaid (n : Node) : n.mermaid.toList = n.line ++ ['\n'] := by
  simp [mermaid, line, escapeLabel]

theorem Edge.toList_mermaid (e : Edge) : e.mermaid.toList = e.line ++ ['\n'] := by
  simp [mermaid, line]

theorem Node.lineFeed_not_mem_line (n : Node) : '\n' ∉ n.line := by
  have hid : '\n' ∉ n.id.render.toList := NodeId.not_mem_render rfl
  have hlabel := lineFeed_not_mem_escape n.label.toList
  have hclass : '\n' ∉ n.nodeClass.label.toList := by cases n.nodeClass <;> decide
  simp [line, hid, hlabel, hclass]

theorem Edge.lineFeed_not_mem_line (e : Edge) : '\n' ∉ e.line := by
  have hsource : '\n' ∉ e.source.render.toList := NodeId.not_mem_render rfl
  have htarget : '\n' ∉ e.target.render.toList := NodeId.not_mem_render rfl
  simp [line, hsource, htarget]

theorem Node.bracket_mem_line (n : Node) : '[' ∈ n.line := by simp [line]

theorem Edge.bracket_not_mem_line (e : Edge) : '[' ∉ e.line := by
  have hsource : '[' ∉ e.source.render.toList := NodeId.not_mem_render rfl
  have htarget : '[' ∉ e.target.render.toList := NodeId.not_mem_render rfl
  simp [line, hsource, htarget]

theorem Node.eq_of_line_eq {m n : Node} (hm : '\\' ∉ m.label.toList) (hn : '\\' ∉ n.label.toList)
    (h : m.line = n.line) : m = n := by
  obtain ⟨hid, hrest⟩ := Text.append_cons_inj (NodeId.not_mem_render rfl)
    (NodeId.not_mem_render rfl) (List.cons.inj (List.cons.inj h).2).2
  have hread := congrArg readLabel (List.cons.inj hrest).2
  rw [readLabel_escape hm, readLabel_escape hn] at hread
  obtain ⟨hlabel, hclass⟩ := Prod.mk.inj (Option.some.inj hread)
  obtain ⟨id, label, nodeClass⟩ := m
  obtain ⟨id', label', nodeClass'⟩ := n
  obtain rfl := NodeId.render_injective (String.toList_inj.mp hid)
  obtain rfl := String.toList_inj.mp hlabel
  obtain rfl := NodeClass.eq_of_label_eq (String.toList_inj.mp (List.append_cancel_left hclass))
  rfl

theorem Node.eq_of_map_line_eq {ms ns : List Node} (hms : ∀ m ∈ ms, '\\' ∉ m.label.toList)
    (hns : ∀ n ∈ ns, '\\' ∉ n.label.toList) (h : ms.map line = ns.map line) : ms = ns := by
  induction ms generalizing ns with
  | nil => exact (List.map_eq_nil_iff.mp h.symm).symm
  | cons m ms ih =>
    obtain ⟨n, ns, rfl, hfirst, hmore⟩ := List.map_eq_cons_iff.mp h.symm
    obtain ⟨hm, hms⟩ := List.forall_mem_cons.mp hms
    obtain ⟨hn, hns⟩ := List.forall_mem_cons.mp hns
    rw [Node.eq_of_line_eq hm hn hfirst.symm, ih hms hns hmore.symm]

theorem Edge.line_injective : Function.Injective Edge.line := by
  intro d e h
  obtain ⟨hsource, hrest⟩ := Text.append_cons_inj (NodeId.not_mem_render rfl)
    (NodeId.not_mem_render rfl) (List.cons.inj (List.cons.inj h).2).2
  obtain ⟨source, target⟩ := d
  obtain ⟨source', target'⟩ := e
  obtain rfl := NodeId.render_injective (String.toList_inj.mp hsource)
  obtain rfl := NodeId.render_injective (String.toList_inj.mp (List.append_cancel_left hrest))
  rfl

-- ---------------------------------------------------------------------------
-- Graphs
-- ---------------------------------------------------------------------------

def lines (g : Graph) : List (List Char) := g.nodes.map Node.line ++ g.edges.map Edge.line

theorem lineFeed_not_mem_of_mem_lines {g : Graph} (h : l ∈ g.lines) : '\n' ∉ l := by
  rcases List.mem_append.mp h with h | h
  · obtain ⟨n, -, rfl⟩ := List.mem_map.mp h
    exact n.lineFeed_not_mem_line
  · obtain ⟨e, -, rfl⟩ := List.mem_map.mp h
    exact e.lineFeed_not_mem_line

theorem toList_mermaid {g : Graph} (h : g.isPlaceholder = false) : g.mermaid.toList =
    "graph TD\n".toList ++ (g.lines.flatMap (· ++ ['\n']) ++
      ("\n" ++ "\n".intercalate classDefinitions).toList) := by
  simp [mermaid, h, lines, List.flatMap_map, Node.toList_mermaid, Edge.toList_mermaid]

theorem splitChars_lines {ls : List (List Char)} (h : ∀ l ∈ ls, '\n' ∉ l) (rest : List Char) :
    Text.splitChars '\n' (ls.flatMap (· ++ ['\n']) ++ rest) = ls ++ Text.splitChars '\n' rest := by
  induction ls with
  | nil => rfl
  | cons l ls ih =>
    obtain ⟨hl, hls⟩ := List.forall_mem_cons.mp h
    rw [List.flatMap_cons, List.append_assoc, List.append_assoc, List.singleton_append,
      Text.splitChars_append_cons, Text.splitChars_of_not_mem hl, ih hls]
    rfl

theorem lines_eq_of_mermaid_eq {g h : Graph} (hg : g.isPlaceholder = false)
    (hh : h.isPlaceholder = false) (heq : g.mermaid = h.mermaid) : g.lines = h.lines := by
  have hchars := congrArg String.toList heq
  rw [toList_mermaid hg, toList_mermaid hh] at hchars
  have hpieces := congrArg (Text.splitChars '\n') (List.append_cancel_left hchars)
  rw [splitChars_lines fun l => lineFeed_not_mem_of_mem_lines,
    splitChars_lines fun l => lineFeed_not_mem_of_mem_lines] at hpieces
  exact List.append_cancel_right hpieces

theorem filter_lines (g : Graph) :
    g.lines.filter ('[' ∈ ·) = g.nodes.map Node.line ∧
      g.lines.filter ('[' ∉ ·) = g.edges.map Edge.line := by
  simp [lines, List.filter_append, List.filter_map, Function.comp_def, Node.bracket_mem_line,
    Edge.bracket_not_mem_line]

structure Plain (g : Graph) : Prop where
  labels : ∀ n ∈ g.nodes, '\\' ∉ n.label.toList
  drawn : g.isPlaceholder = false

theorem Plain.eq_of_mermaid_eq {g h : Graph} (hg : g.Plain) (hh : h.Plain)
    (heq : g.mermaid = h.mermaid) : g = h := by
  have hlines := lines_eq_of_mermaid_eq hg.drawn hh.drawn heq
  have hnodes : g.nodes.map Node.line = h.nodes.map Node.line := by
    rw [← (filter_lines g).1, hlines, (filter_lines h).1]
  have hedges : g.edges.map Edge.line = h.edges.map Edge.line := by
    rw [← (filter_lines g).2, hlines, (filter_lines h).2]
  obtain ⟨nodes, edges⟩ := g
  obtain ⟨nodes', edges'⟩ := h
  obtain rfl := Node.eq_of_map_line_eq hg.labels hh.labels hnodes
  obtain rfl := List.map_injective_iff.mpr Edge.line_injective hedges
  rfl

theorem colon_mem_classDefinitions : ':' ∈ ("\n".intercalate classDefinitions).toList := by
  rw [classDefinitions, String.intercalate_cons_cons, String.toList_append, String.toList_append]
  exact List.mem_append_left _ (List.mem_append_left _ (by decide +kernel))

/-- Only a drawn graph has classes in its text. -/
theorem Plain.mermaid_ne_placeholder {g : Graph} (hg : g.Plain) :
    g.mermaid ≠ placeholder.mermaid := by
  intro heq
  have hmem : ':' ∈ g.mermaid.toList := by
    rw [toList_mermaid hg.drawn, String.toList_append]
    exact List.mem_append_right _ (List.mem_append_right _
      (List.mem_append_right _ colon_mem_classDefinitions))
  rw [heq] at hmem
  exact absurd hmem (by decide +kernel)

theorem isPlaceholder_ofTree? (t : Tree) : (ofTree? (some t)).isPlaceholder = false := by
  unfold isPlaceholder
  split
  · next n hn _ =>
    have hmem : n ∈ (ofTree? (some t)).nodes := by simp [hn]
    rw [nodes_ofTree?, List.mem_mapIdx] at hmem
    obtain ⟨i, _, rfl⟩ := hmem
    rfl
  · rfl

end Graph

def Outline.Entry.IsFrom (tokens : List Token) : Entry → Prop
  | .rule r => r.isPlumbing = false
  | .token t => t ∈ tokens

theorem Outline.Entry.IsFrom.mono {e : Entry} (h : e.IsFrom tokens) (hsub : tokens ⊆ tokens') :
    e.IsFrom tokens' := by
  cases e with
  | rule => exact h
  | token => exact hsub h

namespace Tree

open Outline (Row)

mutual

theorem isFrom_of_mem_rows {r : Row} : (tree : Tree) → r ∈ tree.outlineRowsAt d →
    r.entry.IsFrom tree.leaves
  | .leaf _, h => by
    cases List.mem_singleton.mp h
    exact List.mem_singleton_self _
  | .node _ children _, h => by
    unfold outlineRowsAt at h
    split at h
    · exact isFrom_of_mem_forestRows children h
    · next hshown =>
      rcases List.mem_cons.mp h with rfl | h
      · exact Bool.eq_false_iff.mpr hshown
      · exact isFrom_of_mem_forestRows children h

theorem isFrom_of_mem_forestRows {r : Row} : (trees : Forest) → r ∈ forestRowsAt d trees →
    r.entry.IsFrom (forestLeaves trees)
  | [], h => nomatch h
  | tree :: trees, h => by
    rcases List.mem_append.mp h with h | h
    · exact (isFrom_of_mem_rows tree h).mono (List.subset_append_left ..)
    · exact (isFrom_of_mem_forestRows trees h).mono (List.subset_append_right ..)

end

theorem mem_leaves_of_mem_rows (tree : Tree) (h : ⟨n, .token t⟩ ∈ tree.outlineRowsAt d) :
    t ∈ tree.leaves :=
  isFrom_of_mem_rows tree h

theorem isPlumbing_eq_false_of_mem_rows (tree : Tree) (h : ⟨n, .rule r⟩ ∈ tree.outlineRowsAt d) :
    r.isPlumbing = false :=
  isFrom_of_mem_rows tree h

end Tree

theorem Graph.plain_ofTree? (h : ∀ token ∈ tree.leaves, '\\' ∉ token.text.toList) :
    (ofTree? (some tree)).Plain where
  labels n hn := by
    rw [nodes_ofTree?, List.mem_mapIdx] at hn
    obtain ⟨i, hi, rfl⟩ := hn
    have hmem := List.getElem_mem hi
    generalize tree.outlineRows[i] = r at hmem
    obtain ⟨depth, rule | token⟩ := r
    · have hlabel : '\\' ∉ rule.shortLabel.toList := by cases rule <;> decide
      exact hlabel
    · exact h token (Tree.mem_leaves_of_mem_rows tree hmem)
  drawn := isPlaceholder_ofTree? tree

theorem Scan.backslash_not_mem_text (h : t ∈ (scan text).tokens) : '\\' ∉ t.text.toList := by
  obtain ⟨before, kind, l, after, -, hlexeme, rfl⟩ := Scan.exists_of_mem_tokens h
  intro hmem
  have hallowed : Alphabet.isAllowed '\\' = true :=
    hlexeme.isAllowed (by simpa [Token.ofLexeme] using hmem)
  revert hallowed
  decide

theorem LineAnalysis.graph_cases (line : String) (number : Nat) :
    (analyzeLine line number).graph = .placeholder ∨ (analyzeLine line number).graph.Plain := by
  by_cases herrors : (scan (Text.trim line)).errors = []
  · cases hparse : parse defaultNestingLimit (scan (Text.trim line)).tokens with
    | error e => exact .inl (by rw [analyzeLine_of_error herrors hparse]; rfl)
    | ok p =>
      rw [analyzeLine_of_ok herrors hparse]
      refine .inr (Graph.plain_ofTree? fun t ht => ?_)
      exact Scan.backslash_not_mem_text (leaves_subset_of_parse hparse ht)
  · exact .inl (by rw [analyzeLine_of_errors herrors]; rfl)

/-- Two lines have the same text for their graphs only if they have the same graph. -/
theorem mermaid_eq_iff (line line' : String) (number number' : Nat) :
    (analyzeLine line number).graph.mermaid = (analyzeLine line' number').graph.mermaid ↔
      (analyzeLine line number).graph = (analyzeLine line' number').graph := by
  refine ⟨fun heq => ?_, congrArg Graph.mermaid⟩
  rcases LineAnalysis.graph_cases line number with hg | hg
  · rcases LineAnalysis.graph_cases line' number' with hh | hh
    · rw [hg, hh]
    · exact absurd (heq.symm.trans (congrArg _ hg)) hh.mermaid_ne_placeholder
  · rcases LineAnalysis.graph_cases line' number' with hh | hh
    · exact absurd (heq.trans (congrArg _ hh)) hg.mermaid_ne_placeholder
    · exact hg.eq_of_mermaid_eq hh heq

end FormulaCheck
