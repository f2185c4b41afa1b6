import FormulaCheck.Proofs.Analysis.Layout
import FormulaCheck.Proofs.Drawings

/-!
# What a full outline shows

A full outline shows a tree as items: its rules and tokens without their places, each with the
items that stand below it. The parts of a plumbing rule are items where the rule would be one. The
depths of the lines tell what stands below what, and the words of a line tell what it is for, so
that two trees have one outline exactly if they have the same items (`Tree.outline_full_eq_iff`).
-/

namespace FormulaCheck

-- ---------------------------------------------------------------------------
-- Words
-- ---------------------------------------------------------------------------

theorem Rule.colon_not_mem_label (r : Rule) : ':' ∉ r.label.toList := by
  cases r <;> decide

theorem Token.Kind.colon_not_mem_label (k : Token.Kind) : ':' ∉ k.label.toList := by
  cases k <;> decide

namespace Outline

-- ---------------------------------------------------------------------------
-- Lines
-- ---------------------------------------------------------------------------

def Entry.unplaced : Entry → Entry
  | .rule r => .rule r
  | .token t => .token t.unplaced

def Row.unplaced (r : Row) : Row := ⟨r.depth, r.entry.unplaced⟩

theorem Entry.toList_text_token (t : Token) : ((Entry.token t).text .full).toList =
    t.kind.label.toList ++ ':' :: ' ' :: '"' :: (t.text.toList ++ ['"']) := by
  simp [text, toString]

theorem Entry.unplaced_eq_of_text {e e' : Entry} (h : e.text .full = e'.text .full) :
    e.unplaced = e'.unplaced := by
  have hchars := congrArg String.toList h
  cases e with
  | rule r =>
    cases e' with
    | rule r' => rw [Rule.label_injective h]
    | token t =>
      rw [toList_text_token] at hchars
      exact absurd (hchars ▸ by simp) r.colon_not_mem_label
  | token t =>
    cases e' with
    | rule r =>
      rw [toList_text_token] at hchars
      exact absurd (hchars ▸ by simp) r.colon_not_mem_label
    | token t' =>
      rw [toList_text_token, toList_text_token] at hchars
      obtain ⟨hlabel, hrest⟩ := Text.append_cons_inj (Token.Kind.colon_not_mem_label _)
        (Token.Kind.colon_not_mem_label _) hchars
      have hkind := Token.Kind.label_injective (String.toList_inj.mp hlabel)
      have htext := List.append_cancel_right (List.cons.inj (List.cons.inj hrest).2).2
      simp [unplaced, Token.unplaced, hkind, String.toList_inj.mp htext]

theorem toList_indentation_succ (depth : Nat) :
    (indentation (depth + 1)).toList = ' ' :: ' ' :: (indentation depth).toList := by
  simp [indentation, indent, List.replicate_succ]

/-- No text begins with a space, so that the spaces of a line end where the text begins. -/
theorem indentation_append_inj {cs cs' : List Char} (hcs : cs.head? ≠ some ' ')
    (hcs' : cs'.head? ≠ some ' ') (h : (indentation depth).toList ++ cs =
      (indentation depth').toList ++ cs') : depth = depth' ∧ cs = cs' := by
  induction depth generalizing depth' with
  | zero =>
    cases depth' with
    | zero => exact ⟨rfl, h⟩
    | succ depth' =>
      obtain rfl : cs = _ := h
      simp [toList_indentation_succ] at hcs
  | succ depth ih =>
    cases depth' with
    | zero =>
      obtain rfl : _ = cs' := h
      simp [toList_indentation_succ] at hcs'
    | succ depth' =>
      simp only [toList_indentation_succ, List.cons_append] at h
      obtain ⟨rfl, rfl⟩ := ih (List.cons.inj (List.cons.inj h).2).2
      exact ⟨rfl, rfl⟩

theorem Row.unplaced_eq_of_line {r r' : Row} (h : r.line .full = r'.line .full) :
    r.unplaced = r'.unplaced := by
  have hchars := congrArg String.toList h
  rw [line, line, String.toList_append, String.toList_append] at hchars
  obtain ⟨hdepth, htext⟩ :=
    indentation_append_inj r.entry.text_full_head r'.entry.text_full_head hchars
  rw [unplaced, unplaced, hdepth, Entry.unplaced_eq_of_text (String.toList_inj.mp htext)]

theorem Row.line_unplaced (style : OutlineStyle) (r : Row) :
    r.unplaced.line style = r.line style := by
  obtain ⟨depth, rule | token⟩ := r <;> cases style <;> rfl

theorem map_line_full_eq_iff {rows rows' : List Row} :
    rows.map (Row.line .full) = rows'.map (Row.line .full) ↔
      rows.map Row.unplaced = rows'.map Row.unplaced := by
  constructor
  · intro h
    induction rows generalizing rows' with
    | nil => rw [List.map_eq_nil_iff.mp h.symm]
    | cons r rows ih =>
      obtain ⟨r', rows', rfl, hfirst, hmore⟩ := List.map_eq_cons_iff.mp h.symm
      rw [List.map_cons, List.map_cons, Row.unplaced_eq_of_line hfirst, ih hmore.symm]
  · intro h
    have hlines := congrArg (List.map (Row.line .full)) h
    simpa [Function.comp_def, Row.line_unplaced] using hlines

-- ---------------------------------------------------------------------------
-- Items
-- ---------------------------------------------------------------------------

/-- An entry with the items that stand below it. -/
inductive Item
  | mk (entry : Entry) (below : List Item)

namespace Item

mutual

def rowsAt (depth : Nat) : Item → List Row
  | .mk entry below => ⟨depth, entry⟩ :: allRowsAt (depth + 1) below

def allRowsAt (depth : Nat) : List Item → List Row
  | [] => []
  | i :: is => rowsAt depth i ++ allRowsAt depth is

end

theorem allRowsAt_append (depth : Nat) (is js : List Item) :
    allRowsAt depth (is ++ js) = allRowsAt depth is ++ allRowsAt depth js := by
  induction is with
  | nil => rfl
  | cons i is ih => simp [allRowsAt, ih]

/-- The next row stands less deep than a depth, if there is one. -/
def Outside (depth : Nat) (rows : List Row) : Prop := ∀ r ∈ rows.head?, r.depth < depth

theorem outside_nil (depth : Nat) : Outside depth [] := by simp [Outside]

theorem Outside.below (h : Outside depth rows) (is : List Item) :
    Outside (depth + 1) (allRowsAt depth is ++ rows) := by
  cases is with
  | nil => exact fun r hr => Nat.lt_succ_of_lt (h r hr)
  | cons i is =>
    obtain ⟨entry, below⟩ := i
    simp [Outside, allRowsAt, rowsAt]

mutual

/-- The rows for an item end where a row comes that stands no deeper than the item. -/
theorem rowsAt_append_inj : (i j : Item) → Outside (depth + 1) rows → Outside (depth + 1) rows' →
    i.rowsAt depth ++ rows = j.rowsAt depth ++ rows' → i = j ∧ rows = rows'
  | .mk entry below, .mk entry' below', h, h', heq => by
    obtain ⟨hrow, hmore⟩ := List.cons.inj heq
    obtain ⟨rfl, rfl⟩ := allRowsAt_append_inj below below' h h' hmore
    cases hrow
    exact ⟨rfl, rfl⟩

theorem allRowsAt_append_inj : (is js : List Item) → Outside depth rows → Outside depth rows' →
    allRowsAt depth is ++ rows = allRowsAt depth js ++ rows' → is = js ∧ rows = rows'
  | [], [], _, _, heq => ⟨rfl, heq⟩
  | [], .mk entry below :: js, h, _, heq => by
    obtain rfl : rows = _ := heq
    exact absurd (h _ rfl) (Nat.lt_irrefl depth)
  | .mk entry below :: is, [], _, h', heq => by
    obtain rfl : _ = rows' := heq
    exact absurd (h' _ rfl) (Nat.lt_irrefl depth)
  | i :: is, j :: js, h, h', heq => by
    simp only [allRowsAt, List.append_assoc] at heq
    obtain ⟨rfl, hmore⟩ := rowsAt_append_inj i j (h.below is) (h'.below js) heq
    obtain ⟨rfl, rfl⟩ := allRowsAt_append_inj is js h h' hmore
    exact ⟨rfl, rfl⟩

end

theorem allRowsAt_injective (depth : Nat) : Function.Injective (allRowsAt depth) := fun is js h =>
  (allRowsAt_append_inj is js (outside_nil _) (outside_nil _) (congrArg (· ++ []) h)).1

end Item

end Outline

open Outline

-- ---------------------------------------------------------------------------
-- The items of a tree
-- ---------------------------------------------------------------------------

namespace Tree

mutual

def items : Tree → List Item
  | .leaf t => [.mk (.token t.unplaced) []]
  | .node rule children _ =>
    if rule.isPlumbing then forestItems children else [.mk (.rule rule) (forestItems children)]

def forestItems : Forest → List Item
  | [] => []
  | t :: ts => items t ++ forestItems ts

end

mutual

theorem outlineRowsAt_unplaced (depth : Nat) : (t : Tree) →
    (t.outlineRowsAt depth).map Row.unplaced = Item.allRowsAt depth t.items
  | .leaf _ => rfl
  | .node rule children _ => by
    unfold outlineRowsAt items
    split
    · exact forestRowsAt_unplaced depth children
    · simp only [Item.allRowsAt, Item.rowsAt, List.append_nil, List.map_cons,
        forestRowsAt_unplaced (depth + 1) children]
      rfl

theorem forestRowsAt_unplaced (depth : Nat) : (ts : Forest) →
    (forestRowsAt depth ts).map Row.unplaced = Item.allRowsAt depth (forestItems ts)
  | [] => rfl
  | t :: ts => by
    rw [forestRowsAt, List.map_append, outlineRowsAt_unplaced depth t,
      forestRowsAt_unplaced depth ts, forestItems, Item.allRowsAt_append]

end

theorem outline_full_eq_iff {t u : Tree} : t.outline .full = u.outline .full ↔
    t.items = u.items := by
  rw [outline, outline, map_line_full_eq_iff, outlineRows, outlineRows, outlineRowsAt_unplaced,
    outlineRowsAt_unplaced]
  exact (Item.allRowsAt_injective 0).eq_iff

end Tree

end FormulaCheck
