import FormulaCheck.Graph
import FormulaCheck.Proofs.Json.Bounds
import FormulaCheck.Proofs.Nesting
import FormulaCheck.Proofs.Parse.Reads
import FormulaCheck.Tree.Outline

/-!
# How high the tree of a parse is

The limit on nested groups bounds the height of the tree, however many tokens there are
(`Parse.ReadsStatement.height_le`). A part of a statement has at most so many trees on a path as
`Part.levels` says when it has no groups in it, and each group that may open adds five of them.

A walk over a tree is in as many trees at once as it has entered levels. Leaves, outlines and graphs
are made by walks, and a walk that gives up below some level makes the same of every tree that is no
higher (`Walk.Makes.within_eq`).
-/

namespace FormulaCheck

namespace Tree

-- ---------------------------------------------------------------------------
-- Heights
-- ---------------------------------------------------------------------------

mutual

/-- The most trees on a path from the root. -/
def height : Tree → Nat
  | .leaf _ => 1
  | .node _ parts _ => forestHeight parts + 1

def forestHeight : Forest → Nat
  | [] => 0
  | t :: ts => max (height t) (forestHeight ts)

end

theorem forestHeight_le_iff {ts : Forest} : forestHeight ts ≤ n ↔ ∀ t ∈ ts, t.height ≤ n := by
  induction ts with
  | nil => simp [forestHeight]
  | cons t ts ih => rw [forestHeight, Nat.max_le, ih, List.forall_mem_cons]

theorem height_lt_of_mem_children {t : Tree} (h : u ∈ t.children) : u.height < t.height := by
  cases t with
  | leaf => cases h
  | node => exact Nat.lt_succ_of_le (forestHeight_le_iff.mp (Nat.le_refl _) u h)

theorem Path.length_le_height (h : Path t path u) : path.length ≤ t.height := by
  induction h with
  | @here t => cases t <;> simp [height]
  | down hu _ ih => exact Nat.lt_of_le_of_lt ih (height_lt_of_mem_children hu)

mutual

theorem Path.exists_of_height : (t : Tree) → ∃ path u, Path t path u ∧ path.length = t.height
  | .leaf t => ⟨_, .leaf t, .here, rfl⟩
  | .node rule ts repaired => by
    rcases Path.exists_of_forestHeight ts with rfl | ⟨v, hv, path, u, hpath, hlength⟩
    · exact ⟨_, .node rule [] repaired, .here, rfl⟩
    · exact ⟨_, u, .down hv hpath, congrArg Nat.succ hlength⟩

theorem Path.exists_of_forestHeight : (ts : Forest) →
    ts = [] ∨ ∃ v ∈ ts, ∃ path u, Path v path u ∧ path.length = forestHeight ts
  | [] => .inl rfl
  | t :: ts => by
    refine .inr ?_
    rw [forestHeight]
    rcases Nat.lt_or_ge t.height (forestHeight ts) with hlt | hge
    · rcases Path.exists_of_forestHeight ts with rfl | ⟨v, hv, path, u, hpath, hlength⟩
      · cases hlt
      · refine ⟨v, List.mem_cons_of_mem _ hv, path, u, hpath, ?_⟩
        rw [hlength, Nat.max_eq_right (Nat.le_of_lt hlt)]
    · obtain ⟨path, u, hpath, hlength⟩ := Path.exists_of_height t
      exact ⟨t, List.mem_cons_self .., path, u, hpath, hlength.trans (Nat.max_eq_left hge).symm⟩

end

theorem height_le_iff {t : Tree} : t.height ≤ n ↔ ∀ path u, Path t path u → path.length ≤ n := by
  constructor
  · exact fun h path u hpath => Nat.le_trans hpath.length_le_height h
  · intro h
    obtain ⟨path, u, hpath, hlength⟩ := Path.exists_of_height t
    exact hlength ▸ h path u hpath

theorem height_arranged_le (t : Tree) : t.arranged.height ≤ t.height := by
  rw [height_le_iff]
  intro path u hpath
  obtain ⟨path', u', hpath', rfl, -⟩ := hpath.exists_of_arranged
  rw [List.length_map]
  exact hpath'.length_le_height

end Tree

-- ---------------------------------------------------------------------------
-- What is read
-- ---------------------------------------------------------------------------

namespace Parse

open FormulaCheck.Tree (height forestHeight)

/-- The most trees on a path in a part without groups. -/
def Part.levels : Part → Nat
  | .factor => 2
  | .tail .product => 3
  | .chain .product => 4
  | .tail .sum => 5
  | .chain .sum => 6

theorem Layer.levels_eq (layer : Layer) : (Part.tail layer).levels = layer.operand.levels + 1 ∧
    (Part.chain layer).levels = layer.operand.levels + 2 := by
  cases layer <;> exact ⟨rfl, rfl⟩

theorem Closes.height_le (h : Closes opening content s d s') (hcontent : content.height ≤ n)
    (hn : 0 < n) : d.height ≤ n + 1 := by
  cases h <;> simp [height, forestHeight] <;> omega

theorem Part.one_lt_levels (part : Part) : 1 < part.levels := by
  rcases part with _ | layer | layer
  · decide
  · cases layer <;> decide
  · cases layer <;> decide

/-- Each group that may open adds its factor and the four trees from there to the next factor. -/
theorem Reads.height_le (h : Reads n part s d s') : d.height ≤ 5 * n + part.levels := by
  induction h with
  | @chain _ _ _ _ layer _ _ _ _ ihFirst ihMore =>
    obtain ⟨htail, hchain⟩ := layer.levels_eq
    simp only [height, forestHeight]
    omega
  | @tailEnd _ layer =>
    have hpos := (Part.tail layer).one_lt_levels
    simp only [height, forestHeight]
    omega
  | @tailMore _ _ _ _ _ layer _ _ _ _ _ _ _ ihOperand ihMore =>
    obtain ⟨htail, -⟩ := layer.levels_eq
    have hpos := layer.operand.one_lt_levels
    simp only [height, forestHeight] at ihMore ⊢
    omega
  | symbol =>
    simp only [height, forestHeight, Part.levels]
    omega
  | group _ _ _ hclose ih =>
    have hgroup := hclose.height_le ih (Nat.succ_pos _)
    simp only [Part.levels] at hgroup ⊢
    omega
  | stray _ _ _ ih => exact ih
  | empty =>
    simp only [height, forestHeight, Part.levels]
    omega

theorem ReadsStatement.height_le (h : ReadsStatement n s d s') : d.height ≤ 5 * n + 8 := by
  cases h with
  | assigned _ _ _ hvalue =>
    have hvalue := hvalue.height_le
    simp only [height, forestHeight, Part.levels] at hvalue ⊢
    omega
  | plain _ hvalue =>
    have hvalue := hvalue.height_le
    simp only [height, forestHeight, Part.levels] at hvalue ⊢
    omega

end Parse

-- ---------------------------------------------------------------------------
-- Walks
-- ---------------------------------------------------------------------------

structure Walk (α : Type) where
  token : Token → α
  rule : Rule → List α → α

namespace Walk

/-- What a walk makes of a tree, if it never is in more than so many trees at once. -/
def within (w : Walk α) : Nat → Tree → Option α
  | 0, _ => none
  | _ + 1, .leaf t => some (w.token t)
  | levels + 1, .node r parts _ => (parts.mapM (w.within levels)).map (w.rule r)

structure Makes (w : Walk α) (f : Tree → α) : Prop where
  token : ∀ t, f (.leaf t) = w.token t
  rule : ∀ r parts repaired, f (.node r parts repaired) = w.rule r (parts.map f)

theorem Makes.within_eq {w : Walk α} (h : w.Makes f) {t : Tree} (ht : t.height ≤ levels) :
    w.within levels t = some (f t) := by
  induction levels generalizing t with
  | zero => cases t <;> simp [Tree.height] at ht
  | succ levels ih =>
    cases t with
    | leaf t => exact congrArg some (h.token t).symm
    | node r parts repaired =>
      have hparts : ∀ u ∈ parts, w.within levels u = some (f u) := fun u hu =>
        ih (Tree.forestHeight_le_iff.mp (Nat.le_of_succ_le_succ ht) u hu)
      have hall : parts.mapM (w.within levels) = some (parts.map f) :=
        mapM_eq_some_iff.mpr (List.forall₂_map_right_iff.mpr (List.forall₂_same.mpr hparts))
      rw [within, hall, h.rule]
      rfl

def leaves : Walk (List Token) where
  token t := [t]
  rule _ parts := parts.flatten

def outline : Walk (Nat → List Outline.Row) where
  token t depth := [⟨depth, .token t⟩]
  rule r parts depth :=
    if r.isPlumbing then parts.flatMap (· depth)
    else ⟨depth, .rule r⟩ :: parts.flatMap (· (depth + 1))

def inTurn (parent? : Option Graph.NodeId) (next : Nat) :
    List (Option Graph.NodeId → Nat → Graph × Nat) → Graph × Nat
  | [] => (⟨[], []⟩, next)
  | part :: parts =>
    let (first, between) := part parent? next
    let (rest, free) := inTurn parent? between parts
    (first ++ rest, free)

def graph : Walk (Option Graph.NodeId → Nat → Graph × Nat) where
  token t parent? next := (Graph.single parent? ⟨.numbered next, t.text, .token⟩, next + 1)
  rule r parts parent? next :=
    if r.isPlumbing then inTurn parent? next parts
    else
      let own := Graph.single parent? ⟨.numbered next, r.shortLabel, .rule⟩
      let (rest, free) := inTurn (some (.numbered next)) (next + 1) parts
      (own ++ rest, free)

theorem leaves_makes : leaves.Makes Tree.leaves where
  token _ := rfl
  rule _ parts _ := by
    rw [Tree.leaves, Tree.forestLeaves_eq_flatMap, List.flatMap_def]
    rfl

theorem outline_makes : outline.Makes fun t depth => t.outlineRowsAt depth where
  token _ := rfl
  rule r parts _ := by
    have hforest : ∀ depth, Tree.forestRowsAt depth parts =
        parts.flatMap (Tree.outlineRowsAt depth) := by
      intro depth
      induction parts with
      | nil => rfl
      | cons t ts ih => rw [Tree.forestRowsAt, ih, List.flatMap_cons]
    funext depth
    rw [Tree.outlineRowsAt, hforest, hforest]
    simp only [outline, List.flatMap_map]

theorem graph_makes : graph.Makes fun t parent? next => Graph.below parent? next t where
  token _ := rfl
  rule r parts _ := by
    have hforest : ∀ parent? next, Graph.forestBelow parent? next parts =
        inTurn parent? next (parts.map fun t parent? next => Graph.below parent? next t) := by
      induction parts with
      | nil => exact fun _ _ => rfl
      | cons t ts ih =>
        intro parent? next
        simp only [Graph.forestBelow, ih, List.map_cons, inTurn]
    funext parent? next
    rw [Graph.below, hforest, hforest]
    rfl

end Walk

/-- The leaves, the outline and the graph of a tree are made by walks that never are in more than so
many trees at once. -/
structure Tree.WalkedWithin (t : Tree) (levels : Nat) : Prop where
  leaves : Walk.leaves.within levels t = some t.leaves
  outline : Walk.outline.within levels t = some fun depth => t.outlineRowsAt depth
  graph : Walk.graph.within levels t = some fun parent? next => Graph.below parent? next t

theorem Tree.walkedWithin {t : Tree} (h : t.height ≤ levels) : t.WalkedWithin levels :=
  ⟨Walk.leaves_makes.within_eq h, Walk.outline_makes.within_eq h, Walk.graph_makes.within_eq h⟩

-- ---------------------------------------------------------------------------
-- Parses
-- ---------------------------------------------------------------------------

open Parse

/-- In the tree of a parse no path and no walk gets through more trees than the limit allows,
whatever the tokens are. -/
theorem parse_path_length_le (h : parse limit tokens = .ok p) :
    (∀ path u, Tree.Path p.tree path u → path.length ≤ 5 * limit + 8) ∧
      p.tree.WalkedWithin (5 * limit + 8) := by
  obtain ⟨d, s, hreads, htree, -⟩ := parse_ok_iff.mp h
  have hheight : p.tree.height ≤ 5 * limit + 8 :=
    htree ▸ Nat.le_trans d.height_arranged_le hreads.height_le
  exact ⟨Tree.height_le_iff.mp hheight, Tree.walkedWithin hheight⟩

/-- The tokens of `x = 1 + 1 * (1 + 1 * 1`. -/
def assignedUnclosed : List Token :=
  [.ofLexeme .name ['x'] ⟨1, 1⟩, .ofLexeme .equals ['='] ⟨1, 3⟩, .ofLexeme .number ['1'] ⟨1, 5⟩,
    .ofLexeme .plus ['+'] ⟨1, 7⟩, .ofLexeme .number ['1'] ⟨1, 9⟩, .ofLexeme .times ['*'] ⟨1, 11⟩,
    .ofLexeme .openParen ['('] ⟨1, 13⟩, .ofLexeme .number ['1'] ⟨1, 14⟩,
    .ofLexeme .plus ['+'] ⟨1, 16⟩, .ofLexeme .number ['1'] ⟨1, 18⟩,
    .ofLexeme .times ['*'] ⟨1, 20⟩, .ofLexeme .number ['1'] ⟨1, 22⟩]

/-- With one level of groups no tree is higher than this one, in which the group is repaired. -/
theorem parse_path_length_le_assignedUnclosed : ∃ p, parse 1 assignedUnclosed = .ok p ∧
    (∃ path u, Tree.Path p.tree path u ∧ path.length = 13) ∧
    (∀ path u, Tree.Path p.tree path u → path.length ≤ 13) ∧ p.tree.WalkedWithin 13 := by
  have hreads : ReadsStatement 1 ⟨assignedUnclosed, [], false⟩ _ _ :=
    have hlast := .chain (.symbol rfl rfl)
      (.tailMore rfl rfl (.symbol rfl rfl) (.tailEnd rfl))
    have hinner := .chain (.chain (.symbol rfl rfl) (.tailEnd rfl))
      (.tailMore rfl rfl hlast (.tailEnd rfl))
    have hgroup := .group rfl rfl hinner (.assumed (by decide) (by decide))
    have hterm := .chain (.symbol rfl rfl) (.tailMore rfl rfl hgroup (.tailEnd rfl))
    .assigned rfl rfl rfl (.chain (.chain (.symbol rfl rfl) (.tailEnd rfl))
      (.tailMore rfl rfl hterm (.tailEnd rfl)))
  have hparse := parse_ok_iff.mpr ⟨_, _, hreads, rfl, rfl⟩
  obtain ⟨hpaths, hwalks⟩ := parse_path_length_le hparse
  obtain ⟨path, u, hpath, hlength⟩ := Tree.Path.exists_of_height (Tree.arranged _)
  exact ⟨_, hparse, ⟨path, u, hpath, hlength.trans (by decide)⟩, hpaths, hwalks⟩

end FormulaCheck
