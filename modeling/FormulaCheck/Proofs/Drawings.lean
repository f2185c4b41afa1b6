import FormulaCheck.Graph
import FormulaCheck.Tree.Outline
import Mathlib.Data.List.Basic

/-!
# Outlines and graphs draw one forest

The lines of an outline and the nodes of a graph stand for the same parts of a tree, in the same
order. The outline tells the parent of a part by the depths: it is the last part before it that
stands one level less deep (`Graph.parentIndex?`). The edges of the graph tell the same
(`outlines_agree_with_graph`).

Outlines are made with a depth, graphs with a parent and a running number. `Graph.Hangs` relates
the three wherever the walk over a tree is, and `Graph.Linked` says what edges it has made.
-/

namespace FormulaCheck

open Outline

-- ---------------------------------------------------------------------------
-- Parents by depth
-- ---------------------------------------------------------------------------

namespace Graph

/-- The last number before another one that stands one level above a depth. -/
def nearestAbove? (depth : Nat → Nat) (d next : Nat) : Option Nat :=
  (List.range next).reverse.find? fun j => depth j + 1 = d

def parentIndex? (depth : Nat → Nat) (i : Nat) : Option Nat := nearestAbove? depth (depth i) i

def edge? (depth : Nat → Nat) (i : Nat) : Option Edge :=
  (parentIndex? depth i).map fun j => ⟨.numbered j, .numbered i⟩

/-- What comes next at a depth has the parent that the walk over the tree has at hand, and only
what stands outermost has none. -/
structure Hangs (depth : Nat → Nat) (parent? : Option NodeId) (d next : Nat) : Prop where
  nearest : parent? = (nearestAbove? depth d next).map .numbered
  outermost : 0 < d → parent?.isSome = true

/-- Some edges are those to so many numbers from their parents, and only what stands outermost has
no parent. -/
structure Linked (depth : Nat → Nat) (next n : Nat) (edges : List Edge) : Prop where
  edges_eq : edges = (List.range' next n).filterMap (edge? depth)
  parents : ∀ i ∈ List.range' next n, 0 < depth i → (parentIndex? depth i).isSome = true

/-- The numbers from one on have the depths of some rows. -/
def Follows (depth : Nat → Nat) (next : Nat) (rows : List Row) : Prop :=
  (List.range' next rows.length).map depth = rows.map Row.depth

section

variable {depth : Nat → Nat} {parent? : Option NodeId} {edges edges' : List Edge}
  {rows rows' : List Row} {d next n m i : Nat}

theorem nearestAbove?_succ : nearestAbove? depth d (next + 1) =
    if depth next + 1 = d then some next else nearestAbove? depth d next := by
  by_cases h : depth next + 1 = d <;> simp [nearestAbove?, List.range_succ, h]

/-- What stands no less deep comes between nothing at a depth and its parent. -/
theorem nearestAbove?_add (h : ∀ i ∈ List.range' next n, d ≤ depth i) :
    nearestAbove? depth d (next + n) = nearestAbove? depth d next := by
  induction n with
  | zero => rfl
  | succ n ih =>
    have hlast : d ≤ depth (next + n) := h _ (by simp [List.mem_range'_1])
    rw [← Nat.add_assoc, nearestAbove?_succ, if_neg (by omega)]
    refine ih fun i hi => h i ?_
    simp only [List.mem_range'_1] at hi ⊢
    omega

theorem pos_of_parentIndex? (h : (parentIndex? depth i).isSome = true) : 0 < depth i := by
  obtain ⟨j, hj⟩ := Option.isSome_iff_exists.mp h
  have hdepth := List.find?_some hj
  simp only [decide_eq_true_eq] at hdepth
  omega

namespace Hangs

theorem root : Hangs depth none 0 0 := ⟨rfl, by simp⟩

theorem below (h : depth next = d) : Hangs depth (some (.numbered next)) (d + 1) (next + 1) where
  nearest := by simp [nearestAbove?_succ, h]
  outermost _ := rfl

theorem later (h : Hangs depth parent? d next) (hdepth : ∀ i ∈ List.range' next n, d ≤ depth i) :
    Hangs depth parent? d (next + n) := by
  refine ⟨?_, h.outermost⟩
  rw [nearestAbove?_add hdepth]
  exact h.nearest

theorem linked_single (h : Hangs depth parent? d next) (hdepth : depth next = d) :
    Linked depth next 1 (parent?.toList.map fun parent => ⟨parent, .numbered next⟩) := by
  have hparent : parentIndex? depth next = nearestAbove? depth d next := by
    rw [parentIndex?, hdepth]
  refine ⟨?_, ?_⟩
  · rw [h.nearest]
    cases hj : nearestAbove? depth d next <;> simp [edge?, hparent, hj]
  · intro i hi hpos
    obtain rfl : i = next := by simpa using hi
    simpa [hparent, h.nearest] using h.outermost (hdepth ▸ hpos)

end Hangs

theorem Linked.append (h : Linked depth next n edges) (h' : Linked depth (next + n) m edges') :
    Linked depth next (n + m) (edges ++ edges') := by
  have hrange : List.range' next (n + m) = List.range' next n ++ List.range' (next + n) m := by
    simp
  refine ⟨?_, ?_⟩
  · rw [h.edges_eq, h'.edges_eq, hrange, List.filterMap_append]
  · rw [hrange]
    intro i hi
    rcases List.mem_append.mp hi with hi | hi
    · exact h.parents i hi
    · exact h'.parents i hi

theorem follows_cons_iff : Follows depth next (r :: rows) ↔
    depth next = r.depth ∧ Follows depth (next + 1) rows := by
  simp [Follows, List.range'_succ]

theorem follows_append_iff : Follows depth next (rows ++ rows') ↔
    Follows depth next rows ∧ Follows depth (next + rows.length) rows' := by
  have hrange : List.range' next (rows ++ rows').length =
      List.range' next rows.length ++ List.range' (next + rows.length) rows'.length := by
    simp
  rw [Follows, hrange, List.map_append, List.map_append]
  constructor
  · exact fun h => List.append_inj h (by simp)
  · rintro ⟨h, h'⟩
    exact congrArg₂ (· ++ ·) h h'

theorem Follows.le (h : Follows depth next rows) (hrows : ∀ r ∈ rows, d ≤ r.depth) :
    ∀ i ∈ List.range' next rows.length, d ≤ depth i := by
  intro i hi
  have hmem : depth i ∈ rows.map Row.depth := h ▸ List.mem_map_of_mem hi
  obtain ⟨r, hr, hdepth⟩ := List.mem_map.mp hmem
  exact hdepth ▸ hrows r hr

end

@[simp] theorem nodes_append (g h : Graph) : (g ++ h).nodes = g.nodes ++ h.nodes := rfl

@[simp] theorem edges_append (g h : Graph) : (g ++ h).edges = g.edges ++ h.edges := rfl

end Graph

-- ---------------------------------------------------------------------------
-- Rows of an outline
-- ---------------------------------------------------------------------------

namespace Outline

def indentation (depth : Nat) : String := String.join (List.replicate depth indent)

def Entry.nodeClass : Entry → Graph.NodeClass
  | .rule _ => .rule
  | .token _ => .token

def Row.node (r : Row) (i : Nat) : Graph.Node :=
  ⟨.numbered i, r.entry.text .simplified, r.entry.nodeClass⟩

theorem Entry.text_full_head (e : Entry) : (e.text .full).toList.head? ≠ some ' ' := by
  cases e with
  | rule r => cases r <;> decide
  | token t =>
    obtain ⟨kind, text⟩ := t
    cases kind <;> simp [Entry.text, Token.Kind.label, toString]

end Outline

namespace Tree

mutual

theorem le_depth_of_mem_rows : (t : Tree) → ∀ r ∈ t.outlineRowsAt d, d ≤ r.depth
  | .leaf _ => by simp [outlineRowsAt]
  | .node rule children _ => by
    unfold outlineRowsAt
    split
    · exact le_depth_of_mem_forestRows children
    · intro r hr
      rcases List.mem_cons.mp hr with rfl | hr
      · exact Nat.le_refl _
      · exact Nat.le_of_succ_le (le_depth_of_mem_forestRows children r hr)

theorem le_depth_of_mem_forestRows : (ts : Forest) → ∀ r ∈ forestRowsAt d ts, d ≤ r.depth
  | [] => by simp [forestRowsAt]
  | t :: ts => by
    intro r hr
    rcases List.mem_append.mp hr with hr | hr
    · exact le_depth_of_mem_rows t r hr
    · exact le_depth_of_mem_forestRows ts r hr

end

end Tree

-- ---------------------------------------------------------------------------
-- One walk beside the other
-- ---------------------------------------------------------------------------

namespace Graph

open FormulaCheck.Tree

mutual

theorem below_snd (d : Nat) : (t : Tree) →
    (below parent? next t).2 = next + (t.outlineRowsAt d).length
  | .leaf _ => rfl
  | .node rule children _ => by
    unfold below outlineRowsAt
    split
    · exact forestBelow_snd d children
    · simp [forestBelow_snd (d + 1) children, Nat.add_assoc, Nat.add_comm 1]

theorem forestBelow_snd (d : Nat) : (ts : Forest) →
    (forestBelow parent? next ts).2 = next + (forestRowsAt d ts).length
  | [] => rfl
  | t :: ts => by
    simp [forestBelow, forestRowsAt, forestBelow_snd d ts, below_snd d t, Nat.add_assoc]

end

mutual

theorem below_nodes (d : Nat) : (t : Tree) →
    (below parent? next t).1.nodes = (t.outlineRowsAt d).mapIdx fun i r => r.node (next + i)
  | .leaf _ => rfl
  | .node rule children _ => by
    unfold below outlineRowsAt
    split
    · exact forestBelow_nodes d children
    · simp [forestBelow_nodes (d + 1) children, single, Row.node, Entry.text, Entry.nodeClass,
        Nat.add_assoc, Nat.add_comm 1]

theorem forestBelow_nodes (d : Nat) : (ts : Forest) →
    (forestBelow parent? next ts).1.nodes =
      (forestRowsAt d ts).mapIdx fun i r => r.node (next + i)
  | [] => rfl
  | t :: ts => by
    have hnext : ∀ i, next + (t.outlineRowsAt d).length + i =
        next + (i + (t.outlineRowsAt d).length) := fun i => by omega
    simp [forestBelow, forestRowsAt, below_nodes d t, forestBelow_nodes d ts, below_snd d t,
      List.mapIdx_append, hnext]

end

mutual

theorem linked_below : (t : Tree) → Hangs depth parent? d next →
    Follows depth next (t.outlineRowsAt d) →
    Linked depth next (t.outlineRowsAt d).length (below parent? next t).1.edges
  | .leaf _, h, hrows => h.linked_single (follows_cons_iff.mp hrows).1
  | .node rule children _, h, hrows => by
    unfold below
    unfold outlineRowsAt at hrows ⊢
    split
    · next hrule =>
      rw [if_pos hrule] at hrows
      exact linked_forestBelow children h hrows
    · next hrule =>
      rw [if_neg hrule] at hrows
      obtain ⟨hdepth, hrows⟩ := follows_cons_iff.mp hrows
      have hparts := linked_forestBelow children (.below hdepth) hrows
      have hall := (h.linked_single hdepth).append hparts
      rwa [Nat.add_comm 1] at hall

theorem linked_forestBelow : (ts : Forest) → Hangs depth parent? d next →
    Follows depth next (forestRowsAt d ts) →
    Linked depth next (forestRowsAt d ts).length (forestBelow parent? next ts).1.edges
  | [], _, _ => ⟨rfl, by simp [forestRowsAt]⟩
  | t :: ts, h, hrows => by
    obtain ⟨hfirst, hmore⟩ := follows_append_iff.mp hrows
    have hlater := h.later (hfirst.le (le_depth_of_mem_rows t))
    have hall := (linked_below t h hfirst).append (linked_forestBelow ts hlater hmore)
    simpa [forestBelow, forestRowsAt, below_snd d t] using hall

end

end Graph

-- ---------------------------------------------------------------------------
-- Both outlines and the graph
-- ---------------------------------------------------------------------------

theorem Graph.nodes_ofTree? (t : Tree) :
    (ofTree? (some t)).nodes = t.outlineRows.mapIdx fun i r => r.node i := by
  simpa [ofTree?, Tree.outlineRows] using @below_nodes none 0 0 t

def Outline.depthAt (rows : List Row) (i : Nat) : Nat := (rows.map Row.depth).getD i 0

theorem Outline.follows_depthAt (rows : List Row) : Graph.Follows (depthAt rows) 0 rows :=
  List.ext_getElem (by simp) fun i _ hi => by
    rw [List.length_map] at hi
    simp [depthAt, hi]

/-- The outlines and the graph of a tree have a line and a node for each part at its depth, and the
edges are those from the parents that the depths tell. No title begins with a space, so that a line
of the full outline tells its depth. -/
structure Tree.DrawnAt (t : Tree) (g : Graph) (depth : Nat → Nat) : Prop where
  lengths : (t.outline .simplified).length = g.nodes.length ∧
    (t.outline .full).length = g.nodes.length
  ids : ∀ i (n : Graph.Node), g.nodes[i]? = some n → n.id = .numbered i ∧ n.id.render = s!"node{i}"
  simplified_lines : ∀ i line (n : Graph.Node), (t.outline .simplified)[i]? = some line →
    g.nodes[i]? = some n → line = indentation (depth i) ++ n.label
  full_lines : ∀ i line, (t.outline .full)[i]? = some line →
    ∃ title, line = indentation (depth i) ++ title ∧ title.toList.head? ≠ some ' '
  edges_eq : g.edges = (List.range g.nodes.length).filterMap (Graph.edge? depth)
  parents : ∀ i < g.nodes.length, (Graph.parentIndex? depth i).isSome = true ↔ 0 < depth i

/-- The outlines and the graph of a tree draw the same forest. -/
theorem outlines_agree_with_graph (t : Tree) : ∃ depth, t.DrawnAt (.ofTree? (some t)) depth := by
  have hlinked : Graph.Linked (depthAt t.outlineRows) 0 t.outlineRows.length _ :=
    Graph.linked_below t .root (follows_depthAt t.outlineRows)
  have hnodes := Graph.nodes_ofTree? t
  have hlength : (Graph.ofTree? (some t)).nodes.length = t.outlineRows.length := by simp [hnodes]
  refine ⟨depthAt t.outlineRows, ?_, ?_, ?_, ?_, ?_, ?_⟩
  · simp [Tree.outline, hlength]
  · intro i n hn
    rw [hnodes, List.getElem?_mapIdx] at hn
    obtain ⟨r, -, rfl⟩ := Option.map_eq_some_iff.mp hn
    exact ⟨rfl, rfl⟩
  · intro i line n hline hn
    rw [hnodes, List.getElem?_mapIdx] at hn
    obtain ⟨r, hr, rfl⟩ := Option.map_eq_some_iff.mp hn
    have hline : r.line .simplified = line := by simpa [Tree.outline, hr] using hline
    simp [← hline, Row.line, Row.node, indentation, depthAt, hr]
  · intro i line hline
    rw [Tree.outline, List.getElem?_map] at hline
    obtain ⟨r, hr, rfl⟩ := Option.map_eq_some_iff.mp hline
    exact ⟨r.entry.text .full, by simp [Row.line, indentation, depthAt, hr], r.entry.text_full_head⟩
  · rw [hlength, List.range_eq_range']
    exact hlinked.edges_eq
  · intro i hi
    refine ⟨Graph.pos_of_parentIndex?, hlinked.parents i ?_⟩
    simpa [List.mem_range'_1] using hlength ▸ hi

end FormulaCheck
