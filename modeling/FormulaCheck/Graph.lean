import FormulaCheck.Tree

/-!
# Graphs of trees

A tree as a directed graph for a diagram: a labelled node for each rule and token, an edge from
each parent to each child, and `Graph.mermaid`, the graph in Mermaid's text form. The plumbing
rules have no node. Nodes are numbered in the order in which a walk from the root meets them.
-/

namespace FormulaCheck

namespace Graph

inductive NodeClass
  | rule
  | token
  | missing
deriving Repr, DecidableEq, Inhabited

def NodeClass.label : NodeClass → String
  | .rule => "ruleNode"
  | .token => "tokenNode"
  | .missing => "leafNode"

inductive NodeId
  | placeholder
  | numbered (index : Nat)
deriving Repr, DecidableEq, Inhabited

def NodeId.render : NodeId → String
  | .placeholder => "A"
  | .numbered index => s!"node{index}"

structure Node where
  id : NodeId
  label : String
  nodeClass : NodeClass
deriving Repr, DecidableEq, Inhabited

structure Edge where
  source : NodeId
  target : NodeId
deriving Repr, DecidableEq, Inhabited

end Graph

structure Graph where
  nodes : List Graph.Node
  edges : List Graph.Edge
deriving Repr, DecidableEq, Inhabited

namespace Graph

def missingLabel : String := "No Parse Tree Available"

def placeholder : Graph := ⟨[⟨.placeholder, missingLabel, .missing⟩], []⟩

def isPlaceholder (g : Graph) : Bool :=
  match g.nodes, g.edges with
  | [n], [] => n.id == .placeholder && n.nodeClass == .missing
  | _, _ => false

def append (g h : Graph) : Graph := ⟨g.nodes ++ h.nodes, g.edges ++ h.edges⟩

instance : Append Graph := ⟨append⟩

def single (parent? : Option NodeId) (node : Node) : Graph :=
  ⟨[node], parent?.toList.map fun parent => ⟨parent, node.id⟩⟩

mutual

/-- The graph of a tree below a parent, its nodes numbered from `next` on, and the first number
that it leaves free. -/
def below (parent? : Option NodeId) (next : Nat) : Tree → Graph × Nat
  | .leaf t => (single parent? ⟨.numbered next, t.text, .token⟩, next + 1)
  | .node rule children _ =>
    if rule.isPlumbing then forestBelow parent? next children
    else
      let own := single parent? ⟨.numbered next, rule.shortLabel, .rule⟩
      let (rest, free) := forestBelow (some (.numbered next)) (next + 1) children
      (own ++ rest, free)

def forestBelow (parent? : Option NodeId) (next : Nat) : Forest → Graph × Nat
  | [] => (⟨[], []⟩, next)
  | t :: ts =>
    let (first, between) := below parent? next t
    let (rest, free) := forestBelow parent? between ts
    (first ++ rest, free)

end

def ofTree? : Option Tree → Graph
  | none => placeholder
  | some t => (below none 0 t).1

def escapeChar : Char → List Char
  | '\n' => ['\\', 'n']
  | '\r' => ['\\', 'r']
  | c => if c ∈ ['"', '[', ']', '(', ')', '\x7b', '\x7d'] then ['\\', c] else [c]

def escapeLabel (label : String) : String := String.ofList (label.toList.flatMap escapeChar)

def Node.mermaid (n : Node) : String :=
  "  " ++ n.id.render ++ "[\"" ++ escapeLabel n.label ++ "\"]:::" ++ n.nodeClass.label ++ "\n"

def Edge.mermaid (e : Edge) : String :=
  "  " ++ e.source.render ++ " --> " ++ e.target.render ++ "\n"

def classDefinitions : List String :=
  ["classDef ruleNode fill:#4f46e5,stroke:#312e81,stroke-width:2px,color:#fff",
   "classDef tokenNode fill:#059669,stroke:#065f46,stroke-width:2px,color:#fff",
   "classDef leafNode fill:#dc2626,stroke:#991b1b,stroke-width:2px,color:#fff"]

def mermaid (g : Graph) : String :=
  if g.isPlaceholder then
    "graph TD\n  " ++ NodeId.placeholder.render ++ "[" ++ missingLabel ++ "]"
  else
    "graph TD\n" ++ String.join (g.nodes.map Node.mermaid) ++
      String.join (g.edges.map Edge.mermaid) ++ "\n" ++ "\n".intercalate classDefinitions

end Graph

end FormulaCheck
