import FormulaCheck.Rule

/-!
# Concrete trees

A tree has a node for every use of a grammar rule and a leaf for every token in it. The children of
a node stand in slots, one slot for each rule and each kind of token among them: the slots in the
order in which they are first filled, and the children of one slot in the order in which they came.
`Tree.ofChildren` arranges any sequence of children in this way, and `Forest.slots` is the view of
arranged children as slots.
-/

namespace FormulaCheck

inductive Slot
  | rule (rule : Rule)
  | token (kind : Token.Kind)
deriving Repr, DecidableEq, Inhabited

def Slot.label : Slot → String
  | .rule r => r.label
  | .token kind => kind.label

/-- A token, or the use of a rule with the trees of its parts in slot order. The mark `repaired`
says that a part was missing from the text. -/
inductive Tree
  | leaf (token : Token)
  | node (rule : Rule) (children : List Tree) (repaired : Bool)
deriving Repr, Inhabited

abbrev Forest := List Tree

namespace Tree

def slot : Tree → Slot
  | .leaf token => .token token.kind
  | .node rule _ _ => .rule rule

def rule? : Tree → Option Rule
  | .leaf _ => none
  | .node rule _ _ => some rule

def token? : Tree → Option Token
  | .leaf token => some token
  | .node .. => none

def isNode (t : Tree) : Bool := t.rule?.isSome

/-- The trees below the root, in slot order. -/
def children : Tree → Forest
  | .leaf _ => []
  | .node _ children _ => children

end Tree

namespace Forest

/-- The slots that some trees fill, in the order of the first tree of each. -/
def slotOrder (trees : Forest) : List Slot := (trees.map Tree.slot).eraseDups

def inSlot (trees : Forest) (s : Slot) : Forest := trees.filter (·.slot == s)

def slots (trees : Forest) : List (Slot × Forest) :=
  (slotOrder trees).map fun s => (s, inSlot trees s)

def arrange (trees : Forest) : Forest := (slots trees).flatMap Prod.snd

def nodesOfRule (trees : Forest) (rule : Rule) : Forest :=
  (inSlot trees (.rule rule)).filter Tree.isNode

def tokensOfKind (trees : Forest) (kind : Token.Kind) : List Token :=
  (inSlot trees (.token kind)).filterMap Tree.token?

end Forest

namespace Tree

/-- The use of a rule with some parts, in the order in which they came. -/
def ofChildren (rule : Rule) (parts : Forest) (repaired : Bool) : Tree :=
  .node rule (Forest.arrange parts) repaired

mutual

/-- The tokens of a tree, in slot order. -/
def leaves : Tree → List Token
  | .leaf token => [token]
  | .node _ children _ => forestLeaves children

def forestLeaves : Forest → List Token
  | [] => []
  | t :: ts => leaves t ++ forestLeaves ts

end

end Tree

end FormulaCheck
