import FormulaCheck.Tree

/-!
# Outlines

An outline shows a tree as indented lines, one for each node and leaf. The plumbing rules have no
line: their parts stand where they would stand themselves. `Tree.outlineRows` says what each line
is for and how deep it stands, and `Outline.Row.line` writes it in one of two styles.
-/

namespace FormulaCheck

inductive OutlineStyle
  | full
  | simplified
deriving Repr, DecidableEq, Inhabited

namespace Outline

inductive Entry
  | rule (rule : Rule)
  | token (token : Token)
deriving Repr, DecidableEq, Inhabited

def Entry.text : OutlineStyle → Entry → String
  | .full, .rule r => r.label
  | .simplified, .rule r => r.shortLabel
  | .full, .token t => s!"{t.kind.label}: \"{t.text}\""
  | .simplified, .token t => t.text

structure Row where
  depth : Nat
  entry : Entry
deriving Repr, DecidableEq, Inhabited

def indent : String := "  "

def Row.line (style : OutlineStyle) (r : Row) : String :=
  String.join (List.replicate r.depth indent) ++ r.entry.text style

end Outline

namespace Tree

mutual

def outlineRowsAt (depth : Nat) : Tree → List Outline.Row
  | .leaf t => [⟨depth, .token t⟩]
  | .node rule children _ =>
    if rule.isPlumbing then forestRowsAt depth children
    else ⟨depth, .rule rule⟩ :: forestRowsAt (depth + 1) children

def forestRowsAt (depth : Nat) : Forest → List Outline.Row
  | [] => []
  | t :: ts => outlineRowsAt depth t ++ forestRowsAt depth ts

end

def outlineRows (t : Tree) : List Outline.Row := t.outlineRowsAt 0

def outline (style : OutlineStyle) (t : Tree) : List String :=
  t.outlineRows.map (Outline.Row.line style)

end Tree

end FormulaCheck
