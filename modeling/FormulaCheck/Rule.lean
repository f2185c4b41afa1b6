import FormulaCheck.Token

/-!
# Grammar rules

The rules of the formula grammar:

```text
statement      := assignment | expression
assignment     := name "=" expression
expression     := term expressionTail
expressionTail := (("+" | "-") term)*
term           := factor termTail
termTail       := (("*" | "/") factor)*
factor         := number | name | "(" expression ")"
```
-/

namespace FormulaCheck

inductive Rule
  | statement
  | assignment
  | expression
  | expressionTail
  | term
  | termTail
  | factor
deriving Repr, DecidableEq, Inhabited

namespace Rule

def all : List Rule :=
  [.statement, .assignment, .expression, .expressionTail, .term, .termTail, .factor]

def label : Rule → String
  | .statement => "statement"
  | .assignment => "assignment"
  | .expression => "expression"
  | .expressionTail => "expressionPrime"
  | .term => "term"
  | .termTail => "termPrime"
  | .factor => "factor"

def ofLabel? (word : String) : Option Rule := all.find? (·.label == word)

def shortLabel : Rule → String
  | .expression => "expr"
  | rule => rule.label

/-- The rules that only choose or repeat. Renderings for people show the parts of such a rule in
its place. -/
def isPlumbing : Rule → Bool
  | .statement | .expressionTail | .termTail => true
  | _ => false

end Rule

end FormulaCheck
