import FormulaCheck.Token

/-!
# Symbol tables

A symbol table lists the numbers and names of a line, each text once, in the order and with the
place of its first occurrence.
-/

namespace FormulaCheck

structure Symbol where
  id : Nat
  lexeme : String
  kind : Token.Kind
  line : Nat
  column : Nat
  length : Nat
  scope : String
deriving Repr, DecidableEq, Inhabited

namespace Symbol

/-- The scope of every symbol: formulas have no other. -/
def globalScope : String := "global"

def ofToken (t : Token) (id : Nat) : Symbol where
  id := id
  lexeme := t.text
  kind := t.kind
  line := t.startLine
  column := t.startColumn
  length := t.length
  scope := globalScope

end Symbol

def firstSymbols (tokens : List Token) : List Token :=
  (tokens.filter (·.kind.isSymbol)).eraseDupsBy (·.text == ·.text)

def symbolTable (tokens : List Token) : List Symbol :=
  ((firstSymbols tokens).zipIdx 1).map fun (t, id) => .ofToken t id

end FormulaCheck
