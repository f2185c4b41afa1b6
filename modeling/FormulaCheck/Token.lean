import FormulaCheck.Text.Position

/-!
# Tokens

A token is a lexeme of a formula with its kind and the places of its first and last character.
-/

namespace FormulaCheck

/-- The kinds of lexemes. Blanks are skipped by the scanner, so no scanned token is of kind
`blank`; sequences of tokens that come from elsewhere may hold some. -/
inductive Token.Kind
  | blank
  | plus
  | minus
  | times
  | divide
  | equals
  | openParen
  | closeParen
  | number
  | name
deriving Repr, DecidableEq, Inhabited

structure Token where
  kind : Token.Kind
  text : String
  startLine : Nat
  startColumn : Nat
  endLine : Nat
  endColumn : Nat
deriving Repr, DecidableEq, Inhabited

namespace Token

namespace Kind

def all : List Kind :=
  [.blank, .plus, .minus, .times, .divide, .equals, .openParen, .closeParen, .number, .name]

def label : Kind → String
  | .blank => "WhiteSpace"
  | .plus => "Plus"
  | .minus => "Minus"
  | .times => "Multiply"
  | .divide => "Divide"
  | .equals => "Equals"
  | .openParen => "LParen"
  | .closeParen => "RParen"
  | .number => "NumberLiteral"
  | .name => "Identifier"

/-- The word for a kind in stored data. It differs from the label for blanks only. -/
def code : Kind → String
  | .blank => "Whitespace"
  | kind => kind.label

def ofCode? (word : String) : Option Kind := all.find? (·.code == word)

def isOperator : Kind → Bool
  | .plus | .minus | .times | .divide => true
  | _ => false

def isSymbol : Kind → Bool
  | .number | .name => true
  | _ => false

def startsFactor : Kind → Bool
  | .number | .name | .openParen => true
  | _ => false

end Kind

/-- The token of a lexeme that begins at a place and lies on one line. -/
def ofLexeme (kind : Kind) (lexeme : List Char) (start : Position) : Token where
  kind := kind
  text := String.ofList lexeme
  startLine := start.line
  startColumn := start.column
  endLine := start.line
  endColumn := start.column + (lexeme.length - 1)

def start (t : Token) : Position := ⟨t.startLine, t.startColumn⟩

def stop (t : Token) : Position := ⟨t.endLine, t.endColumn⟩

def length (t : Token) : Nat := t.text.length

def render (t : Token) : String := s!"{t.kind.label} '{t.text}'"

end Token

end FormulaCheck
