import FormulaCheck.Alphabet
import FormulaCheck.Token

/-!
# Scanning

`scan` cuts a text into tokens. At each character that is not blank it takes the longest lexeme
that begins there; a character where no lexeme begins is recorded as an error and scanning goes on
after it, so one scan reports every such character.
-/

namespace FormulaCheck

structure ScanError where
  char : Char
  place : Position
deriving Repr, DecidableEq, Inhabited

namespace ScanError

/-- Whether the character may not occur in formulas at all, as opposed to an allowed one in a
wrong place. -/
def isForeign (e : ScanError) : Bool := !Alphabet.isAllowed e.char

def render (e : ScanError) : String :=
  s!"Lexer error at line {e.place.line}, column {e.place.column}: unexpected character '{e.char}'"

end ScanError

structure Lexeme where
  kind : Token.Kind
  chars : List Char
  rest : List Char
deriving Repr, DecidableEq

namespace Lexeme

def single? : Char → Option Token.Kind
  | '+' => some .plus
  | '-' => some .minus
  | '*' => some .times
  | '/' => some .divide
  | '=' => some .equals
  | '(' => some .openParen
  | ')' => some .closeParen
  | _ => none

/-- The number that begins with a digit: the digits from there on, and a point with the digits
after it if there is at least one. -/
def number (digit : Char) (cs : List Char) : Lexeme :=
  let whole := cs.takeWhile Char.isDigit
  match cs.dropWhile Char.isDigit with
  | '.' :: d :: rest =>
    if d.isDigit then
      ⟨.number, digit :: whole ++ '.' :: d :: rest.takeWhile Char.isDigit,
        rest.dropWhile Char.isDigit⟩
    else ⟨.number, digit :: whole, '.' :: d :: rest⟩
  | rest => ⟨.number, digit :: whole, rest⟩

def name (letter : Char) (cs : List Char) : Lexeme :=
  ⟨.name, letter :: cs.takeWhile Alphabet.continuesName, cs.dropWhile Alphabet.continuesName⟩

def longest? (c : Char) (cs : List Char) : Option Lexeme :=
  match single? c with
  | some kind => some ⟨kind, [c], cs⟩
  | none =>
    if c.isDigit then some (number c cs)
    else if Alphabet.startsName c then some (name c cs)
    else none

theorem rest_length_number (c : Char) (cs : List Char) :
    (number c cs).rest.length ≤ cs.length := by
  have hle : (cs.dropWhile Char.isDigit).length ≤ cs.length :=
    (List.dropWhile_suffix _).length_le
  unfold number
  split
  · next d rest heq =>
    have hrest : (rest.dropWhile Char.isDigit).length ≤ rest.length :=
      (List.dropWhile_suffix _).length_le
    rw [heq] at hle
    simp only [List.length_cons] at hle
    split
    · simp only; omega
    · simp only [List.length_cons]; omega
  · exact hle

theorem rest_length_le {c : Char} {cs : List Char} {l : Lexeme} (h : longest? c cs = some l) :
    l.rest.length ≤ cs.length := by
  unfold longest? at h
  split at h
  · cases h; exact Nat.le_refl _
  · split at h
    · cases h; exact rest_length_number c cs
    · split at h
      · cases h; exact (List.dropWhile_suffix _).length_le
      · cases h

end Lexeme

structure Scan where
  tokens : List Token
  errors : List ScanError
deriving Repr, DecidableEq, Inhabited

namespace Scan

def ofChars (p : Position) : List Char → Scan
  | [] => ⟨[], []⟩
  | c :: cs =>
    if isBlank c then Scan.ofChars (p.advance c) cs
    else match _h : Lexeme.longest? c cs with
      | some l =>
        let after := Scan.ofChars ⟨p.line, p.column + l.chars.length⟩ l.rest
        { after with tokens := Token.ofLexeme l.kind l.chars p :: after.tokens }
      | none =>
        let after := Scan.ofChars (p.advance c) cs
        { after with errors := ⟨c, p⟩ :: after.errors }
termination_by cs => cs.length
decreasing_by
  · simp
  · have := Lexeme.rest_length_le _h; simp only [List.length_cons]; omega
  · simp

def hasErrors (s : Scan) : Bool := !s.errors.isEmpty

end Scan

def scan (text : String) : Scan := Scan.ofChars Position.origin text.toList

end FormulaCheck
