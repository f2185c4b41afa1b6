import FormulaCheck.Alphabet
import FormulaCheck.Token.Scan
import FormulaCheck.Tree.Parse

/-!
# Complaints

What can be wrong with a formula, and how it is said. The scanner and the parser know only where a
formula is wrong; `ScanError.complaint` and `Fault.complaint` find what to say about that place by
looking at the characters around it.
-/

namespace FormulaCheck

inductive Complaint
  | startsWithOperator (operator : String)
  | endsWithOperator (operator : String)
  | consecutiveOperators (left : Char) (right : String)
  | unexpectedOperator (operator : String) (column : Nat)
  | unmatchedClosing
  | unmatchedOpening
  | emptyParentheses
  | foreignChar (char : Char)
  | foreignCharAt (char : Char) (column : Nat)
  | misplacedChar (char : Char) (column : Nat)
  | unexpectedToken (text : String) (column : Nat)
  | unexpectedEnd
  | nestingTooDeep (failure : NestingTooDeep)
deriving Repr, DecidableEq, Inhabited

def Complaint.message : Complaint → String
  | .startsWithOperator op => s!"Expression cannot start with operator '{op}'"
  | .endsWithOperator op => s!"Expression cannot end with operator '{op}'"
  | .consecutiveOperators left right => s!"Consecutive operators '{left}{right}' are not allowed"
  | .unexpectedOperator op column => s!"Unexpected operator '{op}' at position {column}"
  | .unmatchedClosing => "Unmatched closing parenthesis ')'"
  | .unmatchedOpening => "Unmatched opening parenthesis '('"
  | .emptyParentheses => "Empty parentheses '()' are not allowed"
  | .foreignChar c => s!"Invalid character '{c}'"
  | .foreignCharAt c column => s!"Invalid character '{c}' at position {column}"
  | .misplacedChar c column => s!"Unexpected character '{c}' at position {column}"
  | .unexpectedToken text column => s!"Syntax error at position {column}: unexpected '{text}'"
  | .unexpectedEnd => "Unexpected end of expression"
  | .nestingTooDeep failure => s!"Parse error: {failure.render}"

def ScanError.complaint (e : ScanError) : Complaint :=
  if e.isForeign then .foreignCharAt e.char e.place.column
  else .misplacedChar e.char e.place.column

namespace Fault

def lastInk? (chars : List Char) : Option Char := chars.reverse.find? fun c => !isBlank c

def complaintAtEnd (chars : List Char) : Complaint :=
  match lastInk? chars with
  | some c => if Alphabet.isOperator c then .endsWithOperator c.toString else .unexpectedEnd
  | none => .unexpectedEnd

/-- What to say about an operator in a column: it may begin the formula, follow another operator,
or end the formula. -/
def complaintAtOperator (chars : List Char) (op : String) (column : Nat) : Complaint :=
  if column = 1 then .startsWithOperator op
  else
    match (lastInk? (chars.take (column - 1))).filter Alphabet.isOperator with
    | some left => .consecutiveOperators left op
    | none =>
      if column = (Text.trimChars chars).length then .endsWithOperator op
      else .unexpectedOperator op column

def complaintAtToken (chars : List Char) (t : Token) : Complaint :=
  let column := max t.startColumn 1
  if t.kind.isOperator then complaintAtOperator chars t.text column
  else match t.kind with
    | .closeParen => .unmatchedClosing
    | .openParen => .unmatchedOpening
    | _ =>
      match chars[column - 1]? with
      | some c =>
        if Alphabet.isAllowed c then .unexpectedToken t.text column else .foreignCharAt c column
      | none => .unexpectedToken t.text column

def complaint (chars : List Char) : Fault → Complaint
  | .unexpected t => complaintAtToken chars t
  | .endOfInput => complaintAtEnd chars

end Fault

end FormulaCheck
