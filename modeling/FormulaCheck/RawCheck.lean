import FormulaCheck.Diagnostic

/-!
# Checks on raw characters

Five checks on the characters of a line, made before it is scanned and without regard to what the
parser will say: operators at the ends, operators side by side, parentheses that do not match,
parentheses with nothing inside, and characters that no formula may hold. `rawCheck` makes all of
them, in this order.
-/

namespace FormulaCheck

abbrev Columns := List (Char × Nat)

namespace Columns

def ofChars (cs : List Char) : Columns := cs.zipIdx 1

/-- The operators among the first and the last character that is not blank. -/
def edgeOperators (cs : Columns) : List Diagnostic :=
  let ink (cs : Columns) := (cs.find? fun (c, _) => !isBlank c).filter (Alphabet.isOperator ·.1)
  let finding (complaint : String → Complaint) : Char × Nat → Diagnostic := fun (c, column) =>
    .inColumn column .syntactic (complaint c.toString) c.toString
  (ink cs).toList.map (finding .startsWithOperator) ++
    (ink cs.reverse).toList.map (finding .endsWithOperator)

def adjacentOperators (cs : Columns) : List Diagnostic :=
  (cs.zip cs.tail).filterMap fun ((left, column), (right, _)) =>
    if Alphabet.isOperator left && Alphabet.isOperator right then
      some (.inColumn column .syntactic (.consecutiveOperators left right.toString) left.toString)
    else none

/-- The columns of the closing parentheses without an opening one, and after them those of the
opening ones that stay open; `opened` holds the columns of those open so far, the latest first. -/
def unmatched (opened : List Nat) : Columns → List Nat × List Nat
  | [] => ([], opened.reverse)
  | (c, column) :: cs =>
    if c = '(' then unmatched (column :: opened) cs
    else if c = ')' then
      match opened with
      | _ :: opened => unmatched opened cs
      | [] =>
        let (closing, opening) := unmatched [] cs
        (column :: closing, opening)
    else unmatched opened cs

def unmatchedParentheses (cs : Columns) : List Diagnostic :=
  let (closing, opening) := unmatched [] cs
  closing.map (.inColumn · .syntactic .unmatchedClosing ")") ++
    opening.map (.inColumn · .syntactic .unmatchedOpening "(")

/-- The columns of the opening parentheses with a closing one after them and at most blanks
between. -/
def emptyGroups : Columns → List Nat
  | [] => []
  | (c, column) :: cs =>
    if c = '(' then
      match cs.dropWhile fun (c, _) => isBlank c with
      | (')', _) :: _ => column :: emptyGroups cs
      | _ => emptyGroups cs
    else emptyGroups cs

def emptyParentheses (cs : Columns) : List Diagnostic :=
  (emptyGroups cs).map (.inColumn · .syntactic .emptyParentheses "()")

def foreignChars (cs : Columns) : List Diagnostic :=
  (cs.filter fun (c, _) => !Alphabet.isAllowed c).map fun (c, column) =>
    .inColumn column .lexical (.foreignChar c) c.toString

end Columns

def rawCheck (line : String) : List Diagnostic :=
  let cs := Columns.ofChars line.toList
  cs.edgeOperators ++ cs.adjacentOperators ++ cs.unmatchedParentheses ++ cs.emptyParentheses ++
    cs.foreignChars

end FormulaCheck
