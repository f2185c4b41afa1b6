/-!
# JSON values

JSON values and their text. `Json.write` puts the text of a value in front of more text, in one
line or with one member a line. Numbers are natural numbers below `2^64` or, where a text has any
other number, that number as it was written. JSON has strings that stand for no text, since an
escape can name one half of a surrogate pair without the other; all of them are one value here.
-/

namespace FormulaCheck

/-- A JSON value; the members of an object are in the order of the text. The value `unpaired` is
any string that stands for no text, and any object in which such a string is a name. -/
inductive Json
  | null
  | bool (value : Bool)
  | natural (value : Nat)
  | otherNumber (text : String)
  | string (value : String)
  | unpaired
  | array (items : List Json)
  | object (members : List (String × Json))
deriving Repr, Inhabited

namespace Json

inductive Layout
  | compact
  | indented
deriving Repr, DecidableEq, Inhabited

namespace Layout

def lineBreak : Layout → Nat → List Char
  | .compact, _ => []
  | .indented, depth => '\n' :: List.replicate (2 * depth) ' '

def colon : Layout → List Char
  | .compact => [':']
  | .indented => [':', ' ']

end Layout

def escapeChar (c : Char) : List Char :=
  if c = '"' then ['\\', '"']
  else if c = '\\' then ['\\', '\\']
  else if c = '\x08' then ['\\', 'b']
  else if c = '\x0c' then ['\\', 'f']
  else if c = '\n' then ['\\', 'n']
  else if c = '\r' then ['\\', 'r']
  else if c = '\t' then ['\\', 't']
  else if c.toNat < 0x20 then
    ['\\', 'u', '0', '0', Nat.digitChar (c.toNat / 16), Nat.digitChar (c.toNat % 16)]
  else [c]

/-- The text of a string in front of more text. -/
def writeString (s : String) (rest : List Char) : List Char :=
  '"' :: s.toList.flatMap escapeChar ++ '"' :: rest

mutual

/-- The text of a value that lies so many levels deep, in front of more text. -/
def write (layout : Layout) (depth : Nat) (rest : List Char) : Json → List Char
  | .null => "null".toList ++ rest
  | .bool true => "true".toList ++ rest
  | .bool false => "false".toList ++ rest
  | .natural n => (toString n).toList ++ rest
  | .otherNumber text => text.toList ++ rest
  | .string s => writeString s rest
  | .unpaired => "\"\\ud800\"".toList ++ rest
  | .array [] => '[' :: ']' :: rest
  | .array (item :: items) =>
    '[' :: layout.lineBreak (depth + 1) ++
      write layout (depth + 1) (writeItems layout depth rest items) item
  | .object [] => '\x7b' :: '\x7d' :: rest
  | .object ((name, value) :: members) =>
    '\x7b' :: layout.lineBreak (depth + 1) ++
      writeString name (layout.colon ++
        write layout (depth + 1) (writeMembers layout depth rest members) value)

def writeItems (layout : Layout) (depth : Nat) (rest : List Char) : List Json → List Char
  | [] => layout.lineBreak depth ++ ']' :: rest
  | item :: items =>
    ',' :: layout.lineBreak (depth + 1) ++
      write layout (depth + 1) (writeItems layout depth rest items) item

def writeMembers (layout : Layout) (depth : Nat) (rest : List Char) :
    List (String × Json) → List Char
  | [] => layout.lineBreak depth ++ '\x7d' :: rest
  | (name, value) :: members =>
    ',' :: layout.lineBreak (depth + 1) ++
      writeString name (layout.colon ++
        write layout (depth + 1) (writeMembers layout depth rest members) value)

end

def render (layout : Layout) (value : Json) : String := String.ofList (write layout 0 [] value)

def compact (value : Json) : String := value.render .compact

end Json

end FormulaCheck
