import FormulaCheck.History
import FormulaCheck.Json.Read

/-!
# Stored data as JSON

The JSON form of tokens, trees, diagnostics, symbols and records, and how it is read back. A
structure is written as an object with its fields in a fixed order. It is read from an object in
which each of its fields occurs once, in any order and among others, or from an array of its fields
in their order. An enumeration is written as a string, and read also from an object with that
string as its only name and `null` as value.
-/

namespace FormulaCheck

namespace Json

/-- The values of some fields: of an object's members with these names, where a name may be missing
but not occur twice, or of an array's items in their order. -/
def fields? (names : List String) : Json → Option (List (Option Json))
  | .object members =>
    names.mapM fun name =>
      match members.filter (·.1 == name) with
      | [] => some none
      | [(_, value)] => some (some value)
      | _ => none
  | .array items =>
    if items.length ≤ names.length then
      some (items.map some ++ List.replicate (names.length - items.length) none)
    else none
  | _ => none

def natural? : Json → Option Nat
  | .natural n => some n
  | _ => none

def string? : Json → Option String
  | .string s => some s
  | _ => none

def array? : Json → Option (List Json)
  | .array items => some items
  | _ => none

def word? : Json → Option String
  | .string s => some s
  | .object [(name, .null)] => some name
  | _ => none

end Json

namespace Token

def Kind.toJson (kind : Kind) : Json := .string kind.code

def Kind.ofJson? (v : Json) : Option Kind := v.word?.bind ofCode?

def toJson (t : Token) : Json := .object
  [("kind", t.kind.toJson), ("text", .string t.text), ("startLine", .natural t.startLine),
   ("startColumn", .natural t.startColumn), ("endLine", .natural t.endLine),
   ("endColumn", .natural t.endColumn)]

def ofJson? (v : Json) : Option Token := do
  match ← v.fields? ["kind", "text", "startLine", "startColumn", "endLine", "endColumn"] with
  | [some kind, some text, some startLine, some startColumn, some endLine, some endColumn] =>
    return { kind := ← Kind.ofJson? kind, text := ← text.string?,
             startLine := ← startLine.natural?, startColumn := ← startColumn.natural?,
             endLine := ← endLine.natural?, endColumn := ← endColumn.natural? }
  | _ => none

end Token

namespace Position

def toJson (p : Position) : Json :=
  .object [("line", .natural p.line), ("column", .natural p.column)]

def ofJson? (v : Json) : Option Position := do
  match ← v.fields? ["line", "column"] with
  | [some line, some column] => return { line := ← line.natural?, column := ← column.natural? }
  | _ => none

end Position

namespace Diagnostic

def Kind.toJson (kind : Kind) : Json := .string kind.label

def Kind.ofJson? (v : Json) : Option Kind := v.word?.bind ofLabel?

def toJson (d : Diagnostic) : Json := .object <|
  [("message", .string d.message), ("line", .natural d.line), ("column", .natural d.column),
   ("kind", d.kind.toJson)] ++ d.symbol?.toList.map fun symbol => ("offendingSymbol", .string symbol)

/-- The symbol that a field stands for, where a field that is missing or `null` stands for none. -/
def symbolOfField? : Option Json → Option (Option String)
  | none | some .null => some none
  | some (.string s) => some (some s)
  | some _ => none

def ofJson? (v : Json) : Option Diagnostic := do
  match ← v.fields? ["message", "line", "column", "kind", "offendingSymbol"] with
  | [some message, some line, some column, some kind, symbol] =>
    return { message := ← message.string?, line := ← line.natural?, column := ← column.natural?,
             kind := ← Kind.ofJson? kind, symbol? := ← symbolOfField? symbol }
  | _ => none

end Diagnostic

namespace Symbol

def toJson (s : Symbol) : Json := .object
  [("id", .natural s.id), ("lexeme", .string s.lexeme), ("kind", s.kind.toJson),
   ("line", .natural s.line), ("column", .natural s.column), ("length", .natural s.length),
   ("scope", .string s.scope)]

def ofJson? (v : Json) : Option Symbol := do
  match ← v.fields? ["id", "lexeme", "kind", "line", "column", "length", "scope"] with
  | [some id, some lexeme, some kind, some line, some column, some length, some scope] =>
    return { id := ← id.natural?, lexeme := ← lexeme.string?, kind := ← Token.Kind.ofJson? kind,
             line := ← line.natural?, column := ← column.natural?, length := ← length.natural?,
             scope := ← scope.string? }
  | _ => none

end Symbol

namespace Summary

def toJson (s : Summary) : Json := .object
  [("tokens", .natural s.tokens), ("symbols", .natural s.symbols), ("errors", .natural s.errors),
   ("valid", .natural s.valid)]

def ofJson? (v : Json) : Option Summary := do
  match ← v.fields? ["tokens", "symbols", "errors", "valid"] with
  | [some tokens, some symbols, some errors, some valid] =>
    return { tokens := ← tokens.natural?, symbols := ← symbols.natural?,
             errors := ← errors.natural?, valid := ← valid.natural? }
  | _ => none

end Summary

namespace Record

def toJson (r : Record) : Json := .object
  [("id", .string r.id), ("input", .string r.input), ("timestamp", .natural r.timestamp),
   ("summary", r.summary.toJson)]

def ofJson? (v : Json) : Option Record := do
  match ← v.fields? ["id", "input", "timestamp", "summary"] with
  | [some id, some input, some timestamp, some summary] =>
    return { id := ← id.string?, input := ← input.string?, timestamp := ← timestamp.natural?,
             summary := ← Summary.ofJson? summary }
  | _ => none

def fileText (records : List Record) : String :=
  (Json.array (records.map toJson)).render .indented

def ofFileText? (text : String) : Option (List Record) := do
  (← (← Json.read? text).array?).mapM ofJson?

end Record

namespace Tree

def nodeToJson (rule : Rule) (repaired : Bool) (children : List (Slot × Json)) : Json :=
  let slots := (children.map Prod.fst).eraseDups
  .object <|
    [("name", .string rule.label),
     ("children", .object <| slots.map fun s =>
       (s.label, .array ((children.filter (·.1 == s)).map Prod.snd)))] ++
    if repaired then [("recovered", .bool true)] else []

mutual

def toJson : Tree → Json
  | .leaf t => t.toJson
  | .node rule children repaired => nodeToJson rule repaired (forestToJson children)

def forestToJson : Forest → List (Slot × Json)
  | [] => []
  | t :: ts => (t.slot, toJson t) :: forestToJson ts

end

end Tree

namespace Graph

def toJson (g : Graph) : Json := .object
  [("nodes", .array <| g.nodes.map fun n => .object
     [("id", .string n.id.render), ("label", .string n.label),
      ("class", .string n.nodeClass.label)]),
   ("edges", .array <| g.edges.map fun e => .object
     [("from", .string e.source.render), ("to", .string e.target.render)])]

end Graph

end FormulaCheck
