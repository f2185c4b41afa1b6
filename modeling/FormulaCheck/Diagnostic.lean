import FormulaCheck.Complaint

/-!
# Diagnostics

A diagnostic is a problem as it is shown: a message, a place, the stage that found it, and the text
that it is about. `Diagnostic.placed` keeps lines and columns at 1 or more.
-/

namespace FormulaCheck

/-- The stage that found a problem: scanning, parsing, or a parse that had to be given up. -/
inductive Diagnostic.Kind
  | lexical
  | syntactic
  | runtime
deriving Repr, DecidableEq, Inhabited

structure Diagnostic where
  message : String
  line : Nat
  column : Nat
  kind : Diagnostic.Kind
  symbol? : Option String
deriving Repr, DecidableEq, Inhabited

namespace Diagnostic

namespace Kind

def all : List Kind := [.lexical, .syntactic, .runtime]

def label : Kind → String
  | .lexical => "lexical"
  | .syntactic => "syntactic"
  | .runtime => "runtime"

def ofLabel? (word : String) : Option Kind := all.find? (·.label == word)

end Kind

/-- A diagnostic at a place; a line or column 0 is taken as 1. -/
def placed (place : Position) (kind : Kind) (message : String) (symbol? : Option String) :
    Diagnostic where
  message := message
  line := max place.line 1
  column := max place.column 1
  kind := kind
  symbol? := symbol?

def inColumn (column : Nat) (kind : Kind) (complaint : Complaint) (symbol : String) : Diagnostic :=
  .placed ⟨1, column⟩ kind complaint.message (some symbol)

def ofScanError (e : ScanError) : Diagnostic :=
  .placed e.place .lexical e.complaint.message (some e.char.toString)

def endOfTokens (tokens : List Token) : Position :=
  match tokens.getLast? with
  | some last => ⟨last.endLine, last.endColumn + 1⟩
  | none => .origin

def ofFault (tokens : List Token) (chars : List Char) (fault : Fault) : Diagnostic :=
  let message := (fault.complaint chars).message
  match fault with
  | .unexpected t => .placed t.start .syntactic message (some t.text)
  | .endOfInput => .placed (endOfTokens tokens) .syntactic message (some "EOF")

def ofNestingTooDeep (failure : NestingTooDeep) : Diagnostic :=
  .placed .origin .runtime (Complaint.nestingTooDeep failure).message none

def render (d : Diagnostic) : String :=
  s!"{d.kind.label} error at {d.line}:{d.column}: {d.message}"

end Diagnostic

end FormulaCheck
