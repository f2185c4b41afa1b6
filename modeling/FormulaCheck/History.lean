import FormulaCheck.Analysis

/-!
# Histories

A history is a bounded list of the inputs that were analysed, the latest first, each with its
totals and an identifier. `History.record` puts a new record in front and drops the oldest ones
beyond the limit; identifiers in a history stay distinct.
-/

namespace FormulaCheck

structure Summary where
  tokens : Nat
  symbols : Nat
  errors : Nat
  valid : Nat
deriving Repr, DecidableEq, Inhabited

def Totals.summary (t : Totals) : Summary := ⟨t.tokens, t.symbols, t.errors, t.valid⟩

structure Record where
  id : String
  input : String
  timestamp : Nat
  summary : Summary
deriving Repr, DecidableEq, Inhabited

/-- The latest records, at most `limit` of them, the latest first. -/
structure History where
  limit : Nat
  records : List Record
deriving Repr, DecidableEq, Inhabited

namespace History

def defaultLimit : Nat := 20

/-- The history of the first ones of some records. A limit of 0 is taken as 1. -/
def ofRecords (limit : Nat) (records : List Record) : History :=
  ⟨max limit 1, records.take (max limit 1)⟩

def empty (limit : Nat) : History := ofRecords limit []

def candidate (timestamp : Nat) : Nat → String
  | 0 => toString timestamp
  | n + 1 => s!"{timestamp}-{n + 1}"

/-- The first of the next so many candidates from number `n` on that is not taken, and the one
after them if all are. -/
def freeCandidate (taken : List String) (timestamp n : Nat) : (more : Nat) → String
  | 0 => candidate timestamp n
  | more + 1 =>
    if candidate timestamp n ∈ taken then freeCandidate taken timestamp (n + 1) more
    else candidate timestamp n

/-- An identifier for a time that no record has. Among one more candidate than there are records
one is free. -/
def freeId (h : History) (timestamp : Nat) : String :=
  freeCandidate (h.records.map Record.id) timestamp 0 h.records.length

def newRecord (h : History) (timestamp : Nat) (input : String) (summary : Summary) : Record where
  id := h.freeId timestamp
  input := input
  timestamp := timestamp
  summary := summary

def push (h : History) (r : Record) : History := { h with records := (r :: h.records).take h.limit }

def clear (h : History) : History := { h with records := [] }

end History

end FormulaCheck
