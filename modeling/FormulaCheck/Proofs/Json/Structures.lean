import FormulaCheck.Proofs.Json.Records

/-!
# Structures come back from their texts

What the program stores of tokens, their kinds, places, diagnostics, symbols, summaries and records
is read back from its JSON text as it was (`Json.roundTrips_structures`): the writer and the reader
of a structure agree on the names of its fields, on the words of its enumerations, and on the field
of a diagnostic that is left out.
-/

namespace FormulaCheck

namespace Json

/-- The values that fit come back from their text, in any layout, as they were. -/
def RoundTrips (toJson : α → Json) (ofJson? : Json → Option α) (Fits : α → Prop) : Prop :=
  ∀ a, Fits a → ∀ layout, (read? ((toJson a).render layout)).bind ofJson? = some a

theorem RoundTrips.of_plain {toJson : α → Json} {ofJson? : Json → Option α}
    (hplain : ∀ a, Fits a → Plain n (toJson a)) (hread : ∀ a, ofJson? (toJson a) = some a) :
    RoundTrips toJson ofJson? Fits := by
  intro a ha layout
  rw [read?_render (hplain a ha), Option.bind_some, hread]

end Json

open Json (RoundTrips Plain)

-- ---------------------------------------------------------------------------
-- Numbers that fit
-- ---------------------------------------------------------------------------

structure Position.InRange (p : Position) : Prop where
  line : p.line < UInt64.size
  column : p.column < UInt64.size

structure Token.InRange (t : Token) : Prop where
  start : t.start.InRange
  stop : t.stop.InRange

structure Diagnostic.InRange (d : Diagnostic) : Prop where
  line : d.line < UInt64.size
  column : d.column < UInt64.size

structure Symbol.InRange (s : Symbol) : Prop where
  id : s.id < UInt64.size
  line : s.line < UInt64.size
  column : s.column < UInt64.size
  length : s.length < UInt64.size

section

variable {n : Nat}

theorem Position.InRange.plain (h : InRange p) : Plain (n + 1) p.toJson := by
  refine .object ?_
  simp only [List.forall_mem_cons, List.not_mem_nil, false_implies, implies_true, and_true]
  exact ⟨.natural h.line, .natural h.column⟩

theorem Token.InRange.plain (h : InRange t) : Plain (n + 1) t.toJson := by
  refine .object ?_
  simp only [List.forall_mem_cons, List.not_mem_nil, false_implies, implies_true, and_true]
  exact ⟨.string, .string, .natural h.start.line, .natural h.start.column, .natural h.stop.line,
    .natural h.stop.column⟩

theorem Diagnostic.InRange.plain (h : InRange d) : Plain (n + 1) d.toJson := by
  refine .object ?_
  simp only [List.forall_mem_append, List.forall_mem_cons, List.not_mem_nil, false_implies,
    implies_true, and_true, List.forall_mem_map]
  exact ⟨⟨.string, .natural h.line, .natural h.column, .string⟩, fun _ _ => .string⟩

theorem Symbol.InRange.plain (h : InRange s) : Plain (n + 1) s.toJson := by
  refine .object ?_
  simp only [List.forall_mem_cons, List.not_mem_nil, false_implies, implies_true, and_true]
  exact ⟨.natural h.id, .string, .string, .natural h.line, .natural h.column, .natural h.length,
    .string⟩

end

-- ---------------------------------------------------------------------------
-- Writers and readers agree
-- ---------------------------------------------------------------------------

theorem Token.Kind.ofJson?_toJson (kind : Kind) : ofJson? kind.toJson = some kind := by
  cases kind <;> rfl

theorem Diagnostic.Kind.ofJson?_toJson (kind : Kind) : ofJson? kind.toJson = some kind := by
  cases kind <;> rfl

theorem Position.ofJson?_toJson (p : Position) : ofJson? p.toJson = some p := by
  simp [ofJson?, toJson, Json.fields?, Json.natural?]

theorem Token.ofJson?_toJson (t : Token) : ofJson? t.toJson = some t := by
  simp [ofJson?, toJson, Json.fields?, Json.natural?, Json.string?, Kind.ofJson?_toJson]

/-- A diagnostic without a symbol has no field for it, which is read as no symbol. -/
theorem Diagnostic.ofJson?_toJson (d : Diagnostic) : ofJson? d.toJson = some d := by
  obtain ⟨message, line, column, kind, symbol?⟩ := d
  cases symbol? <;> simp [ofJson?, toJson, Json.fields?, Json.natural?, Json.string?,
    Kind.ofJson?_toJson, symbolOfField?]

theorem Symbol.ofJson?_toJson (s : Symbol) : ofJson? s.toJson = some s := by
  simp [ofJson?, toJson, Json.fields?, Json.natural?, Json.string?, Token.Kind.ofJson?_toJson]

-- ---------------------------------------------------------------------------
-- All structures
-- ---------------------------------------------------------------------------

theorem Json.roundTrips_structures :
    RoundTrips Token.toJson Token.ofJson? Token.InRange ∧
    RoundTrips Token.Kind.toJson Token.Kind.ofJson? (fun _ => True) ∧
    RoundTrips Position.toJson Position.ofJson? Position.InRange ∧
    RoundTrips Diagnostic.toJson Diagnostic.ofJson? Diagnostic.InRange ∧
    RoundTrips Symbol.toJson Symbol.ofJson? Symbol.InRange ∧
    RoundTrips Summary.toJson Summary.ofJson? Summary.InRange ∧
    RoundTrips Record.toJson Record.ofJson? Record.InRange := by
  refine ⟨?token, ?kind, ?position, ?diagnostic, ?symbol, ?summary, ?record⟩
  case token => exact .of_plain (n := 1) (fun _ h => h.plain) Token.ofJson?_toJson
  case kind => exact .of_plain (n := 0) (fun _ _ => .string) Token.Kind.ofJson?_toJson
  case position => exact .of_plain (n := 1) (fun _ h => h.plain) Position.ofJson?_toJson
  case diagnostic => exact .of_plain (n := 1) (fun _ h => h.plain) Diagnostic.ofJson?_toJson
  case symbol => exact .of_plain (n := 1) (fun _ h => h.plain) Symbol.ofJson?_toJson
  case summary => exact .of_plain (n := 1) (fun _ h => h.plain) Summary.ofJson?_toJson
  case record => exact .of_plain (n := 2) (fun _ h => h.plain) Record.ofJson?_toJson

end FormulaCheck
