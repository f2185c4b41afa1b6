import FormulaCheck.Analysis
import FormulaCheck.Proofs.Parse.Reads
import FormulaCheck.Proofs.RawFindings
import FormulaCheck.Proofs.Spans

/-!
# The three shapes of an analysis

What the analysis of a line holds depends on how far the line got: it could not be scanned, it was
scanned but its parse was given up, or it was parsed (`LineAnalysis.Shape`). Each of these goes with
one shape of the result, and every analysis has exactly one of them (`existsUnique_shape`).

A line that can be scanned has no characters that are foreign to formulas, so that the checks on
its raw characters find nothing lexical (`kind_of_mem_rawCheck`); and the tree of a parse has at
least one row, whatever had to be repaired (`outlineRows_ne_nil_of_parse`).
-/

namespace FormulaCheck

variable {line : String} {number : Nat}

-- ---------------------------------------------------------------------------
-- How far a line gets
-- ---------------------------------------------------------------------------

theorem analyzeLine_of_errors (h : (scan (Text.trim line)).errors ≠ []) :
    analyzeLine line number =
      ⟨number, Text.trim line, (scan (Text.trim line)).tokens, [], none,
        (scan (Text.trim line)).errors.map .ofScanError, some .lexical⟩ := by
  simp [analyzeLine, Scan.hasErrors, h]

theorem analyzeLine_of_error (h : (scan (Text.trim line)).errors = [])
    (hdeep : parse defaultNestingLimit (scan (Text.trim line)).tokens = .error e) :
    let diagnostics := rawCheck (Text.trim line) ++ [.ofNestingTooDeep e]
    analyzeLine line number =
      ⟨number, Text.trim line, (scan (Text.trim line)).tokens,
        symbolTable (scan (Text.trim line)).tokens, none, diagnostics,
        diagnostics.head?.map Diagnostic.kind⟩ := by
  simp [analyzeLine, Scan.hasErrors, h, parseDiagnostics, hdeep]

theorem analyzeLine_of_ok (h : (scan (Text.trim line)).errors = [])
    (hparse : parse defaultNestingLimit (scan (Text.trim line)).tokens = .ok p) :
    let diagnostics := rawCheck (Text.trim line) ++
      p.faults.map (.ofFault (scan (Text.trim line)).tokens (Text.trim line).toList)
    analyzeLine line number =
      ⟨number, Text.trim line, (scan (Text.trim line)).tokens,
        symbolTable (scan (Text.trim line)).tokens, some p.tree, diagnostics,
        diagnostics.head?.map Diagnostic.kind⟩ := by
  simp [analyzeLine, Scan.hasErrors, h, parseDiagnostics, hparse]

-- ---------------------------------------------------------------------------
-- Diagnostics of each stage
-- ---------------------------------------------------------------------------

def Diagnostic.IsForError (d : Diagnostic) (e : ScanError) : Prop :=
  d.kind = .lexical ∧ d.line = e.place.line ∧ d.column = e.place.column ∧
    d.symbol? = some e.char.toString

theorem Scan.isForError_ofScanError (h : e ∈ (ofChars .origin cs).errors) :
    (Diagnostic.ofScanError e).IsForError e := by
  obtain ⟨before, -, -, hplace⟩ := Position.mem_marks_iff.mp (mem_marks_of_mem_errors h)
  obtain ⟨n, ahead, -, hopen, -⟩ := Position.exists_openLine before
  simp [Diagnostic.IsForError, Diagnostic.ofScanError, Diagnostic.placed, hplace, hopen]

/-- The errors of a scan are lexical, the first one of them too. -/
theorem primaryKind?_analyzeLine (line : String) (number : Nat) :
    (analyzeLine line number).primaryKind? =
      (analyzeLine line number).diagnostics.head?.map Diagnostic.kind := by
  by_cases herrors : (scan (Text.trim line)).errors = []
  · cases hparse : parse defaultNestingLimit (scan (Text.trim line)).tokens with
    | error e => rw [analyzeLine_of_error herrors hparse]
    | ok p => rw [analyzeLine_of_ok herrors hparse]
  · obtain ⟨e, errors, hcons⟩ := List.exists_cons_of_ne_nil herrors
    rw [analyzeLine_of_errors herrors, hcons]
    rfl

theorem kind_of_mem_rawCheck (h : (scan text).errors = []) (hd : d ∈ rawCheck text) :
    d.kind = .syntactic := by
  cases mem_rawCheck_iff.mp hd with
  | foreign hcs hc => simp [(Scan.cut h).isAllowed (hcs ▸ List.mem_append_cons_self)] at hc
  | _ => rfl

@[simp] theorem Diagnostic.kind_ofFault (tokens : List Token) (cs : List Char) (fault : Fault) :
    (ofFault tokens cs fault).kind = .syntactic := by
  cases fault <;> rfl

-- ---------------------------------------------------------------------------
-- Trees of whole parses
-- ---------------------------------------------------------------------------

namespace Parse

theorem Reads.exists_children (h : Reads n part s d s') :
    ∃ parts repaired, d = .node part.rule parts repaired := by
  induction h with
  | group _ _ _ hclose => cases hclose <;> exact ⟨_, _, rfl⟩
  | stray _ _ _ ih => exact ih
  | _ => exact ⟨_, _, rfl⟩

theorem ReadsStatement.exists_child (h : ReadsStatement n s d s') :
    ∃ rule parts repaired, rule.isPlumbing = false ∧
      d = .node .statement [.node rule parts repaired] false := by
  cases h with
  | assigned => exact ⟨.assignment, _, _, rfl, rfl⟩
  | plain _ hvalue =>
    obtain ⟨parts, repaired, rfl⟩ := hvalue.exists_children
    exact ⟨.expression, parts, repaired, rfl, rfl⟩

end Parse

theorem exists_child_of_parse (h : parse limit tokens = .ok p) :
    ∃ rule parts repaired, rule.isPlumbing = false ∧
      p.tree = .node .statement [.node rule parts repaired] false := by
  obtain ⟨tree, faults⟩ := p
  obtain ⟨d, s, hreads, rfl, -⟩ := Parse.parse_ok_iff.mp h
  obtain ⟨rule, parts, repaired, hrule, rfl⟩ := hreads.exists_child
  refine ⟨rule, Forest.arrange (Tree.arrangedForest parts), repaired, hrule, ?_⟩
  simp [Tree.arranged, Tree.arrangedForest, Tree.ofChildren, Forest.arrange_singleton]

theorem outlineRows_ne_nil_of_parse (h : parse limit tokens = .ok p) : p.tree.outlineRows ≠ [] := by
  obtain ⟨rule, parts, repaired, hrule, htree⟩ := exists_child_of_parse h
  rw [htree, Tree.outlineRows, Tree.outlineRowsAt, if_pos (by rfl), Tree.forestRowsAt,
    Tree.outlineRowsAt, hrule]
  simp

-- ---------------------------------------------------------------------------
-- Shapes
-- ---------------------------------------------------------------------------

namespace LineAnalysis

/-- How far a line gets: no further than its scan, up to a parse that is given up, or to a tree. -/
inductive Shape
  | unscanned
  | givenUp
  | parsed
deriving Repr, DecidableEq

structure Unscanned (a : LineAnalysis) (errors : List ScanError) : Prop where
  no_tree : a.tree? = none
  no_symbols : a.symbols = []
  no_outline : ∀ style, a.outline style = []
  diagnostics : List.Forall₂ Diagnostic.IsForError a.diagnostics errors
  not_accepted : a.accepted = false
  primaryKind : a.primaryKind? = some .lexical

structure GivenUp (a : LineAnalysis) (tokens : List Token) : Prop where
  no_tree : a.tree? = none
  no_outline : ∀ style, a.outline style = []
  symbols : a.symbols = symbolTable tokens
  diagnostics : ∃ findings last, a.diagnostics = findings ++ [last] ∧
    (∀ d ∈ findings, d.kind = .syntactic) ∧ last.kind = .runtime ∧ last.line = 1 ∧
    last.column = 1 ∧ last.symbol? = none
  not_accepted : a.accepted = false
  primaryKind : a.primaryKind? = some .syntactic ∨ a.primaryKind? = some .runtime

structure Parsed (a : LineAnalysis) (tree : Tree) : Prop where
  tree?_eq : a.tree? = some tree
  root : tree.rule? = some .statement
  outline : ∀ style, a.outline style ≠ []
  diagnostics : ∀ d ∈ a.diagnostics, d.kind = .syntactic
  accepted_iff : a.accepted = true ↔ a.diagnostics = []
  primaryKind : a.diagnostics ≠ [] → a.primaryKind? = some .syntactic

/-- The analysis of a line with some scan has a shape, as the scan and the parse of its tokens
want it. -/
def HasShape (a : LineAnalysis) (s : Scan) : Shape → Prop
  | .unscanned => s.errors ≠ [] ∧ a.Unscanned s.errors
  | .givenUp => s.errors = [] ∧ ∃ e, parse defaultNestingLimit s.tokens = .error e ∧
      a.GivenUp s.tokens
  | .parsed => s.errors = [] ∧ ∃ p, parse defaultNestingLimit s.tokens = .ok p ∧ a.Parsed p.tree

theorem HasShape.unique (h : HasShape a s shape) (h' : HasShape a s shape') : shape = shape' := by
  cases shape <;> cases shape' <;> first | rfl | skip
  case unscanned.givenUp | unscanned.parsed => exact absurd h'.1 h.1
  case givenUp.unscanned | parsed.unscanned => exact absurd h.1 h'.1
  case givenUp.parsed | parsed.givenUp =>
    obtain ⟨-, _, hparse, -⟩ := h
    obtain ⟨-, _, hparse', -⟩ := h'
    cases hparse.symm.trans hparse'

end LineAnalysis

theorem unscanned_of_errors (h : (scan (Text.trim line)).errors ≠ []) :
    (analyzeLine line number).Unscanned (scan (Text.trim line)).errors := by
  rw [analyzeLine_of_errors h]
  refine ⟨rfl, rfl, fun _ => rfl, ?_, by simp [LineAnalysis.accepted], rfl⟩
  rw [List.forall₂_map_left_iff, List.forall₂_same]
  exact fun e he => Scan.isForError_ofScanError he

theorem givenUp_of_error (h : (scan (Text.trim line)).errors = [])
    (hdeep : parse defaultNestingLimit (scan (Text.trim line)).tokens = .error e) :
    (analyzeLine line number).GivenUp (scan (Text.trim line)).tokens := by
  have hkinds := fun d => @kind_of_mem_rawCheck (Text.trim line) d h
  rw [analyzeLine_of_error h hdeep]
  refine ⟨rfl, fun _ => rfl, rfl, ⟨_, _, rfl, hkinds, rfl, rfl, rfl, rfl⟩,
    by simp [LineAnalysis.accepted], ?_⟩
  cases hraw : rawCheck (Text.trim line) with
  | nil => exact .inr rfl
  | cons d findings =>
    refine .inl (congrArg some (hkinds d ?_))
    simp [hraw]

theorem parsed_of_ok (h : (scan (Text.trim line)).errors = [])
    (hparse : parse defaultNestingLimit (scan (Text.trim line)).tokens = .ok p) :
    (analyzeLine line number).Parsed p.tree := by
  obtain ⟨rule, parts, repaired, -, htree⟩ := exists_child_of_parse hparse
  have hkinds : ∀ d ∈ (analyzeLine line number).diagnostics, d.kind = .syntactic := by
    rw [analyzeLine_of_ok h hparse]
    intro d hd
    rcases List.mem_append.mp hd with hd | hd
    · exact kind_of_mem_rawCheck h hd
    · obtain ⟨fault, -, rfl⟩ := List.mem_map.mp hd
      exact Diagnostic.kind_ofFault ..
  refine ⟨by rw [analyzeLine_of_ok h hparse], by rw [htree]; rfl, ?_, hkinds, ?_, fun hne => ?_⟩
  · intro style
    simpa [analyzeLine_of_ok h hparse, LineAnalysis.outline, Tree.outline] using
      outlineRows_ne_nil_of_parse hparse
  · simp [analyzeLine_of_ok h hparse, LineAnalysis.accepted, htree, Tree.isNode, Tree.rule?]
  · obtain ⟨d, more, hd⟩ := List.exists_cons_of_ne_nil hne
    rw [primaryKind?_analyzeLine, hd]
    exact congrArg some (hkinds d (hd ▸ List.mem_cons_self ..))

/-- Every analysis of a line has exactly one shape. Its primary kind is that of its first
diagnostic. -/
theorem existsUnique_shape (line : String) (number : Nat) :
    (∃! shape, (analyzeLine line number).HasShape (scan (Text.trim line)) shape) ∧
      (analyzeLine line number).primaryKind? =
        (analyzeLine line number).diagnostics.head?.map Diagnostic.kind := by
  refine ⟨?_, primaryKind?_analyzeLine line number⟩
  have hexists : ∃ shape, (analyzeLine line number).HasShape (scan (Text.trim line)) shape := by
    by_cases herrors : (scan (Text.trim line)).errors = []
    · cases hparse : parse defaultNestingLimit (scan (Text.trim line)).tokens with
      | error e => exact ⟨.givenUp, herrors, e, hparse, givenUp_of_error herrors hparse⟩
      | ok p => exact ⟨.parsed, herrors, p, hparse, parsed_of_ok herrors hparse⟩
    · exact ⟨.unscanned, herrors, unscanned_of_errors herrors⟩
  obtain ⟨shape, hshape⟩ := hexists
  exact ⟨shape, hshape, fun _ h => h.unique hshape⟩

end FormulaCheck
