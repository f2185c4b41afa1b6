import FormulaCheck.Proofs.Analysis
import FormulaCheck.Proofs.Parse.Faultless
import FormulaCheck.Proofs.RawCheck
import FormulaCheck.Proofs.Scan

/-!
# Accepted lines

A line is accepted exactly if its text can be cut into a statement that nests within the limit. The
cut that the scan finds is then that one, the checks on raw characters have nothing to say, and the
parse has no fault.
-/

namespace FormulaCheck

theorem Derivation.isNode_arranged (h : Derivation r ts d) : d.arranged.isNode = true := by
  obtain ⟨ds, rfl⟩ := h.eq_node
  rfl

theorem Neighbours.isSymbol_eq_false (h : Neighbours k k') (hk : k.isSymbol = true) :
    k'.isSymbol = false := by
  have hfactor : k'.startsFactor = false := by
    simpa [Neighbours, Token.Kind.endsOperand_of_isSymbol hk] using h
  rw [← Bool.not_eq_true]
  intro hk'
  simp [Token.Kind.startsFactor_iff.mpr (.inl hk')] at hfactor

theorem Derives.symbolsApart (h : Derives .statement ks) : SymbolsApart ks :=
  h.neighbours.imp fun _ _ hneighbours => hneighbours.isSymbol_eq_false

theorem accepted_iff_checks : (analyzeLine line number).accepted = true ↔
    (scan (Text.trim line)).errors = [] ∧ rawCheck (Text.trim line) = [] ∧
      ∃ tree, parse defaultNestingLimit (scan (Text.trim line)).tokens = .ok ⟨tree, []⟩ := by
  by_cases herrors : (scan (Text.trim line)).errors = []
  · have hscan : (scan (Text.trim line)).hasErrors = false := by simp [Scan.hasErrors, herrors]
    simp only [analyzeLine, hscan, herrors, LineAnalysis.accepted, parseDiagnostics]
    cases hparse : parse defaultNestingLimit (scan (Text.trim line)).tokens with
    | error failure => simp
    | ok p =>
      obtain ⟨tree, faults⟩ := p
      have hnode : faults = [] → tree.isNode = true := by
        rintro rfl
        obtain ⟨d, hd, -, rfl⟩ := parse_faultless_iff.mp hparse
        exact hd.isNode_arranged
      simp only [Bool.false_eq_true, if_false, Bool.and_eq_true, List.isEmpty_iff,
        List.append_eq_nil_iff, List.map_eq_nil_iff, Option.any_some, Except.ok.injEq,
        Parsed.mk.injEq, true_and]
      constructor
      · rintro ⟨⟨hraw, hfaults⟩, -⟩
        exact ⟨hraw, tree, rfl, hfaults⟩
      · rintro ⟨hraw, -, -, hfaults⟩
        exact ⟨⟨hraw, hfaults⟩, hnode hfaults⟩
  · have hscan : (scan (Text.trim line)).hasErrors = true := by simp [Scan.hasErrors, herrors]
    simp [analyzeLine, hscan, herrors, LineAnalysis.accepted]

theorem exists_derivation_of_accepted (h : (analyzeLine line number).accepted = true) :
    ∃ d, Derivation .statement (analyzeLine line number).tokens d ∧
      (analyzeLine line number).tree? = some d.arranged := by
  obtain ⟨herrors, -, tree, hparse⟩ := accepted_iff_checks.mp h
  obtain ⟨d, hd, -, rfl⟩ := parse_faultless_iff.mp hparse
  rw [analyzeLine_of_ok herrors hparse]
  exact ⟨d, hd, rfl⟩

theorem Cut.parses (h : Cut text.toList ks) (hd : Derives .statement ks)
    (hn : NestsWithin limit ks) :
    (scan text).errors = [] ∧ ∃ tree, parse limit (scan text).tokens = .ok ⟨tree, []⟩ := by
  obtain ⟨herrors, rfl⟩ := h.scan_eq hd.symbolsApart Position.origin
  obtain ⟨d, hderivation⟩ := hd.exists_derivation rfl
  exact ⟨herrors, _, parse_faultless_iff.mpr ⟨d, hderivation, hn, rfl⟩⟩

theorem accepted_iff_kinds (h : (scan (Text.trim line)).errors = []) :
    (analyzeLine line number).accepted = true ↔
      Derives .statement ((scan (Text.trim line)).tokens.map Token.kind) ∧
        NestsWithin defaultNestingLimit ((scan (Text.trim line)).tokens.map Token.kind) := by
  refine accepted_iff_checks.trans ⟨?_, ?_⟩
  · rintro ⟨-, -, tree, hparse⟩
    obtain ⟨d, hd, hn, -⟩ := parse_faultless_iff.mp hparse
    exact ⟨hd.derives, hn⟩
  · rintro ⟨hd, hn⟩
    have hcut := Scan.cut h
    exact ⟨h, rawCheck_eq_nil hcut hd, (hcut.parses hd hn).2⟩

/-- The accepted lines are those of the grammar, and the raw checks find nothing in any text that
can be cut into a statement. -/
theorem accepted_iff_derives (line : String) (number : Nat) :
    ((analyzeLine line number).accepted = true ↔
      ∃ ks, Cut (Text.trim line).toList ks ∧ Derives .statement ks ∧ NestsWithin 256 ks) ∧
    ∀ ks, Cut (Text.trim line).toList ks → Derives .statement ks →
      rawCheck (Text.trim line) = [] := by
  refine ⟨accepted_iff_checks.trans ⟨?_, ?_⟩, fun ks hcut hd => rawCheck_eq_nil hcut hd⟩
  · rintro ⟨herrors, -, tree, hparse⟩
    obtain ⟨d, hd, hn, -⟩ := parse_faultless_iff.mp hparse
    exact ⟨_, Scan.cut herrors, hd.derives, hn⟩
  · rintro ⟨ks, hcut, hd, hn⟩
    obtain ⟨herrors, hparse⟩ := hcut.parses hd hn
    exact ⟨herrors, rawCheck_eq_nil hcut hd, hparse⟩

end FormulaCheck
