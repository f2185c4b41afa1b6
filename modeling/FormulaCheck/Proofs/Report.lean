import FormulaCheck.Proofs.Parse.Renaming
import FormulaCheck.Proofs.RawFindings
import FormulaCheck.Proofs.Spans
import FormulaCheck.Proofs.SymbolTable
import FormulaCheck.Proofs.Tables
import FormulaCheck.Report

/-!
# The tables of a report

A table can be read back if no cell of its rows has a line feed in it or ends in a blank. The cells
of a report are such (`regular_of_mem_tables`): their blanks are even all spaces (`FitsCell`). A
cell is a number, a fixed word, a text of the line or a complaint. Of the line the tables show only
tokens and the single characters at which something is wrong, which are not blank; and a complaint
quotes nothing else (`Complaint.QuotesInk`).
-/

namespace FormulaCheck

-- ---------------------------------------------------------------------------
-- Texts for cells
-- ---------------------------------------------------------------------------

def Inked (text : String) : Prop := (text.toList.all fun c => !isBlank c) = true
deriving Decidable

/-- All blanks of a text are spaces. -/
def Spaced (text : String) : Prop := (text.toList.all fun c => !isBlank c || c == ' ') = true
deriving Decidable

structure FitsCell (text : String) : Prop where
  spaced : Spaced text
  last : ∀ c ∈ text.toList.getLast?, isBlank c = false

theorem fitsCell_iff : FitsCell text ↔
    Spaced text ∧ (text.toList.getLast?.all fun c => !isBlank c) = true := by
  simp only [Option.all_eq_true, Bool.not_eq_true']
  exact ⟨fun h => ⟨h.spaced, h.last⟩, fun h => ⟨h.1, h.2⟩⟩

instance (text : String) : Decidable (FitsCell text) := decidable_of_iff _ fitsCell_iff.symm

section

variable {a b text : String}

theorem inked_iff : Inked text ↔ ∀ c ∈ text.toList, isBlank c = false := by
  simp [Inked]

theorem Spaced.eq_space (h : Spaced text) (hc : c ∈ text.toList) (hblank : isBlank c = true) :
    c = ' ' := by
  simpa [hblank] using List.all_eq_true.mp h c hc

theorem Inked.fitsCell (h : Inked text) : FitsCell text where
  spaced := List.all_eq_true.mpr fun c hc => by simp [inked_iff.mp h c hc]
  last c hc := inked_iff.mp h c (List.mem_of_getLast? hc)

theorem Inked.spaced (h : Inked text) : Spaced text := h.fitsCell.spaced

theorem Spaced.append (ha : Spaced a) (hb : Spaced b) : Spaced (a ++ b) := by
  rw [Spaced, String.toList_append, List.all_append, ha, hb]
  rfl

theorem FitsCell.append (ha : Spaced a) (hb : FitsCell b) (hne : b ≠ "") : FitsCell (a ++ b) where
  spaced := ha.append hb.spaced
  last := by
    rw [String.toList_append, List.getLast?_append_of_ne_nil _ (by simpa using hne)]
    exact hb.last

end

theorem inked_singleton (h : isBlank c = false) : Inked c.toString := by
  simpa [inked_iff] using h

theorem inked_toString (n : Nat) : Inked (toString n) := by
  refine inked_iff.mpr fun c hc => ?_
  rw [Nat.toString_eq_repr, Nat.toList_repr] at hc
  exact (InSymbol.of_isDigit
    (Nat.isDigit_of_mem_toDigits (by decide) (by decide) hc)).isBlank_eq_false

theorem toString_ne_empty (n : Nat) : toString n ≠ "" := by
  simp [← String.toList_inj, Nat.toDigits_ne_nil]

theorem FitsCell.append_toString (h : Spaced a) (n : Nat) : FitsCell (a ++ toString n) :=
  .append h (inked_toString n).fitsCell (toString_ne_empty n)

-- ---------------------------------------------------------------------------
-- Complaints
-- ---------------------------------------------------------------------------

def Complaint.QuotesInk : Complaint → Prop
  | .startsWithOperator text | .endsWithOperator text | .unexpectedOperator text _
  | .unexpectedToken text _ => Inked text
  | .consecutiveOperators left right => isBlank left = false ∧ Inked right
  | .foreignChar c | .foreignCharAt c _ | .misplacedChar c _ => isBlank c = false
  | .unmatchedClosing | .unmatchedOpening | .emptyParentheses | .unexpectedEnd
  | .nestingTooDeep _ => True

theorem FitsCell.quoted (ha : Spaced a) (hb : Spaced b) : FitsCell (a ++ b ++ "'") :=
  .append (ha.append hb) (by decide +kernel) (by decide)

theorem FitsCell.positioned (ha : Spaced a) (hb : Spaced b) (column : Nat) :
    FitsCell (a ++ b ++ "' at position " ++ toString column) :=
  .append_toString ((ha.append hb).append (by decide +kernel)) column

theorem NestingTooDeep.fitsCell_render (e : NestingTooDeep) : FitsCell e.render := by
  have hlimit : Spaced ("expression nesting exceeds " ++ toString e.limit) :=
    .append (by decide +kernel) (inked_toString _).spaced
  have hline : Spaced ("expression nesting exceeds " ++ toString e.limit ++ " levels at line " ++
      toString e.place.line) :=
    (hlimit.append (by decide +kernel)).append (inked_toString _).spaced
  exact .append_toString (hline.append (by decide +kernel)) _

theorem NestingTooDeep.render_ne_empty (e : NestingTooDeep) : e.render ≠ "" :=
  fun h => toString_ne_empty _ (String.append_eq_empty_iff.mp h).2

theorem Complaint.QuotesInk.fitsCell_message {complaint : Complaint} (h : complaint.QuotesInk) :
    FitsCell complaint.message := by
  cases complaint with
  | startsWithOperator | endsWithOperator => exact .quoted (by decide +kernel) h.spaced
  | consecutiveOperators left right =>
    have hleft : Spaced ("Consecutive operators '" ++ left.toString) :=
      .append (by decide +kernel) (inked_singleton h.1).spaced
    have hend : FitsCell "' are not allowed" := by decide +kernel
    exact .append (hleft.append h.2.spaced) hend (by decide)
  | unexpectedOperator _ column => exact .positioned (by decide +kernel) h.spaced column
  | foreignChar => exact .quoted (by decide +kernel) (inked_singleton h).spaced
  | foreignCharAt _ column | misplacedChar _ column =>
    exact .positioned (by decide +kernel) (inked_singleton h).spaced column
  | unexpectedToken _ column =>
    have hplace : Spaced ("Syntax error at position " ++ toString column) :=
      .append (by decide +kernel) (inked_toString column).spaced
    exact .quoted (hplace.append (by decide +kernel)) h.spaced
  | nestingTooDeep failure =>
    exact .append (by decide +kernel) failure.fitsCell_render failure.render_ne_empty
  | unmatchedClosing | unmatchedOpening | emptyParentheses | unexpectedEnd => decide +kernel

theorem isBlank_eq_false_of_isAllowed_eq_false (h : Alphabet.isAllowed c = false) :
    isBlank c = false := by
  simp only [Alphabet.isAllowed, Bool.or_eq_false_iff] at h
  exact h.1.1.2

namespace Fault

variable {chars : List Char}

theorem isBlank_eq_false_of_lastInk? (h : lastInk? chars = some c) : isBlank c = false := by
  simpa using List.find?_some h

theorem quotesInk_complaintAtEnd (chars : List Char) : (complaintAtEnd chars).QuotesInk := by
  unfold complaintAtEnd
  split
  · next c hc =>
    split
    · exact inked_singleton (isBlank_eq_false_of_lastInk? hc)
    · trivial
  · trivial

theorem quotesInk_complaintAtOperator (h : Inked op) :
    (complaintAtOperator chars op column).QuotesInk := by
  unfold complaintAtOperator
  split
  · exact h
  · split
    · next left hleft =>
      exact ⟨isBlank_eq_false_of_lastInk? (Option.filter_eq_some_iff.mp hleft).1, h⟩
    · split <;> exact h

theorem quotesInk_complaintAtToken (h : Inked t.text) : (complaintAtToken chars t).QuotesInk := by
  unfold complaintAtToken
  dsimp only
  split
  · exact quotesInk_complaintAtOperator h
  · split
    · trivial
    · trivial
    · split
      · next c _ =>
        split
        · exact h
        · next hc => exact isBlank_eq_false_of_isAllowed_eq_false (Bool.eq_false_iff.mpr hc)
      · exact h

end Fault

-- ---------------------------------------------------------------------------
-- Diagnostics
-- ---------------------------------------------------------------------------

/-- A diagnostic has the words of a complaint that quotes no blanks, and no blanks in its symbol. -/
structure Diagnostic.QuotesInk (d : Diagnostic) : Prop where
  exists_complaint : ∃ complaint : Complaint, complaint.QuotesInk ∧ d.message = complaint.message
  symbol : ∀ symbol ∈ d.symbol?, Inked symbol

theorem quotesInk_placed {complaint : Complaint} (hcomplaint : complaint.QuotesInk)
    (hsymbol : ∀ symbol ∈ symbol?, Inked symbol) :
    (Diagnostic.placed place kind complaint.message symbol?).QuotesInk :=
  ⟨⟨complaint, hcomplaint, rfl⟩, hsymbol⟩

theorem quotesInk_inColumn {complaint : Complaint} (hcomplaint : complaint.QuotesInk)
    (hsymbol : Inked symbol) : (Diagnostic.inColumn column kind complaint symbol).QuotesInk :=
  quotesInk_placed hcomplaint fun _ h => Option.some.inj h ▸ hsymbol

theorem RawFinding.quotesInk (h : RawFinding cs d) : d.QuotesInk := by
  cases h with
  | first _ _ hop | last _ _ hop =>
    have hc := inked_singleton (isBlank_eq_false_of_isOperator hop)
    exact quotesInk_inColumn hc hc
  | adjacent _ hleft hright =>
    have hl := isBlank_eq_false_of_isOperator hleft
    have hr := isBlank_eq_false_of_isOperator hright
    exact quotesInk_inColumn ⟨hl, inked_singleton hr⟩ (inked_singleton hl)
  | closing | opening | empty => exact quotesInk_inColumn trivial (by decide +kernel)
  | foreign _ hc =>
    have hc := isBlank_eq_false_of_isAllowed_eq_false hc
    exact quotesInk_inColumn hc (inked_singleton hc)

theorem Scan.quotesInk_ofScanError (h : e ∈ (ofChars p cs).errors) :
    (Diagnostic.ofScanError e).QuotesInk := by
  obtain ⟨-, -, -, hc, -⟩ := exists_reaches_of_mem_errors (scansTo_ofChars p cs) h
  refine quotesInk_placed ?_ fun _ hs => Option.some.inj hs ▸ inked_singleton hc
  unfold ScanError.complaint
  split <;> exact hc

theorem Scan.inked_of_mem_tokens (h : t ∈ (ofChars p cs).tokens) : Inked t.text := by
  obtain ⟨-, k, l, -, -, hlexeme, rfl⟩ := exists_of_mem_tokens h
  simpa [inked_iff, Token.ofLexeme] using fun c => hlexeme.isBlank_eq_false

theorem quotesInk_ofFault (h : ∀ t, fault = .unexpected t → Inked t.text) :
    (Diagnostic.ofFault tokens chars fault).QuotesInk := by
  cases fault with
  | unexpected t =>
    exact quotesInk_placed (Fault.quotesInk_complaintAtToken (h t rfl))
      fun _ hs => Option.some.inj hs ▸ h t rfl
  | endOfInput =>
    exact quotesInk_placed (Fault.quotesInk_complaintAtEnd chars)
      fun _ hs => Option.some.inj hs ▸ by decide +kernel

theorem quotesInk_ofNestingTooDeep (e : NestingTooDeep) :
    (Diagnostic.ofNestingTooDeep e).QuotesInk :=
  have hcomplaint : (Complaint.nestingTooDeep e).QuotesInk := trivial
  quotesInk_placed hcomplaint (by simp)

-- ---------------------------------------------------------------------------
-- Analysed lines
-- ---------------------------------------------------------------------------

structure LineAnalysis.ShowsInk (a : LineAnalysis) : Prop where
  tokens : ∀ t ∈ a.tokens, Inked t.text
  symbols : ∀ s ∈ a.symbols, ∃ t ∈ a.tokens, s.IsFor t
  diagnostics : ∀ d ∈ a.diagnostics, d.QuotesInk

theorem exists_isFor_of_mem_symbolTable (h : s ∈ symbolTable tokens) :
    ∃ t ∈ tokens, s.IsFor t := by
  obtain ⟨t, ht, hs⟩ := (listsFirst_symbolTable tokens).isFor_first s h
  exact ⟨t, List.mem_of_find?_eq_some ht, hs⟩

theorem quotesInk_of_mem_parseDiagnostics (h : ∀ t ∈ tokens, Inked t.text)
    (hd : d ∈ (parseDiagnostics tokens chars).2) : d.QuotesInk := by
  unfold parseDiagnostics at hd
  cases hparse : parse defaultNestingLimit tokens with
  | error e =>
    rw [hparse] at hd
    exact List.mem_singleton.mp hd ▸ quotesInk_ofNestingTooDeep e
  | ok p =>
    rw [hparse] at hd
    obtain ⟨fault, hfault, rfl⟩ := List.mem_map.mp hd
    refine quotesInk_ofFault ?_
    rintro t rfl
    exact h t (mem_of_unexpected hparse hfault)

theorem showsInk_analyzeLine (line : String) (number : Nat) :
    (analyzeLine line number).ShowsInk := by
  have htokens : ∀ t ∈ (scan (Text.trim line)).tokens, Inked t.text :=
    fun t => Scan.inked_of_mem_tokens
  unfold analyzeLine
  dsimp only
  split
  · exact ⟨htokens, List.forall_mem_nil _,
      List.forall_mem_map.mpr fun e => Scan.quotesInk_ofScanError⟩
  · refine ⟨htokens, fun s => exists_isFor_of_mem_symbolTable, fun d hd => ?_⟩
    rcases List.mem_append.mp hd with hd | hd
    · exact (mem_rawCheck_iff.mp hd).quotesInk
    · exact quotesInk_of_mem_parseDiagnostics htokens hd

theorem showsInk_of_mem_analyzeDocument (h : a ∈ analyzeDocument text) : a.ShowsInk := by
  obtain ⟨⟨line, number⟩, -, rfl⟩ := List.mem_map.mp h
  exact showsInk_analyzeLine line number

-- ---------------------------------------------------------------------------
-- Cells
-- ---------------------------------------------------------------------------

namespace Report

def tables (a : LineAnalysis) : List (List String × List (List String)) :=
  [(tokenHeader, a.tokens.map tokenRow), (symbolHeader, a.symbols.map symbolRow),
    (diagnosticHeader, a.diagnostics.map diagnosticRow)]

theorem fitsCell_kindLabel (kind : Token.Kind) : FitsCell kind.label := by
  cases kind <;> decide +kernel

theorem fitsCell_toString (n : Nat) : FitsCell (toString n) := (inked_toString n).fitsCell

theorem fitsCell_of_mem_tokenRow (h : Inked t.text) : ∀ cell ∈ tokenRow t, FitsCell cell := by
  simp only [tokenRow, List.forall_mem_cons]
  exact ⟨h.fitsCell, fitsCell_kindLabel _, h.fitsCell, fitsCell_toString _, fitsCell_toString _,
    List.forall_mem_nil _⟩

theorem fitsCell_of_mem_symbolRow (h : Inked t.text) (hs : s.IsFor t) :
    ∀ cell ∈ symbolRow s, FitsCell cell := by
  simp only [symbolRow, List.forall_mem_cons, hs.lexeme, hs.scope]
  exact ⟨fitsCell_toString _, h.fitsCell, fitsCell_kindLabel _, fitsCell_toString _,
    fitsCell_toString _, fitsCell_toString _, by decide +kernel, List.forall_mem_nil _⟩

theorem fitsCell_of_mem_diagnosticRow (h : d.QuotesInk) :
    ∀ cell ∈ diagnosticRow d, FitsCell cell := by
  obtain ⟨complaint, hcomplaint, hmessage⟩ := h.exists_complaint
  have hkind : FitsCell d.kind.label := by cases d.kind <;> decide +kernel
  have hsymbol : FitsCell (d.symbol?.getD "") := by
    cases hd : d.symbol? with
    | none => decide +kernel
    | some symbol => exact (h.symbol symbol hd).fitsCell
  simp only [diagnosticRow, List.forall_mem_cons, hmessage]
  exact ⟨hkind, fitsCell_toString _, fitsCell_toString _, hsymbol, hcomplaint.fitsCell_message,
    List.forall_mem_nil _⟩

theorem mem_tables_iff : table ∈ tables a ↔ table = (tokenHeader, a.tokens.map tokenRow) ∨
    table = (symbolHeader, a.symbols.map symbolRow) ∨
    table = (diagnosticHeader, a.diagnostics.map diagnosticRow) := by
  simp [tables]

theorem fitsCell_of_mem_tables (h : a.ShowsInk) (htable : table ∈ tables a) (hrow : row ∈ table.2) :
    ∀ cell ∈ row, FitsCell cell := by
  rcases mem_tables_iff.mp htable with rfl | rfl | rfl <;>
    obtain ⟨x, hx, rfl⟩ := List.mem_map.mp hrow
  · exact fitsCell_of_mem_tokenRow (h.tokens x hx)
  · obtain ⟨t, ht, hs⟩ := h.symbols x hx
    exact fitsCell_of_mem_symbolRow (h.tokens t ht) hs
  · exact fitsCell_of_mem_diagnosticRow (h.diagnostics x hx)

theorem regular_of_fitsCell (hheader : ∀ cell ∈ header, '\n' ∉ cell.toList)
    (hlength : ∀ row ∈ rows, row.length = header.length)
    (hcells : ∀ row ∈ rows, ∀ cell ∈ row, FitsCell cell) : Table.Regular header rows where
  header_line := hheader
  row_length := hlength
  cell_line row hrow cell hcell hfeed :=
    absurd ((hcells row hrow cell hcell).spaced.eq_space hfeed rfl) (by decide)
  cell_end row hrow cell hcell := (hcells row hrow cell hcell).last

theorem regular_of_mem_tables (h : a.ShowsInk) (htable : table ∈ tables a) :
    Table.Regular table.1 table.2 := by
  refine regular_of_fitsCell ?_ ?_ fun row hrow => fitsCell_of_mem_tables h htable hrow
  · rcases mem_tables_iff.mp htable with rfl | rfl | rfl <;> dsimp only <;> decide
  · intro row hrow
    rcases mem_tables_iff.mp htable with rfl | rfl | rfl <;>
      obtain ⟨x, -, rfl⟩ := List.mem_map.mp hrow <;> rfl

-- ---------------------------------------------------------------------------
-- Printed tables
-- ---------------------------------------------------------------------------

theorem lines_isInfix_part (hrows : rows ≠ []) :
    Table.lines header rows <:+: part name note (tableLines header rows) := by
  have htable : tableLines header rows = Table.lines header rows :=
    if_neg (by simpa using hrows)
  have hpart : part name note (tableLines header rows) = name :: Table.lines header rows := by
    rw [part, htable]
    rfl
  exact hpart ▸ List.infix_cons (List.infix_refl _)

theorem lines_isInfix_lineSection (htable : table ∈ tables a) (hrows : table.2 ≠ []) :
    Table.lines table.1 table.2 <:+: lineSection a := by
  unfold lineSection
  -- parts are taken off from the last one on, until the one with the table is reached
  rcases mem_tables_iff.mp htable with rfl | rfl | rfl <;>
    repeat first
      | exact List.infix_append_of_infix_right (lines_isInfix_part hrows)
      | refine List.infix_append_of_infix_left ?_

theorem lineSection_isInfix_lines (h : a ∈ analyses) : lineSection a <:+: lines analyses input := by
  have hne : ¬ analyses.isEmpty = true := by simpa using List.ne_nil_of_mem h
  have hsection : lineSection a <:+: analyses.flatMap fun a => "" :: lineSection a :=
    (List.infix_cons (List.infix_refl _)).trans
      (List.infix_of_mem_flatten (List.mem_map_of_mem h))
  unfold lines
  rw [if_neg hne]
  exact List.infix_append_of_infix_right hsection

theorem exists_render_eq (h : ls <:+: lines analyses input) : ∃ before after,
    render analyses input = Text.ofLines before ++ Text.ofLines ls ++ Text.ofLines after := by
  obtain ⟨before, after, hlines⟩ := h
  refine ⟨before, after, ?_⟩
  simp only [render, ← hlines, Text.ofLines, List.map_append, String.join_append]

/-- Tables can be read back, and so can the tables of a document, which are shown in its report as
far as they have rows. -/
theorem tables_readBack (text input : String) :
    (∀ header rows, Table.Regular header rows → ∃ offsets, Table.ReadsBack offsets header rows) ∧
    ∀ a ∈ analyzeDocument text, ∀ table ∈ tables a, Table.Regular table.1 table.2 ∧
      (∀ row ∈ table.2, ∀ cell ∈ row, Spaced cell) ∧
      (table.2 ≠ [] → ∃ before after, render (analyzeDocument text) input =
        Text.ofLines before ++ Text.ofLines (Table.lines table.1 table.2) ++
          Text.ofLines after) := by
  refine ⟨fun header rows h => ⟨_, Table.readsBack_starts h⟩, fun a ha table htable => ?_⟩
  have hink := showsInk_of_mem_analyzeDocument ha
  refine ⟨regular_of_mem_tables hink htable, fun row hrow cell hcell =>
    (fitsCell_of_mem_tables hink htable hrow cell hcell).spaced, fun hrows => ?_⟩
  exact exists_render_eq ((lines_isInfix_lineSection htable hrows).trans
    (lineSection_isInfix_lines ha))

/-- The first of these tables has empty cells and one with blanks inside, and the report shows a
character that no formula may hold. -/
theorem tables_readBack_foreignChar :
    let rows := [["lexical", "1", "3", "é", "Invalid character 'é' at position 3"]]
    (∃ offsets, Table.ReadsBack offsets ["Name ", ""] [["ä", "x  y"], ["", ""]]) ∧
      Table.Regular diagnosticHeader rows ∧
      ∃ before after, render (analyzeDocument "\n2 é") "" = Text.ofLines before ++
        Text.ofLines (Table.lines diagnosticHeader rows) ++ Text.ofLines after := by
  obtain ⟨hread, htables⟩ := tables_readBack "\n2 é" ""
  have ha : analyzeLine "2 é" 2 ∈ analyzeDocument "\n2 é" :=
    List.mem_map.mpr ⟨("2 é", 2), by decide +kernel, rfl⟩
  have hrows : (analyzeLine "2 é" 2).diagnostics.map diagnosticRow =
      [["lexical", "1", "3", "é", "Invalid character 'é' at position 3"]] := by decide +kernel
  obtain ⟨hregular, -, hshown⟩ := htables _ ha _ (mem_tables_iff.mpr (.inr (.inr rfl)))
  rw [hrows] at hregular hshown
  have hcells : Table.Regular ["Name ", ""] [["ä", "x  y"], ["", ""]] :=
    regular_of_fitsCell (by decide +kernel) (by decide) (by decide +kernel)
  exact ⟨hread _ _ hcells, hregular, hshown (List.cons_ne_nil _ _)⟩

end Report

end FormulaCheck
