import FormulaCheck.Proofs.Analysis
import FormulaCheck.Proofs.Parse.Renaming
import Mathlib.Data.List.DropRight

/-!
# Diagnostics point at what they name

The columns of diagnostics come from three places: the checks on raw characters count characters,
the scan keeps track of its position, and the faults of a parse have the positions of tokens. On a
line without line feeds all of them count the characters of the trimmed text, so that the symbol of
a diagnostic can be read at its column. Only the diagnostic for tokens that end too early is just
behind the text, where its last token ends (`PlacedCut.endOfTokens_eq`).
-/

namespace FormulaCheck

variable {line : String} {number : Nat} {cs before l after : List Char} {d : Diagnostic}

-- ---------------------------------------------------------------------------
-- Reading at a column
-- ---------------------------------------------------------------------------

/-- From the column of a diagnostic on the text begins with its symbol. Empty parentheses are named
without the blanks between them. -/
def Diagnostic.PointsInto (d : Diagnostic) (cs : List Char) : Prop :=
  1 ≤ d.column ∧ d.column ≤ cs.length ∧ ∃ symbol, d.symbol? = some symbol ∧
    (symbol.toList <+: cs.drop (d.column - 1) ∨
      symbol = "()" ∧ ∃ blanks, (∀ b ∈ blanks, isBlank b = true) ∧
        '(' :: (blanks ++ [')']) <+: cs.drop (d.column - 1))

theorem pointsInto_of_append (hcolumn : d.column = before.length + 1)
    (hsymbol : d.symbol? = some (String.ofList l)) (hl : l ≠ []) :
    d.PointsInto (before ++ (l ++ after)) := by
  have hpos := List.length_pos_iff.mpr hl
  refine ⟨by omega, by simp only [hcolumn, List.length_append]; omega, _, hsymbol, .inl ?_⟩
  simp [hcolumn]

theorem pointsInto_of_cons (hcolumn : d.column = before.length + 1)
    (hsymbol : d.symbol? = some (String.singleton c)) : d.PointsInto (before ++ c :: after) :=
  pointsInto_of_append hcolumn (hsymbol.trans (by rw [String.singleton_eq_ofList]))
    (List.cons_ne_nil c [])

-- ---------------------------------------------------------------------------
-- Diagnostics of each stage
-- ---------------------------------------------------------------------------

theorem column_inColumn (n : Nat) (kind : Diagnostic.Kind) (complaint : Complaint)
    (symbol : String) : (Diagnostic.inColumn (n + 1) kind complaint symbol).column = n + 1 :=
  Nat.max_eq_left (Nat.le_add_left 1 n)

theorem RawFinding.pointsInto (h : RawFinding cs d) : d.line = 1 ∧ d.PointsInto cs := by
  cases h with
  | first hcs | last hcs | adjacent hcs | closing hcs | opening hcs | foreign hcs =>
    exact ⟨rfl, hcs ▸ pointsInto_of_cons (column_inColumn ..) rfl⟩
  | @empty before blanks after hcs hblanks =>
    refine ⟨rfl, ?_⟩
    rw [Diagnostic.PointsInto, column_inColumn]
    refine ⟨Nat.le_add_left .., by simp [hcs], _, rfl, .inr ⟨rfl, blanks, hblanks, after, ?_⟩⟩
    simp [hcs]

theorem pointsInto_ofScanError (hline : '\n' ∉ cs) (h : e ∈ (Scan.ofChars .origin cs).errors) :
    (Diagnostic.ofScanError e).line = 1 ∧ (Diagnostic.ofScanError e).PointsInto cs := by
  obtain ⟨-, hplace, hcolumn, hsymbol⟩ := Scan.isForError_ofScanError h
  obtain ⟨before, after, rfl, he⟩ := Position.mem_marks_iff.mp (Scan.mem_marks_of_mem_errors h)
  rw [Position.advanceBy_of_not_mem (by simp_all)] at he
  exact ⟨by rw [hplace, he]; rfl,
    pointsInto_of_cons (by rw [hcolumn, he, Nat.add_comm]; rfl) hsymbol⟩

theorem pointsInto_ofFault (hline : '\n' ∉ cs) (h : t ∈ (Scan.ofChars .origin cs).tokens) :
    (Diagnostic.ofFault tokens cs (.unexpected t)).line = 1 ∧
      (Diagnostic.ofFault tokens cs (.unexpected t)).PointsInto cs := by
  obtain ⟨before, k, l, after, hcs, hlexeme, rfl⟩ := Scan.exists_of_mem_tokens h
  have hplace : Position.origin.advanceBy before = ⟨1, 1 + before.length⟩ :=
    Position.advanceBy_of_not_mem (by simp_all)
  rw [hplace]
  have hcolumn : max (1 + before.length) 1 = before.length + 1 := by omega
  exact ⟨rfl, (congrArg _ hcs).mpr (pointsInto_of_append hcolumn rfl hlexeme.ne_nil)⟩

-- ---------------------------------------------------------------------------
-- The end of the tokens
-- ---------------------------------------------------------------------------

theorem PlacedCut.isBlank_of_nil (h : PlacedCut p cs []) : ∀ c ∈ cs, isBlank c = true := by
  generalize hts : ([] : List Token) = ts at h
  induction h with
  | nil => simp
  | blank hblank _ ih => simpa [hblank] using ih hts
  | lexeme => cases hts

theorem PlacedCut.eq_nil_of_nil (h : PlacedCut p cs [])
    (hlast : ∀ c ∈ cs.getLast?, isBlank c = false) : cs = [] := by
  rw [← List.getLast?_eq_none_iff, Option.eq_none_iff_forall_not_mem]
  intro c hc
  have hblank := h.isBlank_of_nil c (List.mem_of_getLast? hc)
  simp [hlast c hc] at hblank

theorem PlacedCut.endOfTokens_eq (h : PlacedCut .origin cs ts)
    (hlast : ∀ c ∈ cs.getLast?, isBlank c = false) :
    Diagnostic.endOfTokens ts = Position.origin.advanceBy cs := by
  rcases List.eq_nil_or_concat ts with rfl | ⟨before, t, rfl⟩
  · rw [h.eq_nil_of_nil hlast]
    rfl
  · rw [List.concat_eq_append] at h ⊢
    obtain ⟨cs₁, k, l, cs₂, rfl, hlexeme, rfl, -, hcut⟩ := h.split
    obtain rfl : cs₂ = [] := hcut.eq_nil_of_nil fun c hc => hlast c (by simp_all)
    have hpos := List.length_pos_iff.mpr hlexeme.ne_nil
    rw [List.append_nil, Position.advanceBy_append, hlexeme.advanceBy]
    simp only [Diagnostic.endOfTokens, List.getLast?_concat, Token.ofLexeme, Position.mk.injEq,
      true_and]
    omega

theorem isBlank_eq_false_of_getLast?_trim (h : c ∈ (Text.trim text).toList.getLast?) :
    isBlank c = false := by
  rw [Text.trim, String.toList_ofList, Text.trimChars] at h
  exact Text.isBlank_eq_false_of_getLast?_trimEndChars h

-- ---------------------------------------------------------------------------
-- All diagnostics of a line
-- ---------------------------------------------------------------------------

/-- Where a diagnostic stands in a text with some tokens. The diagnostic for a parse that is given
up is at the start and names nothing, that for tokens that end too early is just behind the text,
and every other one points into the text. -/
structure Diagnostic.Located (d : Diagnostic) (tokens : List Token) (cs : List Char) : Prop where
  line_eq : d.line = 1
  runtime : d.kind = .runtime → d.column = 1 ∧ d.symbol? = none
  endOfInput : d = .ofFault tokens cs .endOfInput → d.column = cs.length + 1
  elsewhere : d.kind ≠ .runtime → d ≠ .ofFault tokens cs .endOfInput → d.PointsInto cs

theorem Diagnostic.PointsInto.located (h : Diagnostic.PointsInto d cs) (hline : d.line = 1)
    (hkind : d.kind ≠ .runtime)
    (hend : d.kind = .syntactic → (endOfTokens tokens).column = cs.length + 1) :
    d.Located tokens cs where
  line_eq := hline
  runtime hruntime := absurd hruntime hkind
  endOfInput heq := by
    have hcolumn := hend (heq ▸ kind_ofFault ..)
    rw [heq]
    exact (Nat.max_eq_left (by omega)).trans hcolumn
  elsewhere _ _ := h

theorem located_ofNestingTooDeep (e : NestingTooDeep) :
    (Diagnostic.ofNestingTooDeep e).Located tokens cs where
  line_eq := rfl
  runtime _ := ⟨rfl, rfl⟩
  endOfInput heq := by cases congrArg Diagnostic.kind heq
  elsewhere hkind := absurd rfl hkind

theorem located_ofFault (hend : Diagnostic.endOfTokens tokens = ⟨1, cs.length + 1⟩) :
    (Diagnostic.ofFault tokens cs .endOfInput).Located tokens cs where
  line_eq := by simp [Diagnostic.ofFault, Diagnostic.placed, hend]
  runtime hkind := by cases hkind
  endOfInput _ := by simp [Diagnostic.ofFault, Diagnostic.placed, hend]
  elsewhere _ hne := absurd rfl hne

theorem endOfTokens_scan_trim (hline : '\n' ∉ (Text.trim line).toList)
    (herrors : (scan (Text.trim line)).errors = []) :
    Diagnostic.endOfTokens (scan (Text.trim line)).tokens =
      ⟨1, (Text.trim line).toList.length + 1⟩ := by
  have hcut : PlacedCut .origin (Text.trim line).toList (scan (Text.trim line)).tokens :=
    Scan.placedCut herrors
  rw [hcut.endOfTokens_eq fun c hc => isBlank_eq_false_of_getLast?_trim hc,
    Position.advanceBy_of_not_mem hline, Nat.add_comm]
  rfl

/-- Every diagnostic of a line stands where it says. -/
theorem located_of_mem_diagnostics (hline : '\n' ∉ (Text.trim line).toList)
    (hd : d ∈ (analyzeLine line number).diagnostics) :
    d.Located (scan (Text.trim line)).tokens (Text.trim line).toList := by
  by_cases herrors : (scan (Text.trim line)).errors = []
  · have hend := endOfTokens_scan_trim hline herrors
    have hraw : d ∈ rawCheck (Text.trim line) →
        d.Located (scan (Text.trim line)).tokens (Text.trim line).toList := by
      intro hd
      obtain ⟨hone, hpoints⟩ := (mem_rawCheck_iff.mp hd).pointsInto
      exact hpoints.located hone (by simp [kind_of_mem_rawCheck herrors hd]) fun _ => by rw [hend]
    cases hparse : parse defaultNestingLimit (scan (Text.trim line)).tokens with
    | error e =>
      rw [analyzeLine_of_error herrors hparse, List.mem_append, List.mem_singleton] at hd
      rcases hd with hd | rfl
      · exact hraw hd
      · exact located_ofNestingTooDeep e
    | ok p =>
      rw [analyzeLine_of_ok herrors hparse, List.mem_append, List.mem_map] at hd
      rcases hd with hd | ⟨fault, hfault, rfl⟩
      · exact hraw hd
      · cases fault with
        | unexpected t =>
          obtain ⟨hone, hpoints⟩ := pointsInto_ofFault hline (mem_of_unexpected hparse hfault)
          exact hpoints.located hone (by simp) fun _ => by rw [hend]
        | endOfInput => exact located_ofFault hend
  · rw [analyzeLine_of_errors herrors, List.mem_map] at hd
    obtain ⟨e, he, rfl⟩ := hd
    obtain ⟨hone, hpoints⟩ := pointsInto_ofScanError hline he
    exact hpoints.located hone nofun nofun

/-- A line that ends with an operator has a diagnostic just behind its text. -/
theorem located_endOfInput :
    let d : Diagnostic := ⟨"Expression cannot end with operator '+'", 1, 4, .syntactic, some "EOF"⟩
    '\n' ∉ (Text.trim " a + ").toList ∧ d ∈ (analyzeLine " a + " 7).diagnostics ∧
      d.Located (scan (Text.trim " a + ")).tokens (Text.trim " a + ").toList := by
  have hline : '\n' ∉ (Text.trim " a + ").toList := by decide +kernel
  have hd : ⟨"Expression cannot end with operator '+'", 1, 4, .syntactic, some "EOF"⟩ ∈
      (analyzeLine " a + " 7).diagnostics := by decide +kernel
  exact ⟨hline, hd, located_of_mem_diagnostics hline hd⟩

end FormulaCheck
