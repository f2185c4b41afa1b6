import FormulaCheck.Analysis
import FormulaCheck.Proofs.Parse.Mistakes
import FormulaCheck.Proofs.Parse.Reported
import FormulaCheck.Proofs.Places
import FormulaCheck.Proofs.RawFindings
import Mathlib.Data.List.DropRight

/-!
# Lines that are given up

Where a line nests too deep, its analysis has the findings on its raw characters and the one
diagnostic that says so. The faults that the parse had recorded up to there are not among the
diagnostics. A fault can be shown all the same, since the raw checks can find the same thing; they
do so for the operators at the start of the line and in front of another operator, and for no other
fault (`shows_iff_of_nestingTooDeep`).
-/

namespace FormulaCheck

/-- A diagnostic shows a token as a fault: it has its place and its text. -/
def Diagnostic.IsAt (d : Diagnostic) (t : Token) : Prop :=
  d.kind = .syntactic ∧ d.line = t.startLine ∧ d.column = t.startColumn ∧ d.symbol? = some t.text

def LineAnalysis.Shows (a : LineAnalysis) (t : Token) : Prop := ∃ d ∈ a.diagnostics, d.IsAt t

-- ---------------------------------------------------------------------------
-- Raw findings on tokens
-- ---------------------------------------------------------------------------

theorem isBlank_eq_false_of_trim (h : (Text.trim text).toList = c :: cs) : isBlank c = false := by
  rw [Text.trim, String.toList_ofList] at h
  obtain ⟨more, hmore⟩ := List.rdropWhile_prefix isBlank (text.toList.dropWhile isBlank)
  have hhead := List.head?_dropWhile_not isBlank text.toList
  rw [← hmore, List.rdropWhile, ← Text.trimEndChars, ← Text.trimChars, h] at hhead
  exact hhead

section

variable {cs cs₁ cs₂ before after l : List Char} {c : Char} {k k' : Token.Kind}

theorem isAt_inColumn_iff : (Diagnostic.inColumn (n + 1) kind complaint symbol).IsAt t ↔
    kind = .syntactic ∧ t.startLine = 1 ∧ t.startColumn = n + 1 ∧ symbol = t.text := by
  simp [Diagnostic.IsAt, Diagnostic.inColumn, Diagnostic.placed, eq_comm]

theorem startColumn_ofLexeme (hline : (Position.origin.advanceBy cs₁).line = 1) :
    (Token.ofLexeme k l (Position.origin.advanceBy cs₁)).startColumn = cs₁.length + 1 := by
  rw [Nat.add_comm]
  exact Position.column_advanceBy hline

theorem eq_of_isAt (hcs : cs₁ ++ (l ++ cs₂) = before ++ c :: after) (hlexeme : IsLexeme k l)
    (hsingle : Lexeme.single? c = some k')
    (hat : (Diagnostic.inColumn (before.length + 1) kind complaint symbol).IsAt
      (.ofLexeme k l (Position.origin.advanceBy cs₁))) :
    before = cs₁ ∧ l = [c] ∧ k = k' ∧ after = cs₂ := by
  obtain ⟨-, hline, hcolumn, -⟩ := isAt_inColumn_iff.mp hat
  rw [startColumn_ofLexeme hline, Nat.add_right_cancel_iff] at hcolumn
  obtain ⟨rfl, hrest⟩ := List.append_inj hcs hcolumn
  obtain ⟨c', l', rfl⟩ := List.exists_cons_of_ne_nil hlexeme.ne_nil
  cases hrest
  obtain ⟨hl, rfl⟩ := hlexeme.eq_singleton (List.mem_cons_self ..) hsingle
  cases hl
  exact ⟨rfl, rfl, rfl, rfl⟩

theorem exists_rawFinding_of_isOperator (hlexeme : IsLexeme k l) (hk : k.isOperator = true)
    (hline : (Position.origin.advanceBy cs₁).line = 1)
    (h : cs₁ = [] ∨ cs₂.head?.any Alphabet.isOperator = true) :
    ∃ d, RawFinding (cs₁ ++ (l ++ cs₂)) d ∧
      d.IsAt (.ofLexeme k l (Position.origin.advanceBy cs₁)) := by
  obtain ⟨op, rfl, hop⟩ := hlexeme.isOperator_eq_singleton hk
  rcases h with rfl | hnext
  · exact ⟨_, .first rfl nofun hop, isAt_inColumn_iff.mpr ⟨rfl, rfl, rfl, rfl⟩⟩
  · cases cs₂ with
    | nil => cases hnext
    | cons c rest =>
      exact ⟨_, .adjacent rfl hop hnext,
        isAt_inColumn_iff.mpr ⟨rfl, hline, startColumn_ofLexeme hline, rfl⟩⟩

/-- Of the tokens whose parentheses match, the raw checks show operators only. -/
theorem isOperator_of_rawFinding (hd : RawFinding (cs₁ ++ (l ++ cs₂)) d) (hlexeme : IsLexeme k l)
    (hat : d.IsAt (.ofLexeme k l (Position.origin.advanceBy cs₁)))
    (hfirst : ∀ c cs, cs₁ ++ (l ++ cs₂) = c :: cs → isBlank c = false)
    (hlast : ¬ ∀ c ∈ cs₂, isBlank c = true) (hclose : k = .closeParen → openAfter 0 cs₁ ≠ 0)
    (hopen : k = .openParen → ¬ StaysOpen 0 cs₂) :
    k.isOperator = true ∧ (Position.origin.advanceBy cs₁).line = 1 ∧
      (cs₁ = [] ∨ cs₂.head?.any Alphabet.isOperator = true) := by
  cases hd with
  | @first blanks c after hcs hblanks hop =>
    obtain ⟨k', hsingle, hk'⟩ := single?_of_isOperator hop
    obtain ⟨-, hline, -⟩ := isAt_inColumn_iff.mp hat
    obtain ⟨rfl, rfl, rfl, rfl⟩ := eq_of_isAt hcs hlexeme hsingle hat
    refine ⟨hk', hline, .inl ?_⟩
    cases blanks with
    | nil => rfl
    | cons b blanks =>
      have hb := hblanks b (List.mem_cons_self ..)
      rw [hfirst b _ rfl] at hb
      cases hb
  | last hcs hblanks hop =>
    obtain ⟨k', hsingle, hk'⟩ := single?_of_isOperator hop
    obtain ⟨rfl, rfl, rfl, rfl⟩ := eq_of_isAt hcs hlexeme hsingle hat
    exact absurd hblanks hlast
  | adjacent hcs hleft hright =>
    obtain ⟨k', hsingle, hk'⟩ := single?_of_isOperator hleft
    obtain ⟨-, hline, -⟩ := isAt_inColumn_iff.mp hat
    obtain ⟨rfl, rfl, rfl, rfl⟩ := eq_of_isAt hcs hlexeme hsingle hat
    exact ⟨hk', hline, .inr hright⟩
  | closing hcs hopened =>
    obtain ⟨rfl, rfl, rfl, rfl⟩ := eq_of_isAt hcs hlexeme rfl hat
    exact absurd hopened (hclose rfl)
  | opening hcs hstays =>
    obtain ⟨rfl, rfl, rfl, rfl⟩ := eq_of_isAt hcs hlexeme rfl hat
    exact absurd hstays (hopen rfl)
  | empty hcs =>
    obtain ⟨-, -, -, htext⟩ := isAt_inColumn_iff.mp hat
    obtain ⟨rfl, rfl, rfl, rfl⟩ := eq_of_isAt hcs hlexeme rfl hat
    simp [Token.ofLexeme, ← String.toList_inj] at htext
  | foreign =>
    obtain ⟨hkind, -⟩ := isAt_inColumn_iff.mp hat
    cases hkind

end

/-- For a token of a text without blanks at its ends, the raw checks show it exactly if it is an
operator that begins the text or has another one directly after it. Its parentheses must match. -/
theorem exists_rawFinding_iff (hcut : PlacedCut .origin cs (used ++ t :: more)) (hmore : more ≠ [])
    (hfirst : ∀ c rest, cs = c :: rest → isBlank c = false)
    (hdepth : depthAfter 0 (used.map Token.kind) = some depth)
    (hclose : t.kind = .closeParen → 0 < depth)
    (hopen : t.kind = .openParen → more.head?.map Token.kind = some .closeParen) :
    (∃ d, RawFinding cs d ∧ d.IsAt t) ↔ t.kind.isOperator = true ∧ t.startLine = 1 ∧
      (t.startColumn = 1 ∨ cs[t.startColumn]?.any Alphabet.isOperator = true) := by
  obtain ⟨cs₁, k, l, cs₂, rfl, hlexeme, rfl, hbefore, hafter⟩ := hcut.split
  have hlast : ¬ ∀ c ∈ cs₂, isBlank c = true := fun hblank =>
    hmore (List.map_eq_nil_iff.mp (hafter.cut.eq_nil_of_blank hblank))
  have hclose' : k = .closeParen → openAfter 0 cs₁ ≠ 0 := by
    intro hk
    rw [hbefore.cut.openAfter_eq hdepth]
    exact (hclose hk).ne'
  have hopen' : k = .openParen → ¬ StaysOpen 0 cs₂ := by
    intro hk hstays
    obtain ⟨closing, more, rfl⟩ := List.exists_cons_of_ne_nil hmore
    have hafter : PlacedCut _ cs₂ ([] ++ closing :: more) := hafter
    obtain ⟨blanks, k', l', cs₃, rfl, hlexeme', rfl, hblanks, -⟩ := hafter.split
    obtain rfl : k' = .closeParen := Option.some.inj (hopen hk)
    rw [hlexeme'.eq_closeParen] at hstays
    exact hstays blanks cs₃ rfl (hblanks.cut.openAfter_eq rfl)
  -- the column of the token is the index of the character after it
  have hwhere : k.isOperator = true → (Position.origin.advanceBy cs₁).line = 1 →
      ((Token.ofLexeme k l (Position.origin.advanceBy cs₁)).startColumn = 1 ↔ cs₁ = []) ∧
      (cs₁ ++ (l ++ cs₂))[(Token.ofLexeme k l (Position.origin.advanceBy cs₁)).startColumn]? =
        cs₂.head? := by
    intro hk hline
    obtain ⟨op, rfl, -⟩ := hlexeme.isOperator_eq_singleton hk
    rw [startColumn_ofLexeme hline, List.getElem?_append_right (Nat.le_succ _)]
    simp [List.head?_eq_getElem?]
  constructor
  · rintro ⟨d, hd, hat⟩
    obtain ⟨hk, hline, h⟩ := isOperator_of_rawFinding hd hlexeme hat hfirst hlast hclose' hopen'
    obtain ⟨hone, hnext⟩ := hwhere hk hline
    exact ⟨hk, hline, by rwa [hone, hnext]⟩
  · rintro ⟨hk, hline, h⟩
    obtain ⟨hone, hnext⟩ := hwhere hk hline
    exact exists_rawFinding_of_isOperator hlexeme hk hline (by rwa [hone, hnext] at h)

theorem diagnostics_of_nestingTooDeep (herrors : (scan (Text.trim line)).errors = [])
    (hdeep : parse defaultNestingLimit (scan (Text.trim line)).tokens = .error e) :
    (analyzeLine line number).diagnostics =
      rawCheck (Text.trim line) ++ [.ofNestingTooDeep e] := by
  simp [analyzeLine, Scan.hasErrors, herrors, parseDiagnostics, hdeep]

theorem shows_iff_rawFinding (herrors : (scan (Text.trim line)).errors = [])
    (hdeep : parse defaultNestingLimit (scan (Text.trim line)).tokens = .error e) :
    (analyzeLine line number).Shows t ↔
      ∃ d, RawFinding (Text.trim line).toList d ∧ d.IsAt t := by
  simp only [LineAnalysis.Shows, diagnostics_of_nestingTooDeep herrors hdeep, List.mem_append,
    List.mem_singleton, mem_rawCheck_iff]
  constructor
  · rintro ⟨d, hd | rfl, hat⟩
    · exact ⟨d, hd, hat⟩
    · cases hat.1
  · rintro ⟨d, hd, hat⟩
    exact ⟨d, .inl hd, hat⟩

-- ---------------------------------------------------------------------------
-- Lines with a fault in front of too many parentheses
-- ---------------------------------------------------------------------------

theorem Progress.afterAll_replicate (m n : Nat) :
    (operand m).afterAll (List.replicate n .openParen) = some (operand (m + n)) := by
  induction n generalizing m with
  | zero => rfl
  | succ n ih =>
    rw [List.replicate_succ, afterAll_cons, Nat.add_comm n, ← Nat.add_assoc]
    exact ih (m + 1)

open Parse in
/-- A token that is left out in front of too many parentheses is a fault of the whole parse. -/
theorem exists_left_out_of_replicate
    (h : tokens.map Token.kind = k :: (List.replicate limit .openParen ++ .openParen :: ks))
    (hk : isStray k = true) :
    ∃ t opening deep after, tokens = t :: opening ++ deep :: after ∧ t.kind = k ∧
      deep.kind = .openParen ∧ parse limit tokens = .error ⟨limit, deep.start⟩ ∧
      ∀ n p, parse n tokens = .ok p → .unexpected t ∈ p.faults := by
  obtain ⟨t, rest, rfl, rfl, hrest⟩ := List.map_eq_cons_iff.mp h
  obtain ⟨opening, more, rfl, hopening, hmore⟩ := List.map_eq_append_iff.mp hrest
  obtain ⟨deep, after, rfl, hdeep, -⟩ := List.map_eq_cons_iff.mp hmore
  let s : State := ⟨t :: (opening ++ deep :: after), [], false⟩
  have hs : s.rest = t :: (opening ++ deep :: after) := rfl
  have hplain : s.assignmentNext = false := by
    rw [← Bool.not_eq_true, State.assignmentNext_iff]
    rintro ⟨target, _, _, heq, ht, -⟩
    obtain ⟨rfl, -⟩ := List.cons.inj (hs.symm.trans heq)
    simp [ht, isStray, Token.Kind.isOperator] at hk
  have hstray : Step ⟨.operand 0, s, [], false⟩ ⟨.operand 0, s.report.skip, [], false⟩ := by
    cases opening with
    | nil => exact step_stray hs hk (by rw [hdeep]; rfl)
    | cons next opening =>
      have hnext : next.kind = .openParen := (List.eq_replicate_iff.mp hopening).2 _ (by simp)
      exact step_stray hs hk (by rw [hnext]; rfl)
  have hrest : s.report.skip.rest = opening ++ deep :: after := by simp [hs]
  have hrun : RunWithin limit ⟨.operand 0, s.report.skip, [], false⟩
      ⟨.operand limit, s.report.skip.takeAll opening, [] ++ opening, false⟩ := by
    have hall := Progress.afterAll_replicate 0 limit
    have hstays := Progress.staysWithin_count (.operand 0) (List.replicate limit .openParen)
    rw [Nat.zero_add, ← hopening] at hall
    rw [List.count_replicate_self, ← hopening, Progress.opened, Nat.zero_add] at hstays
    exact .along hall hrest hstays
  have hstart : Config.start s.rest = ⟨.operand 0, s, [], false⟩ := Config.start_plain hplain
  rw [← hstart] at hstray
  refine ⟨t, opening, deep, after, rfl, rfl, hdeep, ?_, fun n p hp => ?_⟩
  · exact parse_eq_error_of_runWithin (RunWithin.head hstray (Nat.zero_le limit) hrun)
      ⟨rfl, hdeep, after, State.rest_takeAll hrest⟩
  · refine mem_faults_of_run hp (Relation.ReflTransGen.single hstray) ?_
    rw [State.faults_skip, (clean_start _).faults_report_cons hs]
    exact List.mem_singleton_self _

theorem trim_eq_self (h : ∀ c ∈ text.toList, isBlank c = false) : Text.trim text = text := by
  have hstart : text.toList.dropWhile isBlank = text.toList :=
    List.dropWhile_eq_self_iff.mpr fun hl => by simp [h _ (List.getElem_mem hl)]
  have hend : Text.trimEndChars text.toList = text.toList :=
    Text.trimEndChars_eq_self fun c hc => h c (List.mem_of_getLast? hc)
  rw [Text.trim, Text.trimChars, hstart, hend, String.ofList_toList]

theorem Cut.replicate (hk : Lexeme.single? c = some k) (h : Cut cs ks) (n : Nat) :
    Cut (List.replicate n c ++ cs) (List.replicate n k ++ ks) := by
  induction n with
  | zero => exact h
  | succ n ih =>
    show Cut ([c] ++ (List.replicate n c ++ cs)) (k :: (List.replicate n k ++ ks))
    exact .lexeme (.of_single? hk) ih

/-- An equals sign in front of a number in some parentheses. -/
def strayNested (n : Nat) : String :=
  String.ofList ('=' :: (List.replicate n '(' ++ '1' :: List.replicate n ')'))

theorem trim_strayNested (n : Nat) : Text.trim (strayNested n) = strayNested n := by
  refine trim_eq_self ?_
  simp only [strayNested, String.toList_ofList, List.mem_cons, List.mem_append, List.mem_replicate]
  rintro c (rfl | ⟨-, rfl⟩ | rfl | ⟨-, rfl⟩) <;> rfl

theorem scan_strayNested (n : Nat) : (scan (Text.trim (strayNested n))).errors = [] ∧
    (scan (Text.trim (strayNested n))).tokens.map Token.kind =
      .equals :: (List.replicate n .openParen ++ .number :: List.replicate n .closeParen) := by
  have hclosing : Cut (List.replicate n ')') (List.replicate n .closeParen) := by
    simpa using Cut.replicate rfl .nil n
  have hnumber : IsLexeme .number ['1'] := .whole (by simp) (by simp)
  have hcut : Cut (strayNested n).toList
      (.equals :: (List.replicate n .openParen ++ .number :: List.replicate n .closeParen)) := by
    rw [strayNested, String.toList_ofList]
    exact .lexeme .equals (Cut.replicate rfl (.lexeme hnumber hclosing) n)
  rw [trim_strayNested]
  refine hcut.scan_eq (List.Pairwise.isChain ?_) _
  simp [List.pairwise_append, List.pairwise_replicate, Token.Kind.isSymbol]

theorem countOpening_strayNested (n : Nat) :
    Parse.countOpening (scan (Text.trim (strayNested n))).tokens = n := by
  rw [Parse.countOpening, (scan_strayNested n).2]
  simp [List.count_replicate]

/-- The equals sign of such a line is no operator, so it is not shown if the line is given up. -/
theorem not_shows_strayNested
    (hdeep : parse defaultNestingLimit (scan (Text.trim (strayNested n))).tokens = .error e)
    (htokens : (scan (Text.trim (strayNested n))).tokens = t :: more) :
    ¬ (analyzeLine (strayNested n) number).Shows t := by
  obtain ⟨herrors, hkinds⟩ := scan_strayNested n
  rw [htokens] at hkinds
  obtain ⟨ht, hmore⟩ := List.cons.inj hkinds
  have hcut : PlacedCut .origin (Text.trim (strayNested n)).toList ([] ++ t :: more) :=
    htokens ▸ Scan.placedCut herrors
  have hne : more ≠ [] := by
    rintro rfl
    simp at hmore
  rw [shows_iff_rawFinding herrors hdeep, exists_rawFinding_iff hcut hne
    (fun c rest h => isBlank_eq_false_of_trim h) rfl (by simp [ht]) (by simp [ht])]
  simp [ht, Token.Kind.isOperator]

theorem parse_strayNested (h : n = defaultNestingLimit + 1) : ∃ t before deep after,
    (scan (Text.trim (strayNested n))).tokens = t :: before ++ deep :: after ∧
    parse defaultNestingLimit (scan (Text.trim (strayNested n))).tokens =
      .error ⟨defaultNestingLimit, deep.start⟩ ∧
    ∀ limit p, parse limit (scan (Text.trim (strayNested n))).tokens = .ok p →
      .unexpected t ∈ p.faults := by
  have hkinds := (scan_strayNested n).2
  rw [h, List.replicate_succ', List.append_assoc] at hkinds
  rw [h]
  obtain ⟨t, before, deep, after, htokens, -, -, hdeep, hfaults⟩ :=
    exists_left_out_of_replicate hkinds rfl
  exact ⟨t, before, deep, after, htokens, hdeep, hfaults⟩

-- ---------------------------------------------------------------------------
-- Faults in lines that are given up
-- ---------------------------------------------------------------------------

/-- In a line that is given up, a fault of the whole parse in front of the parenthesis that is too
deep is shown exactly if it is an operator that begins the line or has another one directly after
it. -/
theorem shows_iff_of_nestingTooDeep (herrors : (scan (Text.trim line)).errors = [])
    (hdeep : parse defaultNestingLimit (scan (Text.trim line)).tokens = .error e)
    (hlimit : Parse.countOpening (scan (Text.trim line)).tokens ≤ limit) :
    ∃ before deep after p, (scan (Text.trim line)).tokens = before ++ deep :: after ∧
      deep.kind = .openParen ∧ e.place = deep.start ∧
      parse limit (scan (Text.trim line)).tokens = .ok p ∧
      ∀ t ∈ before, .unexpected t ∈ p.faults → ((analyzeLine line number).Shows t ↔
        t.kind.isOperator = true ∧ t.startLine = 1 ∧ (t.startColumn = 1 ∨
          (Text.trim line).toList[t.startColumn]?.any Alphabet.isOperator = true)) := by
  obtain ⟨cd, deep, hrun, hcd, rfl⟩ := exists_tooDeep_of_parse hdeep
  obtain ⟨p, hp⟩ := exists_parse hlimit
  obtain ⟨c, hrun', hdone, hfaults, -⟩ := exists_done_of_parse hp
  obtain ⟨-, hkind, after, hrest⟩ := id hcd
  obtain ⟨before, -, htokens, -⟩ := hrun.run.exists_used_start
  rw [hrest] at htokens
  refine ⟨before, deep, after, p, htokens, hkind, rfl, hp, fun t ht hf => ?_⟩
  have hcut : PlacedCut .origin (Text.trim line).toList (scan (Text.trim line)).tokens :=
    Scan.placedCut herrors
  have hnodup := hcut.nodup
  rw [htokens] at hnodup
  have hlater : t ∉ cd.state.rest := fun hmem =>
    (List.nodup_append.mp hnodup).2.2 t ht t (hrest ▸ hmem) rfl
  obtain ⟨used, more, depth, htokens', hmem, hdepth, hclose, hopen⟩ :=
    Parse.exists_used_of_reported hrun.run hcd hrun'.run hdone (by simpa [hfaults] using hf) hlater
  rw [shows_iff_rawFinding herrors hdeep]
  rw [htokens'] at hcut
  exact exists_rawFinding_iff hcut (List.ne_nil_of_mem hmem)
    (fun c rest h => isBlank_eq_false_of_trim h) hdepth hclose hopen

/-- A line that is given up at the last of 257 parentheses. -/
theorem shows_iff_of_nestingTooDeep_strayNested :
    ∃ before deep after p,
      (scan (Text.trim (strayNested 257))).tokens = before ++ deep :: after ∧
      deep.kind = .openParen ∧
      parse 1000 (scan (Text.trim (strayNested 257))).tokens = .ok p ∧
      ∀ t ∈ before, .unexpected t ∈ p.faults → ((analyzeLine (strayNested 257) 1).Shows t ↔
        t.kind.isOperator = true ∧ t.startLine = 1 ∧ (t.startColumn = 1 ∨
          (Text.trim (strayNested 257)).toList[t.startColumn]?.any Alphabet.isOperator = true)) := by
  obtain ⟨_, _, _, _, -, hdeep, -⟩ := parse_strayNested rfl
  have hlimit : Parse.countOpening (scan (Text.trim (strayNested 257))).tokens ≤ 1000 :=
    (countOpening_strayNested 257).trans_le (by decide)
  obtain ⟨before, deep, after, p, htokens, hkind, -, h⟩ :=
    shows_iff_of_nestingTooDeep (scan_strayNested 257).1 hdeep hlimit
  exact ⟨before, deep, after, p, htokens, hkind, h⟩

/-- In a line that is given up the equals sign in front of the parentheses is a fault of the whole
parse, but it is not shown. -/
theorem not_shows_of_nestingTooDeep : ∃ t before deep after p,
    (scan (Text.trim (strayNested 257))).errors = [] ∧
    (scan (Text.trim (strayNested 257))).tokens = t :: before ++ deep :: after ∧
    parse defaultNestingLimit (scan (Text.trim (strayNested 257))).tokens =
      .error ⟨defaultNestingLimit, deep.start⟩ ∧
    parse 1000 (scan (Text.trim (strayNested 257))).tokens = .ok p ∧
    .unexpected t ∈ p.faults ∧ ¬ (analyzeLine (strayNested 257) 1).Shows t := by
  obtain ⟨t, before, deep, after, htokens, hdeep, hfaults⟩ := parse_strayNested rfl
  have hlimit : Parse.countOpening (scan (Text.trim (strayNested 257))).tokens ≤ 1000 :=
    (countOpening_strayNested 257).trans_le (by decide)
  obtain ⟨p, hp⟩ := exists_parse hlimit
  exact ⟨t, before, deep, after, p, (scan_strayNested 257).1, htokens, hdeep, hp,
    hfaults 1000 p hp, not_shows_strayNested hdeep htokens⟩

end FormulaCheck
