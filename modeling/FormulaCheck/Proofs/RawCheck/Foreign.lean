import FormulaCheck.Proofs.Analysis
import FormulaCheck.Proofs.Scan.Longest

/-!
# Foreign characters

The raw checks look at each character by itself, and a scan takes characters together where a number
or a name goes on. Still both find the same characters that are foreign to formulas: no lexeme holds
one, so that a scan comes to every one of them and makes it an error. Of the characters that are not
foreign only a point can be an error, since every other one is a blank or begins a lexeme
(`forall₂_isForError_rawCheck`).
-/

namespace FormulaCheck

variable {line : String} {cs : List Char} {c : Char} {p : Position} {s : Scan}

-- ---------------------------------------------------------------------------
-- Errors of a scan
-- ---------------------------------------------------------------------------

/-- A character that formulas may hold is a blank or a point or a lexeme by itself. -/
theorem NoLexeme.eq_point (h : NoLexeme (c :: cs)) (hblank : isBlank c = false)
    (hc : Alphabet.isAllowed c = true) : c = '.' := by
  have hnone : ∀ k, ¬ IsLexeme k [c] := fun k hk => h k [c] hk ⟨cs, rfl⟩
  have hdigit : c.isDigit = false := by
    by_contra hdigit
    exact hnone .number (.whole (List.cons_ne_nil c []) (by simpa using hdigit))
  have halpha : c.isAlpha = false := by
    by_contra halpha
    exact hnone .name (.name (Bool.not_eq_false _ ▸ halpha) (List.forall_mem_nil _))
  have hoperator : Alphabet.isOperator c = false := by
    by_contra hop
    obtain ⟨k, hk, -⟩ := single?_of_isOperator (Bool.not_eq_false _ ▸ hop)
    exact hnone k (.of_single? hk)
  have hchar : c = '=' ∨ c = '(' ∨ c = ')' ∨ c = '.' := by
    simpa [Alphabet.isAllowed, Char.isAlphanum, halpha, hdigit, hblank, hoperator] using hc
  rcases hchar with rfl | rfl | rfl | rfl
  · exact absurd .equals (hnone .equals)
  · exact absurd .openParen (hnone .openParen)
  · exact absurd .closeParen (hnone .closeParen)
  · rfl

theorem Scan.eq_point_of_mem_errors (h : ScansTo p cs s) (he : e ∈ s.errors)
    (hallowed : e.isForeign = false) : e.char = '.' := by
  obtain ⟨before, after, -, hblank, hnone, -⟩ := exists_reaches_of_mem_errors h he
  exact hnone.eq_point hblank (by simpa [ScanError.isForeign] using hallowed)

theorem ScansTo.filter_marks_foreign (h : ScansTo p cs s) :
    (p.marks cs).filter (fun m => !Alphabet.isAllowed m.2) =
      (s.errors.filter ScanError.isForeign).map fun e => (e.place, e.char) := by
  induction h with
  | nil => rfl
  | @blank c _ _ _ hblank _ ih =>
    have hc : Alphabet.isAllowed c = true := by simp [Alphabet.isAllowed, hblank]
    rw [Position.marks, List.filter_cons_of_neg (by simp [hc]), ih]
  | @lexeme k l cs _ p hl _ ih =>
    have hnone : (p.marks l).filter (fun m => !Alphabet.isAllowed m.2) = [] := by
      rw [List.filter_eq_nil_iff]
      rintro ⟨q, d⟩ hmem
      simp [hl.isLexeme.isAllowed (Position.snd_mem_of_mem_marks hmem)]
    rw [Position.marks_append, List.filter_append, hnone, List.nil_append, ih]
  | @error c _ _ _ _ _ _ ih =>
    cases hc : Alphabet.isAllowed c <;> simp [Position.marks, ScanError.isForeign, hc, ih]

-- ---------------------------------------------------------------------------
-- Findings
-- ---------------------------------------------------------------------------

theorem Columns.foreignChars_eq (h : '\n' ∉ cs) :
    (ofChars cs).foreignChars =
      ((Scan.ofChars .origin cs).errors.filter ScanError.isForeign).map fun e =>
        .inColumn e.place.column .lexical (.foreignChar e.char) e.char.toString := by
  have hforeign := (scansTo_ofChars .origin cs).filter_marks_foreign
  rw [Position.marks_of_not_mem h, List.filter_map] at hforeign
  have hfindings := congrArg (List.map fun m : Position × Char =>
    Diagnostic.inColumn m.1.column .lexical (.foreignChar m.2) m.2.toString) hforeign
  rw [List.map_map, List.map_map] at hfindings
  exact hfindings

theorem filter_lexical_rawCheck (line : String) :
    (rawCheck line).filter (·.kind = .lexical) = (Columns.ofChars line.toList).foreignChars := by
  let cs := Columns.ofChars line.toList
  have hothers : ∀ d ∈ cs.edgeOperators ++ cs.adjacentOperators ++ cs.unmatchedParentheses ++
      cs.emptyParentheses, d.kind = .syntactic := by
    intro d hd
    simp only [cs, List.mem_append, Columns.mem_edgeOperators_iff,
      Columns.mem_adjacentOperators_iff, Columns.mem_unmatchedParentheses_iff,
      Columns.mem_emptyParentheses_iff, or_assoc] at hd
    rcases hd with ⟨_, _, _, -, -, -, rfl⟩ | ⟨_, _, _, -, -, -, rfl⟩ | ⟨_, _, _, _, -, -, -, rfl⟩ |
      ⟨_, _, -, -, rfl⟩ | ⟨_, _, -, -, rfl⟩ | ⟨_, _, _, -, -, rfl⟩ <;> rfl
  have hforeign : ∀ d ∈ cs.foreignChars, d.kind = .lexical := by
    intro d hd
    obtain ⟨_, _, _, -, -, rfl⟩ := Columns.mem_foreignChars_iff.mp hd
    rfl
  calc (rawCheck line).filter (·.kind = .lexical)
      = (cs.edgeOperators ++ cs.adjacentOperators ++ cs.unmatchedParentheses ++
          cs.emptyParentheses).filter (·.kind = .lexical) ++
          cs.foreignChars.filter (·.kind = .lexical) := List.filter_append ..
    _ = [] ++ cs.foreignChars := by
      rw [List.filter_eq_nil_iff.mpr fun d hd => by simp [hothers d hd],
        List.filter_eq_self.mpr fun d hd => by simp [hforeign d hd]]

theorem isForError_foreignChar (hline : '\n' ∉ cs) (h : e ∈ (Scan.ofChars .origin cs).errors) :
    (Diagnostic.inColumn e.place.column .lexical (.foreignChar e.char) e.char.toString).IsForError
      e := by
  obtain ⟨before, after, rfl, hplace⟩ := Position.mem_marks_iff.mp (Scan.mem_marks_of_mem_errors h)
  rw [Position.advanceBy_of_not_mem (fun hmem => hline (List.mem_append_left _ hmem))] at hplace
  refine ⟨rfl, by rw [hplace]; rfl, Nat.max_eq_left ?_, rfl⟩
  rw [hplace]
  exact Nat.le_add_right 1 before.length

/-- What the raw checks find lexical on a line are the foreign characters among the errors of its
scan, one by one. Every other error of the scan is a point. -/
theorem forall₂_isForError_rawCheck (hline : '\n' ∉ line.toList) :
    List.Forall₂ Diagnostic.IsForError ((rawCheck line).filter (·.kind = .lexical))
      ((scan line).errors.filter ScanError.isForeign) ∧
    ∀ e ∈ (scan line).errors, e.isForeign = false → e.char = '.' := by
  refine ⟨?_, fun e => Scan.eq_point_of_mem_errors (scansTo_ofChars ..)⟩
  rw [filter_lexical_rawCheck, Columns.foreignChars_eq hline, List.forall₂_map_left_iff]
  exact List.forall₂_same.mpr fun e he => isForError_foreignChar hline (List.mem_of_mem_filter he)

/-- Points inside a number, after one and alone, with foreign characters between. -/
theorem forall₂_isForError_rawCheck_points :
    let line := "1.5 # 2. é3 . x_y"
    '\n' ∉ line.toList ∧
      List.Forall₂ Diagnostic.IsForError ((rawCheck line).filter (·.kind = .lexical))
        ((scan line).errors.filter ScanError.isForeign) ∧
      (scan line).errors.map (fun e => (e.char, e.place.column)) =
        [('#', 5), ('.', 8), ('é', 10), ('.', 13), ('_', 16)] ∧
      ((rawCheck line).filter (·.kind = .lexical)).map Diagnostic.column = [5, 10, 16] := by
  intro line
  have hline : '\n' ∉ line.toList := by decide
  exact ⟨hline, (forall₂_isForError_rawCheck hline).1, by decide +kernel, by decide +kernel⟩

end FormulaCheck
