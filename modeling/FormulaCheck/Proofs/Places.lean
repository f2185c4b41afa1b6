import FormulaCheck.Proofs.Scan

/-!
# Places of tokens

A scan without errors cuts the text into tokens, each with the place of its first character
(`Scan.placedCut`). Every token comes after the ones before it (`PlacedCut.pairwise_precedes`).
-/

namespace FormulaCheck

-- ---------------------------------------------------------------------------
-- Places
-- ---------------------------------------------------------------------------

namespace Position

def Precedes (p q : Position) : Prop := p.line < q.line ∨ p.line = q.line ∧ p.column < q.column

theorem Precedes.trans (h : Precedes p q) (h' : Precedes q r) : p.Precedes r := by
  unfold Precedes at *
  omega

theorem Precedes.ne (h : Precedes p q) : p ≠ q := by
  rintro rfl
  simp [Precedes] at h

theorem precedes_advance (p : Position) (c : Char) : p.Precedes (p.advance c) := by
  unfold advance
  split <;> simp [Precedes]

@[simp] theorem advanceBy_nil (p : Position) : p.advanceBy [] = p := rfl

@[simp] theorem advanceBy_cons (p : Position) (c : Char) (cs : List Char) :
    p.advanceBy (c :: cs) = (p.advance c).advanceBy cs := rfl

theorem advanceBy_append (p : Position) (cs ds : List Char) :
    p.advanceBy (cs ++ ds) = (p.advanceBy cs).advanceBy ds := List.foldl_append

theorem precedes_advanceBy (h : cs ≠ []) : Precedes p (p.advanceBy cs) := by
  induction cs generalizing p with
  | nil => exact absurd rfl h
  | cons c cs ih =>
    rw [advanceBy_cons]
    rcases eq_or_ne cs [] with rfl | hcs
    · exact p.precedes_advance c
    · exact (p.precedes_advance c).trans (ih hcs)

theorem line_advanceBy (p : Position) (cs : List Char) :
    (p.advanceBy cs).line = p.line + cs.count '\n' := by
  induction cs generalizing p with
  | nil => rfl
  | cons c cs ih =>
    rw [advanceBy_cons, ih, advance]
    split
    · next hc => simp [hc]; omega
    · next hc => simp [hc]

theorem advanceBy_of_not_mem (h : '\n' ∉ cs) :
    advanceBy p cs = ⟨p.line, p.column + cs.length⟩ := by
  induction cs generalizing p with
  | nil => rfl
  | cons c cs ih =>
    rw [List.mem_cons, not_or] at h
    rw [advanceBy_cons, ih h.2, advance, if_neg (Ne.symm h.1), List.length_cons, Nat.add_assoc,
      Nat.add_comm 1]

/-- On the line of a place a column counts the characters from there on. -/
theorem column_advanceBy (h : (advanceBy p cs).line = p.line) :
    (p.advanceBy cs).column = p.column + cs.length := by
  rw [line_advanceBy, Nat.add_eq_left, List.count_eq_zero] at h
  rw [advanceBy_of_not_mem h]

end Position

-- ---------------------------------------------------------------------------
-- Cuts with places
-- ---------------------------------------------------------------------------

theorem IsLexeme.advanceBy (h : IsLexeme k l) (p : Position) :
    p.advanceBy l = ⟨p.line, p.column + l.length⟩ := by
  refine Position.advanceBy_of_not_mem fun hmem => ?_
  cases h.isBlank_eq_false hmem

/-- The tokens into which a text is cut that begins at a place, with blanks around them. -/
inductive PlacedCut : Position → List Char → List Token → Prop
  | nil : PlacedCut p [] []
  | blank : isBlank c = true → PlacedCut (p.advance c) cs ts → PlacedCut p (c :: cs) ts
  | lexeme : IsLexeme k l → PlacedCut (p.advanceBy l) cs ts →
      PlacedCut p (l ++ cs) (.ofLexeme k l p :: ts)

theorem Scan.placedCut (h : (Scan.ofChars p cs).errors = []) :
    PlacedCut p cs (Scan.ofChars p cs).tokens := by
  fun_induction Scan.ofChars p cs with
  | case1 => exact .nil
  | case2 p c cs hblank ih => exact .blank hblank (ih h)
  | case3 p c cs hblank l hl after ih =>
    obtain ⟨hlexeme, hcs⟩ := Lexeme.longest?_sound hl
    rw [hcs]
    exact .lexeme hlexeme (hlexeme.advanceBy p ▸ ih h)
  | case4 => cases h

namespace PlacedCut

theorem cut (h : PlacedCut p cs ts) : Cut cs (ts.map Token.kind) := by
  induction h with
  | nil => exact .nil
  | blank hblank _ ih => exact .blank hblank ih
  | lexeme hlexeme _ ih => exact .lexeme hlexeme ih

theorem split (h : PlacedCut p cs (before ++ t :: after)) :
    ∃ cs₁ k l cs₂, cs = cs₁ ++ (l ++ cs₂) ∧ IsLexeme k l ∧
      t = .ofLexeme k l (p.advanceBy cs₁) ∧ PlacedCut p cs₁ before ∧
      PlacedCut (p.advanceBy (cs₁ ++ l)) cs₂ after := by
  generalize hall : before ++ t :: after = all at h
  induction h generalizing before with
  | nil => simp at hall
  | @blank c _ _ _ hblank _ ih =>
    obtain ⟨cs₁, k, l, cs₂, rfl, hl, rfl, hbefore, hafter⟩ := ih hall
    exact ⟨c :: cs₁, k, l, cs₂, rfl, hl, rfl, .blank hblank hbefore, hafter⟩
  | @lexeme k l cs p _ hlexeme hcut ih =>
    cases before with
    | nil =>
      cases hall
      exact ⟨[], k, l, cs, rfl, hlexeme, rfl, .nil, hcut⟩
    | cons b before =>
      cases hall
      obtain ⟨cs₁, k', l', cs₂, rfl, hl, rfl, hbefore, hafter⟩ := ih rfl
      rw [← Position.advanceBy_append] at hafter ⊢
      exact ⟨l ++ cs₁, k', l', cs₂, by simp, hl, rfl, .lexeme hlexeme hbefore, by simpa using hafter⟩

theorem exists_start_eq (h : PlacedCut p cs ts) (ht : t ∈ ts) :
    ∃ cs₁, t.start = p.advanceBy cs₁ := by
  obtain ⟨before, after, rfl⟩ := List.append_of_mem ht
  obtain ⟨cs₁, k, l, cs₂, -, -, rfl, -⟩ := h.split
  exact ⟨cs₁, rfl⟩

theorem pairwise_precedes (h : PlacedCut p cs ts) :
    ts.Pairwise fun t t' => t.start.Precedes t'.start := by
  induction h with
  | nil => exact .nil
  | blank _ _ ih => exact ih
  | lexeme hlexeme hcut ih =>
    refine .cons (fun t ht => ?_) ih
    obtain ⟨cs₁, hstart⟩ := hcut.exists_start_eq ht
    rw [hstart, ← Position.advanceBy_append]
    exact Position.precedes_advanceBy (by simp [hlexeme.ne_nil])

theorem nodup (h : PlacedCut p cs ts) : ts.Nodup :=
  h.pairwise_precedes.imp fun hprecedes heq => hprecedes.ne (congrArg Token.start heq)

end PlacedCut

theorem Scan.cut (h : (Scan.ofChars p cs).errors = []) :
    Cut cs ((Scan.ofChars p cs).tokens.map Token.kind) :=
  (Scan.placedCut h).cut

end FormulaCheck
