import FormulaCheck.Proofs.Cut
import Mathlib.Data.List.Chain

/-!
# Scans and cuts

Whatever lexeme a scan finds is one (`Lexeme.longest?_sound`). The other way round, a cut with no two
numbers or names side by side is the one that the scan finds (`Cut.scan_eq`): taking the longest
lexeme then never takes too much.
-/

namespace FormulaCheck

namespace Lexeme

-- ---------------------------------------------------------------------------
-- The longest lexeme is a lexeme
-- ---------------------------------------------------------------------------

theorem isDigit_takeWhile (cs : List Char) : ∀ d ∈ cs.takeWhile Char.isDigit, d.isDigit = true :=
  List.all_eq_true.mp List.all_takeWhile

theorem number_sound (hc : Char.isDigit c = true) :
    IsLexeme (number c cs).kind (number c cs).chars ∧
      c :: cs = (number c cs).chars ++ (number c cs).rest := by
  have hwhole : ∀ d ∈ c :: cs.takeWhile Char.isDigit, d.isDigit = true := by
    simpa [hc] using isDigit_takeWhile cs
  have hcs : c :: cs = c :: cs.takeWhile Char.isDigit ++ cs.dropWhile Char.isDigit := by
    rw [List.cons_append, List.takeWhile_append_dropWhile]
  unfold number
  split
  · next d rest hrest =>
    rw [hrest] at hcs
    split
    · next hd =>
      have hfraction : ∀ e ∈ d :: rest.takeWhile Char.isDigit, e.isDigit = true := by
        simpa [hd] using isDigit_takeWhile rest
      refine ⟨.decimal (by simp) hwhole (by simp) hfraction, ?_⟩
      simpa using hcs
    · exact ⟨.whole (by simp) hwhole, hcs⟩
  · exact ⟨.whole (by simp) hwhole, hcs⟩

theorem longest?_sound (h : longest? c cs = some l) :
    IsLexeme l.kind l.chars ∧ c :: cs = l.chars ++ l.rest := by
  unfold longest? at h
  split at h
  · next hk =>
    cases h
    exact ⟨.of_single? hk, rfl⟩
  · split at h
    · next hc =>
      cases h
      exact number_sound hc
    · split at h
      · next hc =>
        cases h
        refine ⟨.name hc ?_, ?_⟩
        · exact List.all_eq_true.mp List.all_takeWhile
        · simp [name]
      · cases h

-- ---------------------------------------------------------------------------
-- A lexeme that cannot go on is the longest
-- ---------------------------------------------------------------------------

/-- No number and no name goes on with these characters. -/
def EndsSymbol (cs : List Char) : Prop := ∀ c rest, cs = c :: rest → ¬ InSymbol c

theorem EndsSymbol.isDigit (h : EndsSymbol cs) : ∀ c rest, cs = c :: rest → ¬ c.isDigit = true := by
  intro c rest hcs hc
  exact h c rest hcs (.of_isDigit hc)

theorem takeWhile_append (hl : ∀ c ∈ l, p c = true)
    (hcs : ∀ c rest, cs = c :: rest → ¬ p c = true) :
    (l ++ cs).takeWhile p = l ∧ (l ++ cs).dropWhile p = cs := by
  rw [List.takeWhile_append_of_pos hl, List.dropWhile_append_of_pos hl]
  cases cs with
  | nil => simp
  | cons c cs => simp [hcs c cs rfl]

theorem number_whole (hds : ∀ d ∈ ds, Char.isDigit d = true) (hcs : EndsSymbol cs) :
    number c (ds ++ cs) = ⟨.number, c :: ds, cs⟩ := by
  obtain ⟨htake, hdrop⟩ := takeWhile_append hds hcs.isDigit
  unfold number
  rw [htake, hdrop]
  split
  · exact absurd (.inr rfl) (hcs _ _ rfl)
  · rfl

theorem number_decimal (hds : ∀ d ∈ ds, Char.isDigit d = true) (he : Char.isDigit e = true)
    (hes : ∀ e ∈ es, Char.isDigit e = true) (hcs : EndsSymbol cs) :
    number c (ds ++ '.' :: e :: (es ++ cs)) = ⟨.number, c :: ds ++ '.' :: e :: es, cs⟩ := by
  have hpoint : ∀ c rest, '.' :: e :: (es ++ cs) = c :: rest → ¬ c.isDigit = true := by
    rintro _ _ ⟨⟩
    simp
  obtain ⟨htake, hdrop⟩ := takeWhile_append hds hpoint
  obtain ⟨htake', hdrop'⟩ := takeWhile_append hes hcs.isDigit
  simp [number, htake, hdrop, htake', hdrop', he]

theorem longest?_digit (hc : Char.isDigit c = true) : longest? c cs = some (number c cs) := by
  simp [longest?, (InSymbol.of_isDigit hc).single?_eq_none, hc]

theorem longest?_letter (hc : Char.isAlpha c = true) : longest? c cs = some (name c cs) := by
  have hdigit : c.isDigit = false := by
    rw [← Bool.not_eq_true, isDigit_iff]
    rw [isAlpha_iff] at hc
    omega
  simp [longest?, (InSymbol.of_isAlpha hc).single?_eq_none, hdigit, Alphabet.startsName, hc]

theorem longest?_complete (h : IsLexeme k (c :: l)) (hcs : k.isSymbol = true → EndsSymbol cs) :
    longest? c (l ++ cs) = some ⟨k, c :: l, cs⟩ := by
  generalize hl : c :: l = all at h
  cases h with
  | whole _ hds =>
    subst hl
    rw [longest?_digit (hds c (by simp)),
      number_whole (fun d hd => hds d (List.mem_cons_of_mem _ hd)) (hcs rfl)]
  | @decimal ds es hne hds hne' hes =>
    obtain ⟨d, ds, rfl⟩ := List.exists_cons_of_ne_nil hne
    obtain ⟨e, es, rfl⟩ := List.exists_cons_of_ne_nil hne'
    rw [List.cons_append] at hl
    cases hl
    rw [longest?_digit (hds c (by simp)), List.append_assoc, List.cons_append, List.cons_append,
      number_decimal (fun d hd => hds d (List.mem_cons_of_mem _ hd)) (hes e (by simp))
        (fun e he => hes e (List.mem_cons_of_mem _ he)) (hcs rfl)]
  | name hc hds =>
    cases hl
    have hends : ∀ c rest, cs = c :: rest → ¬ Alphabet.continuesName c = true :=
      fun c rest h hc => hcs rfl c rest h (.inl hc)
    obtain ⟨htake, hdrop⟩ := takeWhile_append (p := Alphabet.continuesName) hds hends
    rw [longest?_letter hc, name, htake, hdrop]
  | _ => cases hl; rfl

end Lexeme

-- ---------------------------------------------------------------------------
-- Cuts that scans find
-- ---------------------------------------------------------------------------

def SymbolsApart (ks : List Token.Kind) : Prop :=
  ks.IsChain fun k k' => k.isSymbol = true → k'.isSymbol = false

theorem Cut.endsSymbol (h : Cut cs ks) (hks : SymbolsApart (k :: ks)) (hk : k.isSymbol = true) :
    Lexeme.EndsSymbol cs := by
  rintro c rest rfl
  apply h.not_inSymbol
  cases ks with
  | nil => rfl
  | cons k' ks => simpa using (List.isChain_cons_cons.mp hks).1 hk

theorem Cut.scan_eq (h : Cut cs ks) (hks : SymbolsApart ks) (p : Position) :
    (Scan.ofChars p cs).errors = [] ∧ (Scan.ofChars p cs).tokens.map Token.kind = ks := by
  induction h generalizing p with
  | nil => simp [Scan.ofChars]
  | blank hblank _ ih =>
    rw [Scan.ofChars, if_pos hblank]
    exact ih hks _
  | @lexeme k l cs ks hlexeme hcut ih =>
    obtain ⟨c, l, rfl⟩ := List.exists_cons_of_ne_nil hlexeme.ne_nil
    -- what comes after a number or a name is no other one, so that it ends where the cut says
    have hblank : ¬ isBlank c = true := by simp [hlexeme.isBlank_eq_false]
    have hlongest := Lexeme.longest?_complete hlexeme (hcut.endsSymbol hks)
    rw [List.cons_append, Scan.ofChars, if_neg hblank]
    split
    · next l' hl' =>
      cases hlongest.symm.trans hl'
      obtain ⟨herrors, hkinds⟩ := ih hks.tail ⟨p.line, p.column + (c :: l).length⟩
      exact ⟨herrors, congrArg (k :: ·) hkinds⟩
    · next hnone => simp [hlongest] at hnone

end FormulaCheck
