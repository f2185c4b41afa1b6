import FormulaCheck.Token.Scan

/-!
# Cuts into lexemes

Which characters make a lexeme of which kind, and into which kinds a text can be cut at all, by a
cut that takes the longest lexemes or by any other. A text can be cut in several ways (`12` is one
number or two), but a character that is a lexeme by itself is one in every cut (`Cut.split`).
-/

namespace FormulaCheck

inductive IsLexeme : Token.Kind → List Char → Prop
  | plus : IsLexeme .plus ['+']
  | minus : IsLexeme .minus ['-']
  | times : IsLexeme .times ['*']
  | divide : IsLexeme .divide ['/']
  | equals : IsLexeme .equals ['=']
  | openParen : IsLexeme .openParen ['(']
  | closeParen : IsLexeme .closeParen [')']
  | whole : ds ≠ [] → (∀ d ∈ ds, d.isDigit = true) → IsLexeme .number ds
  | decimal : ds ≠ [] → (∀ d ∈ ds, d.isDigit = true) → es ≠ [] → (∀ e ∈ es, e.isDigit = true) →
      IsLexeme .number (ds ++ '.' :: es)
  | name : c.isAlpha = true → (∀ d ∈ ds, d.isAlphanum = true) → IsLexeme .name (c :: ds)

/-- The kinds of the lexemes into which a text can be cut, with blanks around them. -/
inductive Cut : List Char → List Token.Kind → Prop
  | nil : Cut [] []
  | blank : isBlank c = true → Cut cs ks → Cut (c :: cs) ks
  | lexeme : IsLexeme k l → Cut cs ks → Cut (l ++ cs) (k :: ks)

-- ---------------------------------------------------------------------------
-- Characters
-- ---------------------------------------------------------------------------

theorem isDigit_iff {c : Char} : c.isDigit = true ↔ 48 ≤ c.toNat ∧ c.toNat ≤ 57 := by
  change (decide (48 ≤ c.val) && decide (c.val ≤ 57)) = true ↔ _
  simp [UInt32.le_iff_toNat_le]

theorem isAlpha_iff {c : Char} : c.isAlpha = true ↔
    (65 ≤ c.toNat ∧ c.toNat ≤ 90) ∨ (97 ≤ c.toNat ∧ c.toNat ≤ 122) := by
  change (decide (65 ≤ c.val ∧ c.val ≤ 90) || (decide (97 ≤ c.val) && decide (c.val ≤ 122))) =
    true ↔ _
  simp [UInt32.le_iff_toNat_le]

theorem isAlphanum_iff {c : Char} : c.isAlphanum = true ↔ c.isAlpha = true ∨ c.isDigit = true :=
  Bool.or_eq_true_iff

def InSymbol (c : Char) : Prop := c.isAlphanum = true ∨ c = '.'

theorem InSymbol.of_isDigit (h : Char.isDigit c = true) : InSymbol c :=
  .inl (isAlphanum_iff.mpr (.inr h))

theorem InSymbol.of_isAlpha (h : Char.isAlpha c = true) : InSymbol c :=
  .inl (isAlphanum_iff.mpr (.inl h))

theorem IsLexeme.of_single? (h : Lexeme.single? c = some k) : IsLexeme k [c] := by
  unfold Lexeme.single? at h
  split at h <;> cases h <;> constructor

theorem IsLexeme.inSymbol (h : IsLexeme k l) (hk : k.isSymbol = true) :
    ∀ c ∈ l, InSymbol c := by
  cases h with
  | whole _ hds => exact fun c hc => .of_isDigit (hds c hc)
  | decimal _ hds _ hes =>
    intro c hc
    rcases List.mem_append.mp hc with hc | hc
    · exact .of_isDigit (hds c hc)
    · rcases List.mem_cons.mp hc with rfl | hc
      · exact .inr rfl
      · exact .of_isDigit (hes c hc)
  | name hc hds =>
    intro c' hc'
    rcases List.mem_cons.mp hc' with rfl | hc'
    · exact .of_isAlpha hc
    · exact .inl (hds c' hc')
  | _ => cases hk

theorem IsLexeme.single?_of_not_isSymbol (h : IsLexeme k l) (hk : k.isSymbol = false) :
    ∃ c, l = [c] ∧ Lexeme.single? c = some k := by
  cases h with
  | whole | decimal | name => cases hk
  | _ => exact ⟨_, rfl, rfl⟩

theorem IsLexeme.ne_nil (h : IsLexeme k l) : l ≠ [] := by
  cases h <;> simp_all

theorem IsLexeme.eq_openParen (h : IsLexeme .openParen l) : l = ['('] := by
  cases h
  rfl

theorem IsLexeme.eq_closeParen (h : IsLexeme .closeParen l) : l = [')'] := by
  cases h
  rfl

theorem InSymbol.single?_eq_none (hc : InSymbol c) : Lexeme.single? c = none := by
  unfold Lexeme.single?
  split <;> simp_all [InSymbol]

theorem InSymbol.isBlank_eq_false (hc : InSymbol c) : isBlank c = false := by
  rcases hc with hc | rfl
  · rw [isAlphanum_iff, isAlpha_iff, isDigit_iff] at hc
    simp [isBlank, blankRanges]
    omega
  · rfl

theorem isBlank_eq_false_of_single? (h : Lexeme.single? c = some k) : isBlank c = false := by
  unfold Lexeme.single? at h
  split at h <;> simp_all [isBlank, blankRanges]

theorem IsLexeme.isBlank_eq_false (h : IsLexeme k l) (hc : c ∈ l) : isBlank c = false := by
  cases hk : k.isSymbol with
  | true => exact (h.inSymbol hk c hc).isBlank_eq_false
  | false =>
    obtain ⟨c', rfl, hc'⟩ := h.single?_of_not_isSymbol hk
    obtain rfl := List.mem_singleton.mp hc
    exact isBlank_eq_false_of_single? hc'

theorem IsLexeme.isAllowed (h : IsLexeme k l) (hc : c ∈ l) : Alphabet.isAllowed c = true := by
  cases hk : k.isSymbol with
  | true => rcases h.inSymbol hk c hc with hc | rfl <;> simp [Alphabet.isAllowed, *]
  | false =>
    obtain ⟨c', rfl, hc'⟩ := h.single?_of_not_isSymbol hk
    obtain rfl := List.mem_singleton.mp hc
    unfold Lexeme.single? at hc'
    split at hc' <;> simp_all [Alphabet.isAllowed, Alphabet.isOperator]

theorem IsLexeme.eq_singleton (h : IsLexeme k' l) (hc : c ∈ l)
    (hsingle : Lexeme.single? c = some k) : l = [c] ∧ k' = k := by
  cases hk : k'.isSymbol with
  | true => simp [(h.inSymbol hk c hc).single?_eq_none] at hsingle
  | false =>
    obtain ⟨c', rfl, hc'⟩ := h.single?_of_not_isSymbol hk
    obtain rfl := List.mem_singleton.mp hc
    exact ⟨rfl, Option.some.inj (hc'.symm.trans hsingle)⟩

-- ---------------------------------------------------------------------------
-- Parts of a cut
-- ---------------------------------------------------------------------------

/-- What begins without a character goes on until the character. -/
theorem exists_append_of_not_mem {c : α} (h : before ++ c :: after = l ++ cs) (hc : c ∉ l) :
    ∃ more, before = l ++ more ∧ cs = more ++ c :: after := by
  rcases List.append_eq_append_iff.mp h with ⟨more, rfl, hmore⟩ | ⟨more, rfl, rfl⟩
  · cases more with
    | nil => exact ⟨[], by simp, hmore.symm⟩
    | cons m more =>
      cases hmore
      simp at hc
  · exact ⟨more, rfl, rfl⟩

namespace Cut

theorem split (h : Cut (before ++ c :: after) ks) (hc : Lexeme.single? c = some k) :
    ∃ front back, ks = front ++ k :: back ∧ Cut before front ∧ Cut after back := by
  generalize hall : before ++ c :: after = all at h
  induction h generalizing before with
  | nil => simp at hall
  | blank hblank hcut ih =>
    cases before with
    | nil =>
      cases hall
      simp [isBlank_eq_false_of_single? hc] at hblank
    | cons b before =>
      cases hall
      obtain ⟨front, back, rfl, hfront, hback⟩ := ih rfl
      exact ⟨front, back, rfl, .blank hblank hfront, hback⟩
  | @lexeme _ l _ _ hlexeme hcut ih =>
    -- the lexeme is the character, or it ends before the character
    by_cases hmem : c ∈ l
    · obtain ⟨rfl, rfl⟩ := hlexeme.eq_singleton hmem hc
      cases before with
      | nil =>
        cases hall
        exact ⟨[], _, rfl, .nil, hcut⟩
      | cons b before =>
        cases hall
        obtain ⟨front, back, rfl, hfront, hback⟩ := ih rfl
        exact ⟨_ :: front, back, rfl, .lexeme hlexeme hfront, hback⟩
    · obtain ⟨more, rfl, rfl⟩ := exists_append_of_not_mem hall hmem
      obtain ⟨front, back, rfl, hfront, hback⟩ := ih rfl
      exact ⟨_ :: front, back, rfl, .lexeme hlexeme hfront, hback⟩

theorem eq_nil_of_blank (h : Cut cs ks) (hcs : ∀ c ∈ cs, isBlank c = true) : ks = [] := by
  induction h with
  | nil => rfl
  | blank _ _ ih => exact ih fun c hc => hcs c (List.mem_cons_of_mem _ hc)
  | lexeme hlexeme _ _ =>
    obtain ⟨c, l, rfl⟩ := List.exists_cons_of_ne_nil hlexeme.ne_nil
    simp [hlexeme.isBlank_eq_false] at hcs

theorem isAllowed (h : Cut cs ks) (hc : c ∈ cs) : Alphabet.isAllowed c = true := by
  induction h with
  | nil => cases hc
  | blank hblank _ ih =>
    rcases List.mem_cons.mp hc with rfl | hc
    · simp [Alphabet.isAllowed, hblank]
    · exact ih hc
  | lexeme hlexeme _ ih =>
    rcases List.mem_append.mp hc with hc | hc
    · exact hlexeme.isAllowed hc
    · exact ih hc

theorem not_inSymbol (h : Cut (c :: cs) ks) (hks : ks.head?.any Token.Kind.isSymbol = false) :
    ¬ InSymbol c := by
  intro hc
  generalize hall : c :: cs = all at h
  cases h with
  | nil => cases hall
  | blank hblank =>
    cases hall
    simp [hc.isBlank_eq_false] at hblank
  | lexeme hlexeme =>
    obtain ⟨c', rfl, hc'⟩ := hlexeme.single?_of_not_isSymbol (by simpa using hks)
    cases hall
    simp [hc.single?_eq_none] at hc'

end Cut

end FormulaCheck
