import FormulaCheck.Proofs.Cut
import FormulaCheck.Proofs.Grammar.Neighbours
import FormulaCheck.RawCheck

/-!
# What the raw checks find

`RawFinding` says for each finding of the checks on raw characters where in the text its cause is;
`mem_rawCheck_iff` says that the checks find these and no others.
-/

namespace FormulaCheck

-- ---------------------------------------------------------------------------
-- Open parentheses
-- ---------------------------------------------------------------------------

/-- How many parentheses are open after a character. One that closes nothing is passed over. -/
def openNext (n : Nat) (c : Char) : Nat :=
  if c = '(' then n + 1 else if c = ')' then n - 1 else n

def openAfter (n : Nat) (cs : List Char) : Nat := cs.foldl openNext n

@[simp] theorem openAfter_nil (n : Nat) : openAfter n [] = n := rfl

@[simp] theorem openAfter_cons (n : Nat) (c : Char) (cs : List Char) :
    openAfter n (c :: cs) = openAfter (openNext n c) cs := rfl

theorem openAfter_append (n : Nat) (cs ds : List Char) :
    openAfter n (cs ++ ds) = openAfter (openAfter n cs) ds := List.foldl_append

theorem openNext_of_ne (hopen : c ≠ '(') (hclose : c ≠ ')') : openNext n c = n := by
  simp [openNext, hopen, hclose]

theorem openAfter_of_not_mem (hopen : '(' ∉ cs) (hclose : ')' ∉ cs) : openAfter n cs = n := by
  induction cs with
  | nil => rfl
  | cons c cs ih =>
    rw [List.mem_cons, not_or] at hopen hclose
    rw [openAfter_cons, openNext_of_ne (Ne.symm hopen.1) (Ne.symm hclose.1)]
    exact ih hopen.2 hclose.2

theorem Cut.openAfter_eq (h : Cut cs ks) (hdepth : depthAfter n ks = some depth) :
    openAfter n cs = depth := by
  induction h generalizing n with
  | nil => exact Option.some.inj hdepth
  | blank hblank _ ih =>
    rw [openAfter_cons, openNext_of_ne]
    · exact ih hdepth
    · rintro rfl; cases hblank
    · rintro rfl; cases hblank
  | @lexeme k l cs ks hlexeme _ ih =>
    obtain ⟨next, hnext, hdepth⟩ := Option.bind_eq_some_iff.mp hdepth
    rw [openAfter_append]
    by_cases hopen : k = .openParen
    · subst hopen
      cases hnext
      rw [hlexeme.eq_openParen]
      exact ih hdepth
    by_cases hclose : k = .closeParen
    · subst hclose
      cases n with
      | zero => cases hnext
      | succ n =>
        cases hnext
        rw [hlexeme.eq_closeParen]
        exact ih hdepth
    · rw [depthNext_of_ne hopen hclose] at hnext
      cases hnext
      have hl : openAfter n l = n := openAfter_of_not_mem
        (fun hmem => hopen (hlexeme.eq_singleton hmem rfl).2)
        (fun hmem => hclose (hlexeme.eq_singleton hmem rfl).2)
      rw [hl]
      exact ih hdepth

/-- Some parentheses stay open: whatever closes in the text, more are open there. -/
def StaysOpen (n : Nat) (cs : List Char) : Prop :=
  ∀ before after, cs = before ++ ')' :: after → openAfter n before ≠ 0

theorem staysOpen_nil (n : Nat) : StaysOpen n [] := by
  intro before after h
  simp at h

theorem staysOpen_cons (h : c ≠ ')') : StaysOpen n (c :: cs) ↔ StaysOpen (openNext n c) cs := by
  constructor
  · rintro hstays before after rfl
    exact hstays (c :: before) after rfl
  · rintro hstays before after heq
    cases before with
    | nil =>
      cases heq
      exact absurd rfl h
    | cons b before =>
      cases heq
      exact hstays before after rfl

theorem staysOpen_closing : StaysOpen n (')' :: cs) ↔ 0 < n ∧ StaysOpen (n - 1) cs := by
  constructor
  · intro hstays
    refine ⟨Nat.pos_of_ne_zero (hstays [] cs rfl), ?_⟩
    rintro before after rfl
    exact hstays (')' :: before) after rfl
  · rintro ⟨hn, hstays⟩ before after heq
    cases before with
    | nil => exact hn.ne'
    | cons b before =>
      cases heq
      exact hstays before after rfl

theorem staysOpen_append_of_not_mem {l : List Char} (hopen : '(' ∉ l) (hclose : ')' ∉ l) :
    StaysOpen n (l ++ cs) ↔ StaysOpen n cs := by
  induction l with
  | nil => rfl
  | cons c l ih =>
    rw [List.mem_cons, not_or] at hopen hclose
    rw [List.cons_append, staysOpen_cons (Ne.symm hclose.1),
      openNext_of_ne (Ne.symm hopen.1) (Ne.symm hclose.1)]
    exact ih hopen.2 hclose.2

theorem Cut.le_of_staysOpen (h : Cut cs ks) (hstays : StaysOpen n cs)
    (hdepth : depthAfter (m + n) ks = some depth) : m ≤ depth := by
  induction h generalizing n with
  | nil =>
    cases hdepth
    exact Nat.le_add_right m n
  | blank hblank _ ih =>
    rw [staysOpen_cons, openNext_of_ne] at hstays
    · exact ih hstays hdepth
    all_goals rintro rfl; cases hblank
  | @lexeme k l cs ks hlexeme _ ih =>
    obtain ⟨next, hnext, hdepth⟩ := Option.bind_eq_some_iff.mp hdepth
    by_cases hopen : k = .openParen
    · subst hopen
      cases hnext
      rw [hlexeme.eq_openParen] at hstays
      exact ih ((staysOpen_cons (by decide)).mp hstays) hdepth
    by_cases hclose : k = .closeParen
    · subst hclose
      rw [hlexeme.eq_closeParen] at hstays
      obtain ⟨hn, hstays⟩ := staysOpen_closing.mp hstays
      obtain ⟨n, rfl⟩ := Nat.exists_eq_succ_of_ne_zero hn.ne'
      cases hnext
      exact ih hstays hdepth
    · rw [depthNext_of_ne hopen hclose] at hnext
      cases hnext
      exact ih ((staysOpen_append_of_not_mem
        (fun hmem => hopen (hlexeme.eq_singleton hmem rfl).2)
        (fun hmem => hclose (hlexeme.eq_singleton hmem rfl).2)).mp hstays) hdepth

-- ---------------------------------------------------------------------------
-- The findings
-- ---------------------------------------------------------------------------

inductive RawFinding (cs : List Char) : Diagnostic → Prop
  | first : cs = blanks ++ c :: after → (∀ b ∈ blanks, isBlank b = true) →
      Alphabet.isOperator c = true →
      RawFinding cs (.inColumn (blanks.length + 1) .syntactic (.startsWithOperator c.toString)
        c.toString)
  | last : cs = before ++ c :: blanks → (∀ b ∈ blanks, isBlank b = true) →
      Alphabet.isOperator c = true →
      RawFinding cs (.inColumn (before.length + 1) .syntactic (.endsWithOperator c.toString)
        c.toString)
  | adjacent : cs = before ++ left :: right :: after → Alphabet.isOperator left = true →
      Alphabet.isOperator right = true →
      RawFinding cs (.inColumn (before.length + 1) .syntactic
        (.consecutiveOperators left right.toString) left.toString)
  | closing : cs = before ++ ')' :: after → openAfter 0 before = 0 →
      RawFinding cs (.inColumn (before.length + 1) .syntactic .unmatchedClosing ")")
  | opening : cs = before ++ '(' :: after → StaysOpen 0 after →
      RawFinding cs (.inColumn (before.length + 1) .syntactic .unmatchedOpening "(")
  | empty : cs = before ++ '(' :: (blanks ++ ')' :: after) → (∀ b ∈ blanks, isBlank b = true) →
      RawFinding cs (.inColumn (before.length + 1) .syntactic .emptyParentheses "()")
  | foreign : cs = before ++ c :: after → Alphabet.isAllowed c = false →
      RawFinding cs (.inColumn (before.length + 1) .lexical (.foreignChar c) c.toString)

theorem single?_of_isOperator (h : Alphabet.isOperator c = true) :
    ∃ k, Lexeme.single? c = some k ∧ k.isOperator = true := by
  simp only [Alphabet.isOperator, List.mem_cons, List.not_mem_nil, or_false,
    decide_eq_true_eq] at h
  rcases h with rfl | rfl | rfl | rfl <;> exact ⟨_, rfl, rfl⟩

theorem isBlank_eq_false_of_isOperator (h : Alphabet.isOperator c = true) : isBlank c = false := by
  obtain ⟨k, hk, -⟩ := single?_of_isOperator h
  exact isBlank_eq_false_of_single? hk

theorem isOperator_of_single? (hc : Lexeme.single? c = some k) (hk : k.isOperator = true) :
    Alphabet.isOperator c = true := by
  unfold Lexeme.single? at hc
  split at hc <;> cases hc <;> first | rfl | cases hk

theorem IsLexeme.isOperator_eq_singleton (h : IsLexeme k l) (hk : k.isOperator = true) :
    ∃ op, l = [op] ∧ Alphabet.isOperator op = true := by
  have hsymbol : k.isSymbol = false := by
    cases k <;> simp_all [Token.Kind.isOperator, Token.Kind.isSymbol]
  obtain ⟨op, rfl, hop⟩ := h.single?_of_not_isSymbol hsymbol
  exact ⟨op, rfl, isOperator_of_single? hop hk⟩

theorem IsLexeme.isOperator_eq (h : IsLexeme k l) (hc : c ∈ l) :
    Alphabet.isOperator c = k.isOperator := by
  refine Bool.eq_iff_iff.mpr ⟨fun hop => ?_, fun hk => ?_⟩
  · obtain ⟨k', hk', hop'⟩ := single?_of_isOperator hop
    rwa [(h.eq_singleton hc hk').2]
  · obtain ⟨op, rfl, hop⟩ := h.isOperator_eq_singleton hk
    rwa [List.mem_singleton.mp hc]

namespace Columns

theorem ofChars_append_cons (before : List Char) (c : Char) (after : List Char) :
    ofChars (before ++ c :: after) =
      ofChars before ++ (c, before.length + 1) :: after.zipIdx (before.length + 2) := by
  rw [ofChars, List.zipIdx_append, List.zipIdx_cons, Nat.add_comm 1]
  rfl

theorem of_ofChars_eq (h : ofChars cs = before ++ (c, column) :: after) :
    column = before.length + 1 ∧ cs = before.map Prod.fst ++ c :: after.map Prod.fst := by
  obtain ⟨before', rest, rfl, rfl, hrest⟩ := List.zipIdx_eq_append_iff.mp h
  obtain ⟨c', after', rfl, hc, rfl⟩ := List.zipIdx_eq_cons_iff.mp hrest.symm
  cases hc
  simp [Nat.add_comm]

theorem find?_ink_eq_some_iff {cs : Columns} :
    cs.find? (fun (c, _) => !isBlank c) = some (c, column) ↔ isBlank c = false ∧
      ∃ blanks after, cs = blanks ++ (c, column) :: after ∧
        ∀ b ∈ blanks.map Prod.fst, isBlank b = true := by
  simp [List.find?_eq_some_iff_append]

theorem mem_edgeOperators_iff : d ∈ (ofChars cs).edgeOperators ↔
    (∃ blanks c after, cs = blanks ++ c :: after ∧ (∀ b ∈ blanks, isBlank b = true) ∧
      Alphabet.isOperator c = true ∧ d = .inColumn (blanks.length + 1) .syntactic
        (.startsWithOperator c.toString) c.toString) ∨
    (∃ before c blanks, cs = before ++ c :: blanks ∧ (∀ b ∈ blanks, isBlank b = true) ∧
      Alphabet.isOperator c = true ∧ d = .inColumn (before.length + 1) .syntactic
        (.endsWithOperator c.toString) c.toString) := by
  rw [edgeOperators, List.mem_append]
  refine or_congr (List.mem_map.trans ⟨?_, ?_⟩) (List.mem_map.trans ⟨?_, ?_⟩)
  · rintro ⟨⟨c, column⟩, hfirst, rfl⟩
    obtain ⟨hfind, hop⟩ := Option.filter_eq_some_iff.mp (Option.mem_toList.mp hfirst)
    obtain ⟨-, blanks, after, hcs, hblanks⟩ := find?_ink_eq_some_iff.mp hfind
    obtain ⟨rfl, rfl⟩ := of_ofChars_eq hcs
    exact ⟨_, c, _, rfl, hblanks, hop, by simp⟩
  · rintro ⟨blanks, c, after, rfl, hblanks, hop, rfl⟩
    refine ⟨(c, blanks.length + 1), Option.mem_toList.mpr (Option.filter_eq_some_iff.mpr
      ⟨find?_ink_eq_some_iff.mpr ⟨isBlank_eq_false_of_isOperator hop, _, _,
        ofChars_append_cons .., ?_⟩, hop⟩), rfl⟩
    rwa [ofChars, List.zipIdx_map_fst]
  · rintro ⟨⟨c, column⟩, hlast, rfl⟩
    obtain ⟨hfind, hop⟩ := Option.filter_eq_some_iff.mp (Option.mem_toList.mp hlast)
    obtain ⟨-, blanks, before, hcs, hblanks⟩ := find?_ink_eq_some_iff.mp hfind
    have hcs : ofChars cs = before.reverse ++ (c, column) :: blanks.reverse := by
      simpa using List.reverse_eq_iff.mp hcs
    obtain ⟨rfl, rfl⟩ := of_ofChars_eq hcs
    exact ⟨_, c, _, rfl, by simpa using hblanks, hop, by simp⟩
  · rintro ⟨before, c, blanks, rfl, hblanks, hop, rfl⟩
    refine ⟨(c, before.length + 1), Option.mem_toList.mpr (Option.filter_eq_some_iff.mpr
      ⟨find?_ink_eq_some_iff.mpr ⟨isBlank_eq_false_of_isOperator hop,
        (blanks.zipIdx (before.length + 2)).reverse, (ofChars before).reverse, ?_, ?_⟩, hop⟩), rfl⟩
    · simp [ofChars_append_cons]
    · rw [List.map_reverse, List.zipIdx_map_fst]
      simpa using hblanks

theorem mem_zip_tail_iff {xs : List α} : (x, y) ∈ xs.zip xs.tail ↔
    ∃ before after, xs = before ++ x :: y :: after := by
  constructor
  · intro h
    induction xs with
    | nil => cases h
    | cons z xs ih =>
      cases xs with
      | nil => cases h
      | cons z' xs =>
        rcases List.mem_cons.mp h with heq | h
        · cases heq
          exact ⟨[], xs, rfl⟩
        · obtain ⟨before, after, hxs⟩ := ih h
          exact ⟨z :: before, after, by rw [hxs]; rfl⟩
  · rintro ⟨before, after, rfl⟩
    induction before with
    | nil => simp
    | cons b before ih =>
      cases before with
      | nil => simp
      | cons b' before => exact List.mem_cons_of_mem _ ih

theorem mem_adjacentOperators_iff : d ∈ (ofChars cs).adjacentOperators ↔
    ∃ before left right after, cs = before ++ left :: right :: after ∧
      Alphabet.isOperator left = true ∧ Alphabet.isOperator right = true ∧
      d = .inColumn (before.length + 1) .syntactic (.consecutiveOperators left right.toString)
        left.toString := by
  rw [adjacentOperators, List.mem_filterMap]
  constructor
  · rintro ⟨⟨⟨left, column⟩, right, column'⟩, hmem, hd⟩
    obtain ⟨before, after, hcs⟩ := mem_zip_tail_iff.mp hmem
    obtain ⟨rfl, rfl⟩ := of_ofChars_eq hcs
    obtain ⟨hop, hd⟩ := Option.ite_none_right_eq_some.mp hd
    rw [Bool.and_eq_true] at hop
    exact ⟨_, left, right, _, rfl, hop.1, hop.2, by simpa using (Option.some.inj hd).symm⟩
  · rintro ⟨before, left, right, after, rfl, hleft, hright, rfl⟩
    refine ⟨((left, before.length + 1), right, before.length + 2), ?_, by simp [hleft, hright]⟩
    exact mem_zip_tail_iff.mpr ⟨_, _, ofChars_append_cons ..⟩

-- ---------------------------------------------------------------------------
-- Parentheses
-- ---------------------------------------------------------------------------

theorem exists_cons_eq_append {P : List α → List α → Prop} :
    (∃ before after, c :: cs = before ++ x :: after ∧ P before after) ↔
      c = x ∧ P [] cs ∨ ∃ before after, cs = before ++ x :: after ∧ P (c :: before) after := by
  constructor
  · rintro ⟨before, after, heq, hp⟩
    cases before with
    | nil =>
      cases heq
      exact .inl ⟨rfl, hp⟩
    | cons b before =>
      cases heq
      exact .inr ⟨before, after, rfl, hp⟩
  · rintro (⟨rfl, hp⟩ | ⟨before, after, rfl, hp⟩)
    · exact ⟨[], cs, rfl, hp⟩
    · exact ⟨c :: before, after, rfl, hp⟩

theorem unmatched_cons_of_ne {cs : Columns} (opened : List Nat) (hopen : c ≠ '(')
    (hclose : c ≠ ')') : unmatched opened ((c, column) :: cs) = unmatched opened cs := by
  simp [unmatched, hopen, hclose]

theorem mem_unmatched_fst_iff (opened : List Nat) (n : Nat) :
    column ∈ (unmatched opened (List.zipIdx cs n)).1 ↔
    ∃ before after, cs = before ++ ')' :: after ∧ column = n + before.length ∧
      openAfter opened.length before = 0 := by
  induction cs generalizing opened n with
  | nil => simp [unmatched]
  | cons c cs ih =>
    rw [List.zipIdx_cons, exists_cons_eq_append]
    by_cases hopen : c = '('
    · subst hopen
      have ih := ih (n :: opened) (n + 1)
      simpa [unmatched, openNext, Nat.add_assoc, Nat.add_comm 1] using ih
    by_cases hclose : c = ')'
    · subst hclose
      cases opened with
      | nil =>
        have ih := ih [] (n + 1)
        simpa [unmatched, openNext, Nat.add_assoc, Nat.add_comm 1] using or_congr_right ih
      | cons o opened =>
        have ih := ih opened (n + 1)
        simpa [unmatched, openNext, Nat.add_assoc, Nat.add_comm 1] using ih
    · have ih := ih opened (n + 1)
      rw [unmatched_cons_of_ne opened hopen hclose]
      simpa [openNext_of_ne hopen hclose, hclose, Nat.add_assoc, Nat.add_comm 1] using ih

/-- An open parenthesis is found if those that opened after it, or will, are all that closes. -/
theorem mem_unmatched_snd_iff (opened : List Nat) (n : Nat) :
    column ∈ (unmatched opened (List.zipIdx cs n)).2 ↔
    (∃ newer older, opened = newer ++ column :: older ∧ StaysOpen newer.length cs) ∨
    ∃ before after, cs = before ++ '(' :: after ∧ column = n + before.length ∧
      StaysOpen 0 after := by
  induction cs generalizing opened n with
  | nil => simp [unmatched, staysOpen_nil, ← List.mem_iff_append]
  | cons c cs ih =>
    rw [List.zipIdx_cons, exists_cons_eq_append]
    by_cases hopen : c = '('
    · subst hopen
      have ih := ih (n :: opened) (n + 1)
      rw [exists_cons_eq_append] at ih
      simpa [unmatched, staysOpen_cons, openNext, Nat.add_assoc, Nat.add_comm 1,
        @eq_comm _ n column, or_assoc, or_left_comm] using ih
    by_cases hclose : c = ')'
    · subst hclose
      cases opened with
      | nil =>
        have ih := ih [] (n + 1)
        simpa [unmatched, openNext, Nat.add_assoc, Nat.add_comm 1] using ih
      | cons o opened =>
        have ih := ih opened (n + 1)
        rw [exists_cons_eq_append]
        simpa [unmatched, staysOpen_closing, Nat.add_assoc, Nat.add_comm 1] using ih
    · have ih := ih opened (n + 1)
      rw [unmatched_cons_of_ne opened hopen hclose]
      simpa [staysOpen_cons hclose, openNext_of_ne hopen hclose, hopen, Nat.add_assoc,
        Nat.add_comm 1] using ih

theorem mem_unmatchedParentheses_iff : d ∈ (ofChars cs).unmatchedParentheses ↔
    (∃ before after, cs = before ++ ')' :: after ∧ openAfter 0 before = 0 ∧
      d = .inColumn (before.length + 1) .syntactic .unmatchedClosing ")") ∨
    (∃ before after, cs = before ++ '(' :: after ∧ StaysOpen 0 after ∧
      d = .inColumn (before.length + 1) .syntactic .unmatchedOpening "(") := by
  simp only [unmatchedParentheses, ofChars, List.mem_append, List.mem_map, mem_unmatched_fst_iff,
    mem_unmatched_snd_iff]
  refine or_congr ⟨?_, ?_⟩ ⟨?_, ?_⟩
  · rintro ⟨_, ⟨before, after, hcs, rfl, hopen⟩, rfl⟩
    exact ⟨before, after, hcs, hopen, by rw [Nat.add_comm]⟩
  · rintro ⟨before, after, hcs, hopen, rfl⟩
    exact ⟨_, ⟨before, after, hcs, Nat.add_comm .., hopen⟩, rfl⟩
  · rintro ⟨_, ⟨_, _, hnil, -⟩ | ⟨before, after, hcs, rfl, hstays⟩, rfl⟩
    · simp at hnil
    · exact ⟨before, after, hcs, hstays, by rw [Nat.add_comm]⟩
  · rintro ⟨before, after, hcs, hstays, rfl⟩
    exact ⟨_, .inr ⟨before, after, hcs, Nat.add_comm .., hstays⟩, rfl⟩

theorem mem_emptyGroups_iff {cs : Columns} : column ∈ emptyGroups cs ↔
    ∃ before blanks after column', (∀ b ∈ blanks, isBlank b.1 = true) ∧
      cs = before ++ ('(', column) :: (blanks ++ (')', column') :: after) := by
  constructor
  · intro h
    fun_induction emptyGroups cs with
    | case1 => cases h
    | case2 column' cs column'' after hclose ih =>
      rcases List.mem_cons.mp h with rfl | h
      · refine ⟨[], cs.takeWhile fun (c, _) => isBlank c, after, column'', ?_, ?_⟩
        · exact List.all_eq_true.mp List.all_takeWhile
        · rw [← hclose, List.takeWhile_append_dropWhile]
          rfl
      · obtain ⟨before, blanks, after, column', hblanks, hcs⟩ := ih h
        exact ⟨_ :: before, blanks, after, column', hblanks, congrArg (_ :: ·) hcs⟩
    | case3 column' cs _ ih | case4 c column' cs _ ih =>
      obtain ⟨before, blanks, after, column', hblanks, hcs⟩ := ih h
      exact ⟨_ :: before, blanks, after, column', hblanks, congrArg (_ :: ·) hcs⟩
  rintro ⟨before, blanks, after, column', hblanks, rfl⟩
  induction before with
  | nil =>
    have hdrop : (blanks ++ (')', column') :: after).dropWhile (fun (c, _) => isBlank c) =
        (')', column') :: after := by
      rw [List.dropWhile_append_of_pos hblanks]
      rfl
    simp [emptyGroups, hdrop]
  | cons x before ih =>
    rw [List.cons_append, emptyGroups]
    split
    · split
      · exact List.mem_cons_of_mem _ ih
      · exact ih
    · exact ih

theorem mem_emptyParentheses_iff : d ∈ (ofChars cs).emptyParentheses ↔
    ∃ before blanks after, cs = before ++ '(' :: (blanks ++ ')' :: after) ∧
      (∀ b ∈ blanks, isBlank b = true) ∧
      d = .inColumn (before.length + 1) .syntactic .emptyParentheses "()" := by
  simp only [emptyParentheses, List.mem_map, mem_emptyGroups_iff]
  constructor
  · rintro ⟨column, ⟨before, blanks, after, column', hblanks, hcs⟩, rfl⟩
    obtain ⟨rfl, rfl⟩ := of_ofChars_eq hcs
    exact ⟨before.map Prod.fst, blanks.map Prod.fst, after.map Prod.fst, by simp,
      by simpa using hblanks, by simp⟩
  · rintro ⟨before, blanks, after, rfl, hblanks, rfl⟩
    have hcs := ofChars_append_cons before '(' (blanks ++ ')' :: after)
    rw [List.zipIdx_append, List.zipIdx_cons] at hcs
    refine ⟨_, ⟨_, _, _, _, ?_, hcs⟩, rfl⟩
    exact fun b hb => hblanks b.1 (List.fst_mem_of_mem_zipIdx hb)

theorem mem_foreignChars_iff : d ∈ (ofChars cs).foreignChars ↔
    ∃ before c after, cs = before ++ c :: after ∧ Alphabet.isAllowed c = false ∧
      d = .inColumn (before.length + 1) .lexical (.foreignChar c) c.toString := by
  simp only [foreignChars, List.mem_map, List.mem_filter]
  constructor
  · rintro ⟨⟨c, column⟩, ⟨hmem, hc⟩, rfl⟩
    obtain ⟨before, after, hcs⟩ := List.append_of_mem hmem
    obtain ⟨rfl, rfl⟩ := of_ofChars_eq hcs
    exact ⟨_, c, _, rfl, by simpa using hc, by simp⟩
  · rintro ⟨before, c, after, rfl, hc, rfl⟩
    exact ⟨(c, before.length + 1), ⟨by simp [ofChars_append_cons], by simpa using hc⟩, rfl⟩

end Columns

theorem mem_rawCheck_iff : d ∈ rawCheck line ↔ RawFinding line.toList d := by
  simp only [rawCheck, List.mem_append, Columns.mem_edgeOperators_iff,
    Columns.mem_adjacentOperators_iff, Columns.mem_unmatchedParentheses_iff,
    Columns.mem_emptyParentheses_iff, Columns.mem_foreignChars_iff, or_assoc]
  constructor
  · rintro (⟨_, _, _, hcs, hblanks, hop, rfl⟩ | ⟨_, _, _, hcs, hblanks, hop, rfl⟩ |
      ⟨_, _, _, _, hcs, hleft, hright, rfl⟩ | ⟨_, _, hcs, hopen, rfl⟩ | ⟨_, _, hcs, hstays, rfl⟩ |
      ⟨_, _, _, hcs, hblanks, rfl⟩ | ⟨_, _, _, hcs, hc, rfl⟩)
    · exact .first hcs hblanks hop
    · exact .last hcs hblanks hop
    · exact .adjacent hcs hleft hright
    · exact .closing hcs hopen
    · exact .opening hcs hstays
    · exact .empty hcs hblanks
    · exact .foreign hcs hc
  · intro h
    cases h with
    | first hcs hblanks hop => exact .inl ⟨_, _, _, hcs, hblanks, hop, rfl⟩
    | last hcs hblanks hop => exact .inr (.inl ⟨_, _, _, hcs, hblanks, hop, rfl⟩)
    | adjacent hcs hleft hright =>
      exact .inr (.inr (.inl ⟨_, _, _, _, hcs, hleft, hright, rfl⟩))
    | closing hcs hopen => exact .inr (.inr (.inr (.inl ⟨_, _, hcs, hopen, rfl⟩)))
    | opening hcs hstays => exact .inr (.inr (.inr (.inr (.inl ⟨_, _, hcs, hstays, rfl⟩))))
    | empty hcs hblanks =>
      exact .inr (.inr (.inr (.inr (.inr (.inl ⟨_, _, _, hcs, hblanks, rfl⟩)))))
    | foreign hcs hc => exact .inr (.inr (.inr (.inr (.inr (.inr ⟨_, _, _, hcs, hc, rfl⟩)))))

end FormulaCheck
