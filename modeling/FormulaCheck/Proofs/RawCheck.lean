import FormulaCheck.Proofs.RawFindings

/-!
# The raw checks are sound

A text that can be cut into a statement has nothing that the checks on raw characters find
(`rawCheck_eq_nil`): what they look for would be a lexeme in every cut, in a place where no
statement has it.
-/

namespace FormulaCheck

theorem Cut.neighbours (h : Cut (before ++ c :: (blanks ++ c' :: after)) ks)
    (hd : Derives .statement ks) (hblanks : ∀ b ∈ blanks, isBlank b = true)
    (hk : Lexeme.single? c = some k) (hk' : Lexeme.single? c' = some k') : Neighbours k k' := by
  obtain ⟨front, back, rfl, -, hback⟩ := h.split hk
  obtain ⟨between, back, rfl, hbetween, -⟩ := hback.split hk'
  obtain rfl := hbetween.eq_nil_of_blank hblanks
  exact List.isChain_iff_forall_rel_of_append_cons_cons.mp hd.neighbours rfl

theorem not_isOperator_first (h : Cut (blanks ++ c :: after) ks) (hd : Derives .statement ks)
    (hblanks : ∀ b ∈ blanks, isBlank b = true) : ¬ Alphabet.isOperator c = true := by
  intro hop
  obtain ⟨k, hk, hop⟩ := single?_of_isOperator hop
  obtain ⟨front, back, rfl, hfront, -⟩ := h.split hk
  obtain rfl := hfront.eq_nil_of_blank hblanks
  have hfactor := hd.startsFactor_head
  simp [Token.Kind.startsFactor_of_isOperator hop] at hfactor

theorem not_isOperator_last (h : Cut (before ++ c :: blanks) ks) (hd : Derives .statement ks)
    (hblanks : ∀ b ∈ blanks, isBlank b = true) : ¬ Alphabet.isOperator c = true := by
  intro hop
  obtain ⟨k, hk, hop⟩ := single?_of_isOperator hop
  obtain ⟨front, back, rfl, -, hback⟩ := h.split hk
  obtain rfl := hback.eq_nil_of_blank hblanks
  have hoperand := hd.endsOperand_last
  simp [Token.Kind.endsOperand_of_isOperator hop] at hoperand

theorem not_isOperator_adjacent (h : Cut (before ++ left :: right :: after) ks)
    (hd : Derives .statement ks) (hleft : Alphabet.isOperator left = true) :
    ¬ Alphabet.isOperator right = true := by
  intro hright
  obtain ⟨k, hk, hop⟩ := single?_of_isOperator hleft
  obtain ⟨k', hk', hop'⟩ := single?_of_isOperator hright
  have hcut : Cut (before ++ left :: ([] ++ right :: after)) ks := h
  have hneighbours := hcut.neighbours hd nofun hk hk'
  simp [Neighbours, Token.Kind.startsFactor_of_isOperator hop',
    Token.Kind.endsOperand_of_isOperator hop] at hneighbours

theorem openAfter_ne_zero (h : Cut (before ++ ')' :: after) ks) (hd : Derives .statement ks) :
    openAfter 0 before ≠ 0 := by
  intro hopened
  obtain ⟨front, back, rfl, hfront, -⟩ := h.split rfl
  obtain ⟨depth, hdepth, hback⟩ :=
    Option.bind_eq_some_iff.mp (depthAfter_append .. ▸ hd.keeps_depth 0)
  obtain rfl := (hfront.openAfter_eq hdepth).symm.trans hopened
  cases hback

theorem not_staysOpen (h : Cut (before ++ '(' :: after) ks) (hd : Derives .statement ks) :
    ¬ StaysOpen 0 after := by
  intro hstays
  obtain ⟨front, back, rfl, -, hback⟩ := h.split rfl
  obtain ⟨depth, hdepth, hclosed⟩ :=
    Option.bind_eq_some_iff.mp (depthAfter_append .. ▸ hd.keeps_depth 0)
  -- the group would still be open at the end
  exact Nat.not_succ_le_zero depth (hback.le_of_staysOpen hstays hclosed)

theorem not_empty (h : Cut (before ++ '(' :: (blanks ++ ')' :: after)) ks)
    (hd : Derives .statement ks) : ¬ ∀ b ∈ blanks, isBlank b = true := by
  intro hblanks
  have hneighbours := h.neighbours hd hblanks rfl rfl
  simp [Neighbours, Token.Kind.startsFactor, Token.Kind.endsOperand] at hneighbours

theorem Cut.not_rawFinding (h : Cut cs ks) (hd : Derives .statement ks) : ¬ RawFinding cs d := by
  intro hfinding
  cases hfinding with
  | first hcs hblanks hop => exact not_isOperator_first (hcs ▸ h) hd hblanks hop
  | last hcs hblanks hop => exact not_isOperator_last (hcs ▸ h) hd hblanks hop
  | adjacent hcs hleft hright => exact not_isOperator_adjacent (hcs ▸ h) hd hleft hright
  | closing hcs hopened => exact openAfter_ne_zero (hcs ▸ h) hd hopened
  | opening hcs hstays => exact not_staysOpen (hcs ▸ h) hd hstays
  | empty hcs hblanks => exact not_empty (hcs ▸ h) hd hblanks
  | foreign hcs hc => simp [h.isAllowed (hcs ▸ List.mem_append_right _ (List.mem_cons_self ..))] at hc

theorem rawCheck_eq_nil (h : Cut line.toList ks) (hd : Derives .statement ks) :
    rawCheck line = [] :=
  List.eq_nil_iff_forall_not_mem.mpr fun _ hmem => h.not_rawFinding hd (mem_rawCheck_iff.mp hmem)

end FormulaCheck
