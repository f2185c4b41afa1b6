import FormulaCheck.Proofs.Balance
import Mathlib.Data.Finset.Basic

/-!
# The smallest repair of the parentheses

Without the parentheses that the checks on raw characters find to have no partner a text is
balanced, and no set of columns with fewer parentheses does that (`rawCheck_smallestRepair`). Both
halves are about what is left of a text behind some parentheses that are open. If no more are open
than parentheses close without a partner, just these are closed by the first of those
(`depthAfter_without_unmatched`). In any case a deletion that closes them all has to make up for the
difference between the two numbers, and for the parentheses that stay open
(`length_unmatched_le`).
-/

namespace FormulaCheck

namespace Columns

/-- What is left of a text when some columns are deleted. -/
def without (cs : Columns) (deleted : Finset Nat) : Columns :=
  cs.filter fun (_, column) => column ∉ deleted

def parensIn (cs : Columns) (deleted : Finset Nat) : Columns :=
  cs.filter fun (c, column) => (c = '(' ∨ c = ')') ∧ column ∈ deleted

/-- To delete some closing and some opening parentheses, given by their columns, balances the text,
and whatever else balances it deletes at least as many parentheses. -/
structure SmallestRepair (cs : Columns) (closing opening : List Nat) : Prop where
  closing_at : ∀ column ∈ closing, (')', column) ∈ cs
  opening_at : ∀ column ∈ opening, ('(', column) ∈ cs
  nodup : (closing ++ opening).Nodup
  balanced : Balanced (cs.without (closing ++ opening).toFinset).singles
  smallest : ∀ deleted, Balanced (cs.without deleted).singles →
    (closing ++ opening).length ≤ (cs.parensIn deleted).length

variable {cs : Columns} {c : Char} {column n : Nat} {deleted : Finset Nat}

-- ---------------------------------------------------------------------------
-- Places
-- ---------------------------------------------------------------------------

theorem unmatched_sublist (cs : Columns) :
    (unmatched [] cs).1.Sublist ((cs.filter (·.1 = ')')).map Prod.snd) ∧
      (unmatched [] cs).2.Sublist ((cs.filter (·.1 = '(')).map Prod.snd) := by
  induction cs with
  | nil => exact ⟨.slnil, .slnil⟩
  | cons x cs ih =>
    obtain ⟨c, column⟩ := x
    by_cases hopen : c = '('
    · subst hopen
      rw [unmatched_openParen]
      refine ⟨(List.tail_sublist _).trans ih.1, ?_⟩
      dsimp only
      split
      · exact ih.2.cons_cons column
      · exact ih.2.cons column
    by_cases hclose : c = ')'
    · subst hclose
      rw [unmatched_closeParen]
      exact ⟨ih.1.cons_cons column, ih.2⟩
    · rw [unmatched_cons_of_ne [] hopen hclose]
      simpa [hopen, hclose] using ih

theorem mem_of_mem_unmatched_fst (h : column ∈ (unmatched [] cs).1) : (')', column) ∈ cs := by
  simpa using (unmatched_sublist cs).1.subset h

theorem mem_of_mem_unmatched_snd (h : column ∈ (unmatched [] cs).2) : ('(', column) ∈ cs := by
  simpa using (unmatched_sublist cs).2.subset h

theorem nodup_unmatched (h : (cs.map Prod.snd).Nodup) :
    ((unmatched [] cs).1 ++ (unmatched [] cs).2).Nodup := by
  obtain ⟨hclosing, hopening⟩ := unmatched_sublist cs
  refine List.nodup_append.mpr ⟨h.sublist ?_, h.sublist ?_, ?_⟩
  · exact hclosing.trans (List.filter_sublist.map Prod.snd)
  · exact hopening.trans (List.filter_sublist.map Prod.snd)
  · rintro column hc _ ho rfl
    have heq := List.inj_on_of_nodup_map h (mem_of_mem_unmatched_fst hc)
      (mem_of_mem_unmatched_snd ho) rfl
    cases heq

-- ---------------------------------------------------------------------------
-- The repair
-- ---------------------------------------------------------------------------

theorem without_cons_of_mem (h : column ∈ deleted) :
    without ((c, column) :: cs) deleted = without cs deleted := by
  simp [without, h]

theorem without_cons_of_not_mem (h : column ∉ deleted) :
    without ((c, column) :: cs) deleted = (c, column) :: without cs deleted := by
  simp [without, h]

theorem without_insert (h : column ∉ cs.map Prod.snd) :
    without cs (insert column deleted) = without cs deleted := by
  refine List.filter_congr fun x hx => ?_
  have hne : x.2 ≠ column := by
    rintro rfl
    exact h (List.mem_map_of_mem hx)
  simp [hne]

theorem depthAfter_without_unmatched (h : (cs.map Prod.snd).Nodup)
    (hn : n ≤ (unmatched [] cs).1.length) :
    depthAfter n (cs.without ((unmatched [] cs).1.drop n ++ (unmatched [] cs).2).toFinset).singles =
      some 0 := by
  induction cs generalizing n with
  | nil =>
    cases Nat.le_zero.mp hn
    rfl
  | cons x cs ih =>
    obtain ⟨c, column⟩ := x
    obtain ⟨hcolumn, hrest⟩ := List.nodup_cons.mp h
    have hclosing : column ∉ (unmatched [] cs).1 := fun hmem =>
      hcolumn (List.mem_map.mpr ⟨_, mem_of_mem_unmatched_fst hmem, rfl⟩)
    have hopening : column ∉ (unmatched [] cs).2 := fun hmem =>
      hcolumn (List.mem_map.mpr ⟨_, mem_of_mem_unmatched_snd hmem, rfl⟩)
    have hkept : ∀ m, column ∉ ((unmatched [] cs).1.drop m ++ (unmatched [] cs).2).toFinset := by
      intro m
      rw [List.mem_toFinset, List.mem_append, not_or]
      exact ⟨fun hmem => hclosing (List.mem_of_mem_drop hmem), hopening⟩
    by_cases hopen : c = '('
    · subst hopen
      rw [unmatched_openParen] at hn ⊢
      dsimp only at hn ⊢
      split
      · next hnil =>
        rw [hnil] at hn
        cases Nat.le_zero.mp hn
        have hall := ih hrest (Nat.zero_le _)
        rw [hnil, List.drop_nil, List.nil_append] at hall
        rw [hnil, List.tail_nil, List.drop_nil, List.nil_append, List.toFinset_cons,
          without_cons_of_mem (Finset.mem_insert_self ..), without_insert hcolumn, hall]
      · next hne =>
        rw [List.drop_tail, without_cons_of_not_mem (hkept _), singles_openParen,
          depthAfter_openParen]
        have hpos := List.length_pos_of_ne_nil hne
        rw [List.length_tail] at hn
        exact ih hrest (by omega)
    by_cases hclose : c = ')'
    · subst hclose
      rw [unmatched_closeParen] at hn ⊢
      cases n with
      | zero =>
        rw [List.drop_zero, List.cons_append, List.toFinset_cons,
          without_cons_of_mem (Finset.mem_insert_self ..), without_insert hcolumn]
        exact ih hrest (Nat.zero_le _)
      | succ n =>
        rw [List.drop_succ_cons, without_cons_of_not_mem (hkept n), singles_closeParen,
          depthAfter_closeParen]
        exact ih hrest (Nat.le_of_succ_le_succ hn)
    · rw [unmatched_cons_of_ne [] hopen hclose] at hn ⊢
      rw [without_cons_of_not_mem (hkept n), depthAfter_singles_of_ne hopen hclose]
      exact ih hrest hn

-- ---------------------------------------------------------------------------
-- Other repairs
-- ---------------------------------------------------------------------------

theorem length_parensIn_cons : (parensIn ((c, column) :: cs) deleted).length =
    (parensIn cs deleted).length + if (c = '(' ∨ c = ')') ∧ column ∈ deleted then 1 else 0 := by
  simp only [parensIn, List.filter_cons]
  split <;> simp_all

theorem length_unmatched_openParen (cs : Columns) (column : Nat) :
    (unmatched [] (('(', column) :: cs)).1.length = (unmatched [] cs).1.length - 1 ∧
      (unmatched [] (('(', column) :: cs)).2.length =
        (unmatched [] cs).2.length + (1 - (unmatched [] cs).1.length) := by
  rw [unmatched_openParen]
  cases (unmatched [] cs).1 <;> simp

/-- What is deleted makes up for the parentheses that close too much or too little, and for those
that stay open. -/
theorem length_unmatched_le (h : depthAfter n (cs.without deleted).singles = some 0) :
    ((unmatched [] cs).1.length - n) + (n - (unmatched [] cs).1.length) +
      (unmatched [] cs).2.length ≤ (cs.parensIn deleted).length := by
  induction cs generalizing n with
  | nil =>
    cases h
    rfl
  | cons x cs ih =>
    obtain ⟨c, column⟩ := x
    rw [length_parensIn_cons]
    by_cases hopen : c = '('
    · subst hopen
      obtain ⟨hclosing, hopening⟩ := length_unmatched_openParen cs column
      by_cases hmem : column ∈ deleted
      · rw [without_cons_of_mem hmem] at h
        have hrest := ih h
        rw [if_pos ⟨.inl rfl, hmem⟩]
        omega
      · rw [without_cons_of_not_mem hmem, singles_openParen, depthAfter_openParen] at h
        have hrest := ih h
        omega
    by_cases hclose : c = ')'
    · subst hclose
      rw [unmatched_closeParen]
      dsimp only
      rw [List.length_cons]
      by_cases hmem : column ∈ deleted
      · rw [without_cons_of_mem hmem] at h
        have hrest := ih h
        rw [if_pos ⟨.inr rfl, hmem⟩]
        omega
      · rw [without_cons_of_not_mem hmem, singles_closeParen] at h
        cases n with
        | zero => cases h
        | succ n =>
          have hrest := ih h
          omega
    · rw [unmatched_cons_of_ne [] hopen hclose]
      refine (ih ?_).trans (Nat.le_add_right ..)
      by_cases hmem : column ∈ deleted
      · rwa [without_cons_of_mem hmem] at h
      · rwa [without_cons_of_not_mem hmem, depthAfter_singles_of_ne hopen hclose] at h

theorem smallestRepair_unmatched (h : (cs.map Prod.snd).Nodup) :
    cs.SmallestRepair (unmatched [] cs).1 (unmatched [] cs).2 where
  closing_at _ := mem_of_mem_unmatched_fst
  opening_at _ := mem_of_mem_unmatched_snd
  nodup := nodup_unmatched h
  balanced := balanced_iff.mpr (depthAfter_without_unmatched h (Nat.zero_le _))
  smallest deleted hdeleted := by
    have hle := length_unmatched_le (balanced_iff.mp hdeleted)
    rw [List.length_append]
    omega

end Columns

-- ---------------------------------------------------------------------------
-- The findings
-- ---------------------------------------------------------------------------

def columnsOf (complaint : Complaint) (ds : List Diagnostic) : List Nat :=
  (ds.filter (·.message = complaint.message)).map Diagnostic.column

theorem columnsOf_append :
    columnsOf complaint (ds ++ ds') = columnsOf complaint ds ++ columnsOf complaint ds' := by
  simp [columnsOf]

def Complaint.initial : Complaint → Char
  | .startsWithOperator _ | .endsWithOperator _ | .emptyParentheses => 'E'
  | .consecutiveOperators .. => 'C'
  | .unexpectedOperator .. | .unmatchedClosing | .unmatchedOpening | .misplacedChar ..
  | .unexpectedEnd => 'U'
  | .foreignChar _ | .foreignCharAt .. => 'I'
  | .unexpectedToken .. => 'S'
  | .nestingTooDeep _ => 'P'

theorem head?_append_of_eq_some {l : List α} (h : l.head? = some a) (more : List α) :
    (l ++ more).head? = some a := by
  rw [List.head?_append, h, Option.some_or]

theorem Complaint.head?_message (complaint : Complaint) :
    complaint.message.toList.head? = some complaint.initial := by
  cases complaint <;> unfold message <;>
    simp only [String.toList_append, List.append_assoc, initial] <;>
    first
      | decide +kernel
      | exact head?_append_of_eq_some (by decide +kernel) _

section

variable {complaint other : Complaint} {kind : Diagnostic.Kind} {columns : List Nat}

theorem columnsOf_eq_nil (hcomplaint : complaint.initial = 'U')
    (h : ∀ d ∈ ds, ∃ column kind other symbol, d = .inColumn column kind other symbol ∧
      other.initial ≠ 'U') : columnsOf complaint ds = [] := by
  rw [columnsOf, List.map_eq_nil_iff, List.filter_eq_nil_iff]
  intro d hd
  obtain ⟨column, kind, other, symbol, rfl, hother⟩ := h d hd
  rw [decide_eq_true_eq]
  intro heq
  apply hother
  rw [← hcomplaint, ← Option.some_inj, ← other.head?_message, ← complaint.head?_message, ← heq]
  rfl

theorem columnsOf_map_self (h : ∀ column ∈ columns, 1 ≤ column) :
    columnsOf complaint (columns.map (.inColumn · kind complaint symbol)) = columns := by
  rw [columnsOf, List.filter_eq_self.mpr (by simp [Diagnostic.inColumn, Diagnostic.placed]),
    List.map_map]
  refine (List.map_congr_left fun column hmem => ?_).trans (List.map_id columns)
  exact Nat.max_eq_left (h column hmem)

theorem columnsOf_map_of_ne (h : other.message ≠ complaint.message) :
    columnsOf complaint (columns.map (.inColumn · kind other symbol)) = [] := by
  simp [columnsOf, Diagnostic.inColumn, Diagnostic.placed, h]

theorem columnsOf_rawCheck (h : complaint.initial = 'U') :
    columnsOf complaint (rawCheck line) =
      columnsOf complaint (Columns.ofChars line.toList).unmatchedParentheses := by
  have hedge : columnsOf complaint (Columns.ofChars line.toList).edgeOperators = [] := by
    refine columnsOf_eq_nil h fun d hd => ?_
    rcases Columns.mem_edgeOperators_iff.mp hd with
      ⟨_, _, _, -, -, -, rfl⟩ | ⟨_, _, _, -, -, -, rfl⟩ <;>
      exact ⟨_, _, _, _, rfl, by simp [Complaint.initial]⟩
  have hadjacent : columnsOf complaint (Columns.ofChars line.toList).adjacentOperators = [] := by
    refine columnsOf_eq_nil h fun d hd => ?_
    obtain ⟨_, _, _, _, -, -, -, rfl⟩ := Columns.mem_adjacentOperators_iff.mp hd
    exact ⟨_, _, _, _, rfl, by simp [Complaint.initial]⟩
  have hempty : columnsOf complaint (Columns.ofChars line.toList).emptyParentheses = [] := by
    refine columnsOf_eq_nil h fun d hd => ?_
    obtain ⟨_, _, _, -, -, rfl⟩ := Columns.mem_emptyParentheses_iff.mp hd
    exact ⟨_, _, _, _, rfl, by simp [Complaint.initial]⟩
  have hforeign : columnsOf complaint (Columns.ofChars line.toList).foreignChars = [] := by
    refine columnsOf_eq_nil h fun d hd => ?_
    obtain ⟨_, _, _, -, -, rfl⟩ := Columns.mem_foreignChars_iff.mp hd
    exact ⟨_, _, _, _, rfl, by simp [Complaint.initial]⟩
  dsimp only [rawCheck]
  simp only [columnsOf_append, hedge, hadjacent, hempty, hforeign, List.nil_append, List.append_nil]

end

theorem columnsOf_unmatchedParentheses (h : ∀ x ∈ cs, 1 ≤ x.2) :
    columnsOf .unmatchedClosing (Columns.unmatchedParentheses cs) = (Columns.unmatched [] cs).1 ∧
      columnsOf .unmatchedOpening (Columns.unmatchedParentheses cs) =
        (Columns.unmatched [] cs).2 := by
  have hne : Complaint.unmatchedClosing.message ≠ Complaint.unmatchedOpening.message := by decide
  have hclosing := fun column hmem => h (')', column) (Columns.mem_of_mem_unmatched_fst hmem)
  have hopening := fun column hmem => h ('(', column) (Columns.mem_of_mem_unmatched_snd hmem)
  dsimp only [Columns.unmatchedParentheses]
  constructor
  · rw [columnsOf_append, columnsOf_map_self hclosing, columnsOf_map_of_ne hne.symm,
      List.append_nil]
  · rw [columnsOf_append, columnsOf_map_self hopening, columnsOf_map_of_ne hne, List.nil_append]

/-- The parentheses that the raw checks find to have no partner are a smallest repair. -/
theorem rawCheck_smallestRepair (line : String) :
    (Columns.ofChars line.toList).SmallestRepair (columnsOf .unmatchedClosing (rawCheck line))
      (columnsOf .unmatchedOpening (rawCheck line)) := by
  have hcolumns : ∀ x ∈ Columns.ofChars line.toList, 1 ≤ x.2 := fun x hx =>
    List.le_snd_of_mem_zipIdx hx
  obtain ⟨hclosing, hopening⟩ := columnsOf_unmatchedParentheses hcolumns
  rw [columnsOf_rawCheck rfl, columnsOf_rawCheck rfl, hclosing, hopening]
  refine Columns.smallestRepair_unmatched ?_
  rw [Columns.ofChars, List.zipIdx_map_snd]
  exact List.nodup_range'

example : columnsOf .unmatchedClosing (rawCheck ") (a + (b") = [1] ∧
    columnsOf .unmatchedOpening (rawCheck ") (a + (b") = [3, 8] := by
  decide +kernel

end FormulaCheck
