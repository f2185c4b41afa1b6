import FormulaCheck.Proofs.RawFindings

/-!
# Balanced parentheses

Kinds are balanced if every parenthesis among them has its partner (`Balanced`), which is so exactly
if the depth comes back to 0 and never has to fall below it (`balanced_iff`). What stands between a
parenthesis and its partner is balanced. So kinds have an opening parenthesis for one that closes
behind them if some group is still open (`hasOpening_iff`), and a closing parenthesis for one that
opens in front of them if they close one group more than they open (`hasClosing_iff`).

What the raw check for parentheses finds with some of them open follows from what it finds with none
(`Columns.unmatched_eq`), and `Columns.lt_length_unmatched_iff` says when some that close are left
over.
-/

namespace FormulaCheck

-- ---------------------------------------------------------------------------
-- Kinds
-- ---------------------------------------------------------------------------

inductive Balanced : List Token.Kind → Prop
  | nil : Balanced []
  | other : k ≠ .openParen → k ≠ .closeParen → Balanced ks → Balanced (k :: ks)
  | group : Balanced ks → Balanced ls → Balanced (.openParen :: (ks ++ .closeParen :: ls))

variable {ks : List Token.Kind} {k : Token.Kind}

@[simp] theorem depthAfter_openParen :
    depthAfter n (.openParen :: ks) = depthAfter (n + 1) ks := rfl

@[simp] theorem depthAfter_closeParen :
    depthAfter (n + 1) (.closeParen :: ks) = depthAfter n ks := rfl

@[simp] theorem depthAfter_zero_closeParen : depthAfter 0 (.closeParen :: ks) = none := rfl

theorem depthAfter_of_ne (ho : k ≠ .openParen) (hc : k ≠ .closeParen) :
    depthAfter n (k :: ks) = depthAfter n ks := by
  rw [depthAfter_cons, depthNext_of_ne ho hc, Option.bind_some]

theorem Balanced.depthAfter_eq (h : Balanced ks) (n : Nat) : depthAfter n ks = some n := by
  induction h generalizing n with
  | nil => rfl
  | other ho hc _ ih => rw [depthAfter_of_ne ho hc, ih]
  | group _ _ ihi iho => simp [depthAfter_append, ihi, iho]

theorem depthNext_add (h : depthNext depth k = some next) (n : Nat) :
    depthNext (depth + n) k = some (next + n) := by
  cases k with
  | closeParen =>
    cases depth with
    | zero => cases h
    | succ depth =>
      cases h
      rw [Nat.add_right_comm]
      rfl
  | openParen =>
    cases h
    rw [Nat.add_right_comm]
    rfl
  | _ =>
    cases h
    rfl

theorem depthAfter_add (h : depthAfter depth ks = some final) (n : Nat) :
    depthAfter (depth + n) ks = some (final + n) := by
  induction ks generalizing depth with
  | nil =>
    cases h
    rfl
  | cons k ks ih =>
    obtain ⟨next, hnext, hks⟩ := Option.bind_eq_some_iff.mp h
    rw [depthAfter_cons, depthNext_add hnext]
    exact ih hks

/-- More groups are closed than are open exactly if some closing parenthesis comes after all that
are open have been closed. -/
theorem depthAfter_eq_none_iff : depthAfter n ks = none ↔
    ∃ inner outer, ks = inner ++ .closeParen :: outer ∧ depthAfter n inner = some 0 := by
  constructor
  · intro h
    induction ks generalizing n with
    | nil => cases h
    | cons k ks ih =>
      by_cases hfirst : depthNext n k = none
      · cases k with
        | closeParen =>
          cases n with
          | zero => exact ⟨[], ks, rfl, rfl⟩
          | succ n => cases hfirst
        | _ => cases hfirst
      · obtain ⟨next, hnext⟩ := Option.ne_none_iff_exists'.mp hfirst
        rw [depthAfter_cons, hnext] at h
        obtain ⟨inner, outer, rfl, hinner⟩ := ih h
        exact ⟨k :: inner, outer, rfl, by rw [depthAfter_cons, hnext]; exact hinner⟩
  · rintro ⟨inner, outer, rfl, hinner⟩
    simp [depthAfter_append, hinner]

theorem exists_closing (h : depthAfter (n + 1) ks = some 0) :
    ∃ inner outer, ks = inner ++ .closeParen :: outer ∧ depthAfter n inner = some 0 ∧
      depthAfter 0 outer = some 0 := by
  have hnone : depthAfter n ks = none := by
    by_contra hsome
    obtain ⟨final, hfinal⟩ := Option.ne_none_iff_exists'.mp hsome
    cases h.symm.trans (depthAfter_add hfinal 1)
  obtain ⟨inner, outer, rfl, hinner⟩ := depthAfter_eq_none_iff.mp hnone
  refine ⟨inner, outer, rfl, hinner, ?_⟩
  rwa [depthAfter_append, depthAfter_add hinner] at h

theorem Balanced.of_depthAfter (h : depthAfter 0 ks = some 0) : Balanced ks := by
  induction hlength : ks.length using Nat.strong_induction_on generalizing ks with
  | h n ih =>
    subst hlength
    cases ks with
    | nil => exact .nil
    | cons k ks =>
      by_cases ho : k = .openParen
      · subst ho
        obtain ⟨inner, outer, rfl, hinner, houter⟩ := exists_closing h
        refine .group (ih inner.length ?_ hinner rfl) (ih outer.length ?_ houter rfl) <;>
          simp only [List.length_cons, List.length_append] <;> omega
      by_cases hc : k = .closeParen
      · subst hc
        cases h
      · rw [depthAfter_of_ne ho hc] at h
        exact .other ho hc (ih ks.length (Nat.lt_succ_self _) h rfl)

theorem balanced_iff : Balanced ks ↔ depthAfter 0 ks = some 0 :=
  ⟨fun h => h.depthAfter_eq 0, .of_depthAfter⟩

instance : DecidablePred Balanced := fun _ => decidable_of_iff _ balanced_iff.symm

-- ---------------------------------------------------------------------------
-- Partners
-- ---------------------------------------------------------------------------

/-- Among the kinds is the partner of a closing parenthesis that comes next. -/
def HasOpening (before : List Token.Kind) : Prop :=
  ∃ outer inner, before = outer ++ .openParen :: inner ∧ Balanced inner

/-- Among the kinds is the partner of an opening parenthesis just before them. -/
def HasClosing (after : List Token.Kind) : Prop :=
  ∃ inner outer, after = inner ++ .closeParen :: outer ∧ Balanced inner

theorem hasClosing_iff : HasClosing ks ↔ depthAfter 0 ks = none := by
  simp only [HasClosing, depthAfter_eq_none_iff, balanced_iff]

instance : DecidablePred HasClosing := fun _ => decidable_of_iff _ hasClosing_iff.symm

/-- How many groups are open after some kinds. A parenthesis that closes nothing is passed over. -/
def groupsOpen (n : Nat) (ks : List Token.Kind) : Nat :=
  ks.foldl (fun n k => (depthNext n k).getD 0) n

theorem groupsOpen_concat :
    groupsOpen n (ks ++ [k]) = (depthNext (groupsOpen n ks) k).getD 0 := by
  simp [groupsOpen]

theorem groupsOpen_of_depthAfter (h : depthAfter n ks = some m) : groupsOpen n ks = m := by
  induction ks generalizing n with
  | nil => exact Option.some.inj h
  | cons k ks ih =>
    obtain ⟨next, hnext, hks⟩ := Option.bind_eq_some_iff.mp h
    rw [groupsOpen, List.foldl_cons, hnext]
    exact ih hks

/-- More than some groups are open exactly if that many opened after another one that is open. -/
theorem lt_groupsOpen_iff : n < groupsOpen 0 ks ↔
    ∃ outer inner, ks = outer ++ .openParen :: inner ∧ depthAfter 0 inner = some n := by
  constructor
  · intro h
    induction ks using List.reverseRecOn generalizing n with
    | nil => cases h
    | append_singleton ks k ih =>
      -- a group that is open before the last kind, or the group that the last kind opens
      have hlonger : ∀ m < groupsOpen 0 ks, depthNext m k = some n → ∃ outer inner,
          ks ++ [k] = outer ++ .openParen :: inner ∧ depthAfter 0 inner = some n := by
        intro m hm hnext
        obtain ⟨outer, inner, rfl, hinner⟩ := ih hm
        refine ⟨outer, inner ++ [k], by simp, ?_⟩
        simp [depthAfter_append, hinner, depthAfter_cons, hnext]
      rw [groupsOpen_concat] at h
      by_cases ho : k = .openParen
      · subst ho
        cases n with
        | zero => exact ⟨ks, [], rfl, rfl⟩
        | succ n => exact hlonger n (Nat.lt_of_succ_lt_succ h) rfl
      by_cases hc : k = .closeParen
      · subst hc
        generalize hopen : groupsOpen 0 ks = depth at h hlonger
        cases depth with
        | zero => cases h
        | succ depth => exact hlonger (n + 1) (Nat.succ_lt_succ h) rfl
      · rw [depthNext_of_ne ho hc] at h
        exact hlonger n h (depthNext_of_ne ho hc)
  · rintro ⟨outer, inner, rfl, hinner⟩
    have hdepth := depthAfter_add hinner (groupsOpen 0 outer + 1)
    rw [Nat.zero_add] at hdepth
    rw [groupsOpen, List.foldl_append, List.foldl_cons]
    change n < groupsOpen (groupsOpen 0 outer + 1) inner
    rw [groupsOpen_of_depthAfter hdepth]
    omega

theorem hasOpening_iff : HasOpening ks ↔ 0 < groupsOpen 0 ks := by
  simp only [HasOpening, lt_groupsOpen_iff, balanced_iff]

instance : DecidablePred HasOpening := fun _ => decidable_of_iff _ hasOpening_iff.symm

-- ---------------------------------------------------------------------------
-- Characters
-- ---------------------------------------------------------------------------

theorem ne_openParen_of_single? (hc : Lexeme.single? c = some k) (hopen : c ≠ '(') :
    k ≠ .openParen := by
  rintro rfl
  exact hopen (List.singleton_inj.mp (IsLexeme.of_single? hc).eq_openParen)

theorem ne_closeParen_of_single? (hc : Lexeme.single? c = some k) (hclose : c ≠ ')') :
    k ≠ .closeParen := by
  rintro rfl
  exact hclose (List.singleton_inj.mp (IsLexeme.of_single? hc).eq_closeParen)

namespace Columns

variable {cs : Columns} {c : Char} {column n : Nat}

/-- The kinds of the characters that are lexemes by themselves, the parentheses among them. -/
def singles (cs : Columns) : List Token.Kind := cs.filterMap fun (c, _) => Lexeme.single? c

@[simp] theorem singles_nil : singles [] = [] := rfl

@[simp] theorem singles_openParen :
    singles (('(', column) :: cs) = .openParen :: singles cs := rfl

@[simp] theorem singles_closeParen :
    singles ((')', column) :: cs) = .closeParen :: singles cs := rfl

theorem singles_cons : singles ((c, column) :: cs) = (Lexeme.single? c).toList ++ singles cs := by
  cases hc : Lexeme.single? c <;> simp [singles, hc]

theorem depthAfter_singles_of_ne (hopen : c ≠ '(') (hclose : c ≠ ')') :
    depthAfter n (singles ((c, column) :: cs)) = depthAfter n (singles cs) := by
  rw [singles_cons]
  cases hc : Lexeme.single? c with
  | none => rfl
  | some k =>
    exact depthAfter_of_ne (ne_openParen_of_single? hc hopen) (ne_closeParen_of_single? hc hclose)

/-- Those that are open take away the first of those that close and find no partner, and are taken
away themselves. -/
theorem unmatched_eq (opened : List Nat) (cs : Columns) : unmatched opened cs =
    ((unmatched [] cs).1.drop opened.length,
      (opened.drop (unmatched [] cs).1.length).reverse ++ (unmatched [] cs).2) := by
  induction cs generalizing opened with
  | nil => simp [unmatched]
  | cons x cs ih =>
    obtain ⟨c, column⟩ := x
    by_cases hopen : c = '('
    · subst hopen
      change unmatched (column :: opened) cs = ((unmatched [column] cs).1.drop opened.length,
        (opened.drop (unmatched [column] cs).1.length).reverse ++ (unmatched [column] cs).2)
      rw [ih (column :: opened), ih [column]]
      cases (unmatched [] cs).1 <;> simp
    by_cases hclose : c = ')'
    · subst hclose
      cases opened with
      | nil => simp
      | cons o opened => simp [unmatched, ih opened]
    · rw [unmatched_cons_of_ne _ hopen hclose, unmatched_cons_of_ne _ hopen hclose]
      exact ih opened

theorem unmatched_openParen : unmatched [] (('(', column) :: cs) =
    ((unmatched [] cs).1.tail,
      if (unmatched [] cs).1 = [] then column :: (unmatched [] cs).2 else (unmatched [] cs).2) := by
  change unmatched [column] cs = _
  rw [unmatched_eq]
  cases (unmatched [] cs).1 <;> simp

theorem unmatched_closeParen : unmatched [] ((')', column) :: cs) =
    (column :: (unmatched [] cs).1, (unmatched [] cs).2) := rfl

/-- More parentheses close without a partner than some number exactly if the text closes a group
too many with that many open in front of it. -/
theorem lt_length_unmatched_iff :
    n < (unmatched [] cs).1.length ↔ depthAfter n (singles cs) = none := by
  induction cs generalizing n with
  | nil => simp [unmatched]
  | cons x cs ih =>
    obtain ⟨c, column⟩ := x
    by_cases hopen : c = '('
    · subst hopen
      rw [unmatched_openParen, singles_openParen, depthAfter_openParen, ← ih, List.length_tail]
      omega
    by_cases hclose : c = ')'
    · subst hclose
      rw [unmatched_closeParen, singles_closeParen]
      cases n with
      | zero => simp
      | succ n => simpa using ih
    · rw [unmatched_cons_of_ne _ hopen hclose, depthAfter_singles_of_ne hopen hclose]
      exact ih

end Columns

end FormulaCheck
