import FormulaCheck.Proofs.Arrangement
import Mathlib.Data.List.Basic

/-!
# Groups in a tree

A group is a factor with an opening parenthesis. `Tree.nesting` is the most groups on a path from
the root, and `Tree.openingsAt` lists the opening parentheses of the groups that lie in so many
others. A tree nests within a limit exactly if no group lies in so many others
(`Tree.openingsAt_eq_nil_iff`). In a tree whose parts keep their order when they are stored
(`Tree.Steady`) the parentheses are listed in the order of the text.

`Tree.Path` leads from a tree down to one in it. Storing the parts in slot order moves no tree to
another path (`Tree.Path.exists_of_arranged`) and closes no group (`Tree.unclosed_arranged_iff`).
-/

namespace FormulaCheck

-- ---------------------------------------------------------------------------
-- Parts that are stored
-- ---------------------------------------------------------------------------

theorem Tree.token?_arranged (t : Tree) : t.arranged.token? = t.token? := by
  cases t <;> rfl

namespace Forest

theorem tokensOfKind_arrange (ts : Forest) (k : Token.Kind) :
    tokensOfKind (arrange ts) k = tokensOfKind ts k := by
  rw [tokensOfKind, inSlot_arrange, tokensOfKind]

theorem tokensOfKind_map_arranged (ts : Forest) (k : Token.Kind) :
    tokensOfKind (ts.map Tree.arranged) k = tokensOfKind ts k := by
  simp [tokensOfKind, inSlot, List.filter_map, Function.comp_def, Tree.slot_arranged,
    Tree.token?_arranged]

theorem filter_isNode_arrange (h : ∀ t ∈ ts, Tree.isNode t = true → t.slot = s) :
    (arrange ts).filter Tree.isNode = ts.filter Tree.isNode := by
  have hfilter : ∀ us ⊆ ts, us.filter Tree.isNode = (inSlot us s).filter Tree.isNode := by
    intro us hus
    rw [inSlot, List.filter_filter]
    refine List.filter_congr fun t ht => ?_
    cases hnode : t.isNode with
    | false => rfl
    | true => simp [h t (hus ht) hnode]
  rw [hfilter _ (arrange_perm ts).subset, inSlot_arrange, ← hfilter ts (List.Subset.refl ts)]

end Forest

namespace Tree

-- ---------------------------------------------------------------------------
-- Groups
-- ---------------------------------------------------------------------------

/-- The opening parentheses among the parts of a factor, which make it a group. -/
def openings : Rule → Forest → List Token
  | .factor, parts => Forest.tokensOfKind parts .openParen
  | _, _ => []

mutual

/-- The most groups on a path from the root. -/
def nesting : Tree → Nat
  | .leaf _ => 0
  | .node rule parts _ =>
    if openings rule parts = [] then forestNesting parts else forestNesting parts + 1

def forestNesting : Forest → Nat
  | [] => 0
  | t :: ts => max (nesting t) (forestNesting ts)

end

mutual

/-- The opening parentheses of the groups that lie in so many others, in slot order. -/
def openingsAt : Nat → Tree → List Token
  | _, .leaf _ => []
  | n, .node rule parts _ =>
    if openings rule parts = [] then forestOpeningsAt n parts
    else match n with
      | 0 => openings rule parts
      | n + 1 => forestOpeningsAt n parts

def forestOpeningsAt : Nat → Forest → List Token
  | _, [] => []
  | n, t :: ts => openingsAt n t ++ forestOpeningsAt n ts

end

theorem openingsAt_leaf (n : Nat) (t : Token) : (leaf t).openingsAt n = [] := by
  cases n <;> rfl

theorem openingsAt_node (h : openings rule parts = []) :
    (node rule parts repaired).openingsAt n = forestOpeningsAt n parts := by
  cases n <;> rw [openingsAt, if_pos h]

theorem openingsAt_group_zero (h : openings rule parts ≠ []) :
    (node rule parts repaired).openingsAt 0 = openings rule parts := by
  rw [openingsAt, if_neg h]

theorem openingsAt_group_succ (h : openings rule parts ≠ []) :
    (node rule parts repaired).openingsAt (n + 1) = forestOpeningsAt n parts := by
  rw [openingsAt, if_neg h]

theorem forestOpeningsAt_eq_flatMap (n : Nat) (ts : Forest) :
    forestOpeningsAt n ts = ts.flatMap (openingsAt n) := by
  induction ts with
  | nil => rfl
  | cons t ts ih => rw [forestOpeningsAt, ih, List.flatMap_cons]

mutual

theorem openingsAt_eq_nil_iff : (t : Tree) → (n : Nat) → (t.openingsAt n = [] ↔ t.nesting ≤ n)
  | .leaf _, n => by simp [openingsAt, nesting]
  | .node rule parts _, n => by
    have hforest := forestOpeningsAt_eq_nil_iff parts
    by_cases h : openings rule parts = []
    · rw [openingsAt_node h, nesting, if_pos h, hforest]
    · rw [nesting, if_neg h]
      cases n with
      | zero => simp [openingsAt_group_zero h, h]
      | succ n => rw [openingsAt_group_succ h, hforest, Nat.add_le_add_iff_right]

theorem forestOpeningsAt_eq_nil_iff : (ts : Forest) → (n : Nat) →
    (forestOpeningsAt n ts = [] ↔ forestNesting ts ≤ n)
  | [], n => by simp [forestOpeningsAt, forestNesting]
  | t :: ts, n => by
    rw [forestOpeningsAt, forestNesting, List.append_eq_nil_iff, openingsAt_eq_nil_iff t,
      forestOpeningsAt_eq_nil_iff ts, Nat.max_le]

end

theorem nesting_le_iff {t : Tree} : t.nesting ≤ n ↔ t.openingsAt n = [] :=
  (openingsAt_eq_nil_iff t n).symm

-- ---------------------------------------------------------------------------
-- The order of the groups
-- ---------------------------------------------------------------------------

theorem openings_sublist_leaves (rule : Rule) (ts : Forest) :
    (openings rule ts).Sublist (forestLeaves ts) := by
  have htokens : (ts.filterMap token?).Sublist (forestLeaves ts) := by
    induction ts with
    | nil => exact .refl _
    | cons t ts ih =>
      cases t with
      | leaf t => exact ih.cons_cons t
      | node => exact ih.trans (List.sublist_append_right ..)
  cases rule with
  | factor => exact (List.filter_sublist.filterMap token?).trans htokens
  | _ => exact List.nil_sublist _

mutual

theorem openingsAt_sublist_leaves : (n : Nat) → (t : Tree) →
    (t.openingsAt n).Sublist t.leaves
  | _, .leaf _ => by simp [openingsAt]
  | n, .node rule parts _ => by
    have hforest := fun n => forestOpeningsAt_sublist_leaves n parts
    rw [leaves]
    by_cases h : openings rule parts = []
    · rw [openingsAt_node h]
      exact hforest n
    · cases n with
      | zero =>
        rw [openingsAt_group_zero h]
        exact openings_sublist_leaves rule parts
      | succ n =>
        rw [openingsAt_group_succ h]
        exact hforest n

theorem forestOpeningsAt_sublist_leaves : (n : Nat) → (ts : Forest) →
    (forestOpeningsAt n ts).Sublist (forestLeaves ts)
  | _, [] => .refl _
  | n, t :: ts => by
    rw [forestOpeningsAt, forestLeaves]
    exact (openingsAt_sublist_leaves n t).append (forestOpeningsAt_sublist_leaves n ts)

end

/-- In every node of the tree the nodes among the parts keep their order when they are stored. -/
inductive Steady : Tree → Prop
  | leaf : Steady (.leaf t)
  | node : (∀ t ∈ ts, Steady t) → (Forest.arrange ts).filter isNode = ts.filter isNode →
      Steady (.node rule ts repaired)

theorem Steady.of_nodup (h : ∀ t ∈ ts, Steady t) (hts : (ts.map slot).Nodup) :
    Steady (.node rule ts repaired) :=
  .node h (by rw [Forest.arrange_of_nodup hts])

theorem Steady.of_slot_eq (h : ∀ t ∈ ts, Steady t) (hts : ∀ t ∈ ts, isNode t = true → t.slot = s) :
    Steady (.node rule ts repaired) :=
  .node h (Forest.filter_isNode_arrange hts)

theorem openings_arranged (rule : Rule) (ts : Forest) :
    openings rule (Forest.arrange (ts.map arranged)) = openings rule ts := by
  cases rule <;>
    simp [openings, Forest.tokensOfKind_arrange, Forest.tokensOfKind_map_arranged]

theorem flatMap_filter_isNode {f : Tree → List α} (hf : ∀ t, f (leaf t) = []) (ts : Forest) :
    (ts.filter isNode).flatMap f = ts.flatMap f := by
  induction ts with
  | nil => rfl
  | cons t ts ih =>
    cases t with
    | leaf t => simpa [isNode, rule?, hf] using ih
    | node rule parts repaired =>
      rw [List.filter_cons_of_pos rfl, List.flatMap_cons, List.flatMap_cons, ih]

theorem Steady.openingsAt_arranged (h : Steady t) (n : Nat) :
    t.arranged.openingsAt n = t.openingsAt n := by
  induction h generalizing n with
  | leaf => rfl
  | @node ts rule repaired _ horder ih =>
    have hforest : ∀ n, forestOpeningsAt n (Forest.arrange (ts.map arranged)) =
        forestOpeningsAt n ts := by
      intro n
      have hleaves : ∀ us : Forest, (us.filter isNode).flatMap (fun t => t.arranged.openingsAt n) =
          us.flatMap fun t => t.arranged.openingsAt n := flatMap_filter_isNode (openingsAt_leaf n)
      calc forestOpeningsAt n (Forest.arrange (ts.map arranged))
          = (Forest.arrange ts).flatMap fun t => t.arranged.openingsAt n := by
            rw [Forest.arrange_map slot_arranged, forestOpeningsAt_eq_flatMap, List.flatMap_map]
        _ = ts.flatMap fun t => t.arranged.openingsAt n := by rw [← hleaves, horder, hleaves]
        _ = forestOpeningsAt n ts := by
            rw [forestOpeningsAt_eq_flatMap]
            exact List.flatMap_congr fun t ht => ih t ht n
    rw [arranged, arrangedForest_eq_map, ofChildren]
    by_cases hopen : openings rule ts = []
    · rw [openingsAt_node hopen, openingsAt_node (by rwa [openings_arranged]), hforest]
    · have hopen' : openings rule (Forest.arrange (ts.map arranged)) ≠ [] := by
        rwa [openings_arranged]
      cases n with
      | zero => rw [openingsAt_group_zero hopen, openingsAt_group_zero hopen', openings_arranged]
      | succ n => rw [openingsAt_group_succ hopen, openingsAt_group_succ hopen', hforest]

-- ---------------------------------------------------------------------------
-- Paths
-- ---------------------------------------------------------------------------

inductive Path : Tree → List Tree → Tree → Prop
  | here : Path t [t] t
  | down : u ∈ t.children → Path u path v → Path t (t :: path) v

theorem mem_children_arranged {t : Tree} :
    u ∈ t.arranged.children ↔ ∃ v ∈ t.children, v.arranged = u := by
  cases t with
  | leaf => simp [arranged, children]
  | node => simp [arranged, ofChildren, children, Forest.mem_arrange, arrangedForest_eq_map]

theorem Path.arranged (h : Path t path u) :
    Path t.arranged (path.map Tree.arranged) u.arranged := by
  induction h with
  | here => exact .here
  | down hu _ ih => exact .down (mem_children_arranged.mpr ⟨_, hu, rfl⟩) ih

theorem Path.exists_of_arranged (h : Path t.arranged path u) :
    ∃ path' u', Path t path' u' ∧ path'.map Tree.arranged = path ∧ u'.arranged = u := by
  generalize ht : t.arranged = t' at h
  induction h generalizing t with
  | here => exact ⟨[t], t, .here, by rw [List.map_singleton, ht], ht⟩
  | down hu _ ih =>
    subst ht
    obtain ⟨v, hv, rfl⟩ := mem_children_arranged.mp hu
    obtain ⟨path', u', hpath, rfl, rfl⟩ := ih rfl
    exact ⟨_, u', .down hv hpath, rfl, rfl⟩

-- ---------------------------------------------------------------------------
-- Groups that are not closed
-- ---------------------------------------------------------------------------

def Unclosed : Tree → Prop
  | .leaf _ => False
  | .node rule parts _ => openings rule parts ≠ [] ∧ Forest.tokensOfKind parts .closeParen = []

theorem unclosed_arranged_iff {t : Tree} : t.arranged.Unclosed ↔ t.Unclosed := by
  cases t with
  | leaf => rfl
  | node rule parts =>
    simp only [arranged, ofChildren, Unclosed, arrangedForest_eq_map, openings_arranged,
      Forest.tokensOfKind_arrange, Forest.tokensOfKind_map_arranged]

theorem Unclosed.rule?_eq {t : Tree} (h : t.Unclosed) : t.rule? = some .factor := by
  cases t with
  | leaf => cases h
  | node rule =>
    cases rule with
    | factor => rfl
    | _ => exact absurd rfl h.1

/-- The way to an unclosed group ends at the root or goes on in a part that is a node. -/
theorem Path.cases_of_unclosed (h : Path t path u) (hu : u.Unclosed) :
    path = [t] ∧ u = t ∨
      ∃ v ∈ t.children, v.isNode = true ∧ ∃ below, path = t :: below ∧ Path v below u := by
  cases h with
  | here => exact .inl ⟨rfl, rfl⟩
  | @down v _ _ _ hv hbelow =>
    refine .inr ⟨v, hv, ?_, _, rfl, hbelow⟩
    cases hbelow with
    | here => rw [isNode, hu.rule?_eq, Option.isSome_some]
    | down hv' =>
      cases v with
      | leaf => cases hv'
      | node => rfl

theorem Path.exists_of_unclosed (h : Path (.node rule parts repaired) path u) (hu : u.Unclosed)
    (hrule : rule ≠ .factor) : ∃ v ∈ parts, v.isNode = true ∧
      ∃ below, path = .node rule parts repaired :: below ∧ Path v below u := by
  rcases h.cases_of_unclosed hu with ⟨-, rfl⟩ | h
  · exact absurd (Option.some.inj hu.rule?_eq) hrule
  · exact h

end Tree

end FormulaCheck
