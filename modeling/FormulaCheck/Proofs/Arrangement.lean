import FormulaCheck.Tree

/-!
# Trees in text order and in slot order

The parts of a node come in the order of the text and are stored in slot order.
`Tree.arranged` stores the parts of every node of a tree in that way. Nothing is lost:
`Forest.arrange_perm` says it of the parts of a node, and `Tree.leaves_arranged_perm` of the tokens
of a tree. Nothing moves among the parts in one slot (`Forest.inSlot_arrange`). No two slots are
named alike (`Slot.label_injective`).
-/

namespace FormulaCheck

-- ---------------------------------------------------------------------------
-- Slots
-- ---------------------------------------------------------------------------

theorem Rule.ofLabel?_label (r : Rule) : ofLabel? r.label = some r := by
  cases r <;> rfl

theorem Rule.label_injective : Function.Injective Rule.label := fun r r' h =>
  Option.some.inj (by rw [← ofLabel?_label, h, ofLabel?_label])

theorem Token.Kind.find?_label (k : Token.Kind) : all.find? (·.label == k.label) = some k := by
  cases k <;> rfl

theorem Token.Kind.label_injective : Function.Injective Token.Kind.label := fun k k' h =>
  Option.some.inj (by rw [← find?_label, h, find?_label])

theorem Rule.label_ne_label (r : Rule) (k : Token.Kind) : r.label ≠ k.label := by
  cases r <;> cases k <;> decide

theorem Slot.label_injective : Function.Injective Slot.label := by
  intro s s' h
  cases s with
  | rule r =>
    cases s' with
    | rule r' => rw [Rule.label_injective h]
    | token k => exact absurd h (r.label_ne_label k)
  | token k =>
    cases s' with
    | rule r => exact absurd h.symm (r.label_ne_label k)
    | token k' => rw [Token.Kind.label_injective h]

@[simp] theorem Tree.slot_leaf (t : Token) : (leaf t).slot = .token t.kind := rfl

@[simp] theorem Tree.slot_node (r : Rule) (parts : Forest) (repaired : Bool) :
    (node r parts repaired).slot = .rule r := rfl

namespace Forest

theorem slotOrder_cons (t : Tree) (ts : Forest) :
    slotOrder (t :: ts) = t.slot :: slotOrder (ts.filter (·.slot != t.slot)) := by
  simp only [slotOrder, List.map_cons, List.eraseDups_cons, List.filter_map]
  rfl

/-- The first tree's slot comes first, and the trees of the other slots as if it were not there. -/
theorem arrange_cons (t : Tree) (ts : Forest) :
    arrange (t :: ts) =
      (t :: ts).filter (·.slot == t.slot) ++ arrange (ts.filter (·.slot != t.slot)) := by
  simp only [arrange, slots, slotOrder_cons, List.map_cons, List.flatMap_cons, inSlot]
  congr 1
  rw [List.flatMap_def, List.flatMap_def, List.map_map, List.map_map]
  congr 1
  apply List.map_congr_left
  intro s hs
  have hne : s ≠ t.slot := by
    obtain ⟨u, hu, rfl⟩ := List.mem_map.mp (List.mem_eraseDups.mp hs)
    simpa using (List.mem_filter.mp hu).2
  simp only [Function.comp_apply, List.filter_filter]
  rw [List.filter_cons_of_neg (by simpa using Ne.symm hne)]
  apply List.filter_congr
  intro u _
  by_cases hu : u.slot = s <;> simp [hu, hne]

theorem arrange_perm (trees : Forest) : (arrange trees).Perm trees := by
  match trees with
  | [] => exact .refl _
  | t :: ts =>
    have hlen : (ts.filter (·.slot != t.slot)).length ≤ ts.length := List.length_filter_le ..
    have ih := arrange_perm (ts.filter (·.slot != t.slot))
    rw [arrange_cons]
    refine (ih.append_left _).trans ?_
    simpa [bne] using List.filter_append_perm (·.slot == t.slot) (t :: ts)
termination_by trees.length

theorem mem_arrange {trees : Forest} : t ∈ arrange trees ↔ t ∈ trees := (arrange_perm trees).mem_iff

theorem inSlot_arrange (trees : Forest) (s : Slot) : inSlot (arrange trees) s = inSlot trees s := by
  match trees with
  | [] => rfl
  | t :: ts =>
    have hlen : (ts.filter (·.slot != t.slot)).length ≤ ts.length := List.length_filter_le ..
    have ih := inSlot_arrange (ts.filter (·.slot != t.slot)) s
    simp only [inSlot, List.filter_filter] at ih ⊢
    rw [arrange_cons, List.filter_append, ih, List.filter_filter]
    by_cases hs : t.slot = s
    · subst hs
      simp
    · have hne : ∀ u : Tree, (u.slot == s && u.slot != t.slot) = (u.slot == s) := fun u => by
        by_cases hu : u.slot = s <;> simp [hu, Ne.symm hs]
      have hnone : ∀ u : Tree, (u.slot == s && u.slot == t.slot) = false := fun u => by
        by_cases hu : u.slot = s <;> simp [hu, Ne.symm hs]
      simp [hs, hne, hnone]
termination_by trees.length

theorem head?_arrange (trees : Forest) : (arrange trees).head? = trees.head? := by
  cases trees with
  | nil => rfl
  | cons t ts => simp [arrange_cons]

theorem arrange_of_nodup (h : (List.map Tree.slot trees).Nodup) : arrange trees = trees := by
  induction trees with
  | nil => rfl
  | cons t ts ih =>
    obtain ⟨ht, hts⟩ := List.nodup_cons.mp h
    have hne : ∀ u ∈ ts, u.slot ≠ t.slot := fun u hu heq => ht (heq ▸ List.mem_map_of_mem hu)
    have hnone : ts.filter (·.slot == t.slot) = [] := by simpa using hne
    have hall : ts.filter (·.slot != t.slot) = ts := by simpa using hne
    rw [arrange_cons, List.filter_cons_of_pos (by simp), hnone, hall, ih hts]
    rfl

theorem arrange_append (hts : ∀ u ∈ ts, u.slot = t.slot) (hus : ∀ u ∈ us, u.slot ≠ t.slot) :
    arrange (t :: (ts ++ us)) = t :: (ts ++ arrange us) := by
  have hsame : ts.filter (·.slot == t.slot) = ts := by simpa using hts
  have hnone : us.filter (·.slot == t.slot) = [] := by simpa using hus
  have hgone : ts.filter (·.slot != t.slot) = [] := by simpa using hts
  have hall : us.filter (·.slot != t.slot) = us := by simpa using hus
  rw [arrange_cons, List.filter_cons_of_pos (by simp), List.filter_append, List.filter_append,
    hsame, hnone, hgone, hall, List.append_nil, List.nil_append, List.cons_append]

theorem arrange_arrange (trees : Forest) : arrange (arrange trees) = arrange trees := by
  match trees with
  | [] => rfl
  | t :: ts =>
    have hlen : (ts.filter (·.slot != t.slot)).length ≤ ts.length := List.length_filter_le ..
    have ih := arrange_arrange (ts.filter (·.slot != t.slot))
    have hsame : ∀ u ∈ ts.filter (·.slot == t.slot), u.slot = t.slot := by simp
    have hother : ∀ u ∈ arrange (ts.filter (·.slot != t.slot)), u.slot ≠ t.slot := by
      intro u hu
      simpa using (List.mem_filter.mp (mem_arrange.mp hu)).2
    rw [arrange_cons, List.filter_cons_of_pos (by simp), List.cons_append,
      arrange_append hsame hother, ih]
termination_by trees.length

theorem arrange_singleton (t : Tree) : arrange [t] = [t] := arrange_of_nodup (by simp)

theorem arrange_of_slot_eq (h : ∀ t ∈ trees, t.slot = s) : arrange trees = trees := by
  cases trees with
  | nil => rfl
  | cons t ts =>
    obtain ⟨rfl, hts⟩ := List.forall_mem_cons.mp h
    have hnone : ts.filter (·.slot != t.slot) = [] := by simpa using hts
    have hall : ts.filter (·.slot == t.slot) = ts := by simpa using hts
    rw [arrange_cons, hnone, List.filter_cons_of_pos (by simp), hall]
    simp [arrange, slots, slotOrder]

theorem arrange_cons_cons {t u : Tree} (htu : u.slot ≠ t.slot) (ht : s ≠ t.slot) (hu : s ≠ u.slot)
    (h : ∀ x ∈ trees, x.slot = t.slot ∨ x.slot = u.slot ∨ x.slot = s) :
    arrange (t :: u :: trees) = [t.slot, u.slot, s].flatMap (inSlot (t :: u :: trees)) := by
  have hrest : (u :: trees).filter (·.slot != t.slot) =
      u :: trees.filter (·.slot != t.slot) := List.filter_cons_of_pos (by simpa using htu)
  have hsecond : (u :: trees.filter (·.slot != t.slot)).filter (·.slot == u.slot) =
      inSlot (t :: u :: trees) u.slot := by
    have hne : (t.slot == u.slot) = false := by simpa using Ne.symm htu
    simp only [inSlot, List.filter_cons, hne, List.filter_filter, BEq.rfl, if_true,
      Bool.false_eq_true, if_false]
    refine congrArg (u :: ·) (List.filter_congr fun x _ => ?_)
    by_cases hx : x.slot = u.slot <;> simp [hx, htu]
  have hthird : (trees.filter (·.slot != t.slot)).filter (·.slot != u.slot) =
      inSlot (t :: u :: trees) s := by
    rw [List.filter_filter, inSlot, List.filter_cons_of_neg (by simpa using Ne.symm ht),
      List.filter_cons_of_neg (by simpa using Ne.symm hu)]
    refine List.filter_congr fun x hx => ?_
    rcases h x hx with hx | hx | hx <;> simp [hx, ht, hu, Ne.symm ht, Ne.symm hu]
  have hlast : arrange (inSlot (t :: u :: trees) s) = inSlot (t :: u :: trees) s :=
    arrange_of_slot_eq fun x hx => by simpa using (List.mem_filter.mp hx).2
  rw [arrange_cons, hrest, arrange_cons, hsecond, hthird, hlast]
  simp [inSlot]

theorem arrange_map {g : Tree → Tree} (hg : ∀ t, (g t).slot = t.slot) (ts : Forest) :
    arrange (ts.map g) = (arrange ts).map g := by
  have horder : slotOrder (ts.map g) = slotOrder ts := by
    rw [slotOrder, List.map_map, slotOrder]
    exact congrArg List.eraseDups (List.map_congr_left fun t _ => hg t)
  have hslot : ∀ s, inSlot (ts.map g) s = (inSlot ts s).map g := by
    intro s
    rw [inSlot, List.filter_map, inSlot]
    congr
    funext t
    simp [hg]
  simp [arrange, slots, horder, hslot, List.flatMap_map, List.map_flatMap]

end Forest

namespace Tree

mutual

/-- The tree with the parts of every node in slot order. -/
def arranged : Tree → Tree
  | .leaf token => .leaf token
  | .node rule parts repaired => ofChildren rule (arrangedForest parts) repaired

def arrangedForest : Forest → Forest
  | [] => []
  | t :: ts => arranged t :: arrangedForest ts

end

theorem slot_arranged (t : Tree) : t.arranged.slot = t.slot := by
  cases t <;> rfl

theorem arrangedForest_eq_map (ts : Forest) : arrangedForest ts = ts.map arranged := by
  induction ts with
  | nil => rfl
  | cons t ts ih => simp [arrangedForest, ih]

theorem forestLeaves_eq_flatMap (ts : Forest) : forestLeaves ts = ts.flatMap leaves := by
  induction ts with
  | nil => rfl
  | cons t ts ih => simp [forestLeaves, ih]

theorem leaves_ofChildren_perm (rule : Rule) (parts : Forest) (repaired : Bool) :
    (ofChildren rule parts repaired).leaves.Perm (forestLeaves parts) := by
  simp only [ofChildren, leaves, forestLeaves_eq_flatMap]
  exact (Forest.arrange_perm parts).flatMap_right leaves

mutual

theorem leaves_arranged_perm : (t : Tree) → t.arranged.leaves.Perm t.leaves
  | .leaf _ => .refl _
  | .node rule parts repaired =>
    (leaves_ofChildren_perm rule (arrangedForest parts) repaired).trans
      (forestLeaves_arranged_perm parts)

theorem forestLeaves_arranged_perm : (ts : Forest) →
    (forestLeaves (arrangedForest ts)).Perm (forestLeaves ts)
  | [] => .refl _
  | t :: ts => (leaves_arranged_perm t).append (forestLeaves_arranged_perm ts)

end

end Tree

end FormulaCheck
