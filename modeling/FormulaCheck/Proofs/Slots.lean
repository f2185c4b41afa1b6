import FormulaCheck.Proofs.Arrangement
import Mathlib.Data.List.Induction
import Mathlib.Data.List.Nodup

/-!
# Slots hold a stable partition

`Forest.put` is how the slots of a node grow: one more part goes behind the others in its slot, or
into a new slot behind the others. The slots that some parts fill are what putting them in one by
one leads to (`Forest.slots_eq_foldl`), and they divide the parts among them without a loss and
without a change of order (`Forest.stablePartition_slots`). The stored children of a node show the
same slots again (`Forest.slots_arrange`).
-/

namespace FormulaCheck

/-- The slots divide the parts: every slot that a part takes is there once, in the order in which
the parts take them first, with the parts that take it in the order in which they came. -/
structure StablePartition (parts : Forest) (slots : List (Slot × Forest)) : Prop where
  mem_keys_iff : ∀ s, s ∈ slots.map Prod.fst ↔ s ∈ parts.map Tree.slot
  ordered : (slots.map Prod.fst).Pairwise fun s s' =>
    (parts.map Tree.slot).idxOf s < (parts.map Tree.slot).idxOf s'
  holds : ∀ entry ∈ slots, entry.2 = parts.filter fun t => t.slot = entry.1
  filled : ∀ entry ∈ slots, entry.2 ≠ []
  own : ∀ entry ∈ slots, ∀ t ∈ entry.2, t.slot = entry.1
  perm : (slots.flatMap Prod.snd).Perm parts

namespace Forest

-- ---------------------------------------------------------------------------
-- One more part
-- ---------------------------------------------------------------------------

/-- The slots after one more part, which goes behind the others in its slot. -/
def put : List (Slot × Forest) → Tree → List (Slot × Forest)
  | [], t => [(t.slot, [t])]
  | (s, ts) :: slots, t =>
    if t.slot = s then (s, ts ++ [t]) :: slots else (s, ts) :: put slots t

variable {order : List Slot} {trees : Forest} {t : Tree}

theorem mem_slotOrder : s ∈ slotOrder trees ↔ s ∈ trees.map Tree.slot := List.mem_eraseDups

theorem slotOrder_concat (trees : Forest) (t : Tree) : slotOrder (trees ++ [t]) =
    slotOrder trees ++ if t.slot ∈ slotOrder trees then [] else [t.slot] := by
  rw [slotOrder, List.map_append, List.eraseDups_append, ← slotOrder, List.map_singleton,
    List.removeAll, List.filter_singleton, List.elem_eq_mem]
  by_cases h : t.slot ∈ trees.map Tree.slot
  · rw [if_pos (mem_slotOrder.mpr h), decide_eq_true h]
    rfl
  · rw [if_neg (mt mem_slotOrder.mp h), decide_eq_false h]
    rfl

theorem inSlot_concat (trees : Forest) (t : Tree) (s : Slot) :
    inSlot (trees ++ [t]) s = inSlot trees s ++ if t.slot = s then [t] else [] := by
  by_cases h : t.slot = s <;> simp [inSlot, h]

theorem put_of_mem (hnodup : order.Nodup) (h : t.slot ∈ order) :
    put (order.map fun s => (s, inSlot trees s)) t =
      order.map fun s => (s, inSlot (trees ++ [t]) s) := by
  induction order with
  | nil => exact absurd h List.not_mem_nil
  | cons s order ih =>
    obtain ⟨hs, hnodup⟩ := List.nodup_cons.mp hnodup
    by_cases hts : t.slot = s
    · have hrest : order.map (fun s => (s, inSlot (trees ++ [t]) s)) =
          order.map fun s => (s, inSlot trees s) := by
        refine List.map_congr_left fun s' hs' => ?_
        have hne : t.slot ≠ s' := by
          rintro rfl
          exact hs (hts ▸ hs')
        rw [inSlot_concat, if_neg hne, List.append_nil]
      rw [List.map_cons, List.map_cons, hrest, put, if_pos hts, inSlot_concat, if_pos hts]
    · rw [List.map_cons, List.map_cons, put, if_neg hts, inSlot_concat, if_neg hts,
        List.append_nil, ih hnodup ((List.mem_cons.mp h).resolve_left hts)]

theorem put_of_not_mem (h : t.slot ∉ order) :
    put (order.map fun s => (s, inSlot trees s)) t =
      order.map (fun s => (s, inSlot (trees ++ [t]) s)) ++ [(t.slot, [t])] := by
  induction order with
  | nil => rfl
  | cons s order ih =>
    obtain ⟨hs, horder⟩ := not_or.mp (mt List.mem_cons.mpr h)
    rw [List.map_cons, List.map_cons, List.cons_append, put, if_neg hs, ih horder, inSlot_concat,
      if_neg hs, List.append_nil]

-- ---------------------------------------------------------------------------
-- The slots of some parts
-- ---------------------------------------------------------------------------

theorem slotOrder_ordered (trees : Forest) : (slotOrder trees).Pairwise fun s s' =>
    (trees.map Tree.slot).idxOf s < (trees.map Tree.slot).idxOf s' := by
  induction trees using List.reverseRecOn with
  | nil => exact .nil
  | append_singleton trees t ih =>
    have hidx : ∀ s ∈ slotOrder trees,
        ((trees ++ [t]).map Tree.slot).idxOf s = (trees.map Tree.slot).idxOf s := by
      intro s hs
      rw [List.map_append, List.idxOf_append_of_mem (mem_slotOrder.mp hs)]
    have hold : (slotOrder trees).Pairwise fun s s' =>
        ((trees ++ [t]).map Tree.slot).idxOf s < ((trees ++ [t]).map Tree.slot).idxOf s' :=
      ih.imp_of_mem fun hs hs' hlt => by rwa [hidx _ hs, hidx _ hs']
    rw [slotOrder_concat]
    by_cases ht : t.slot ∈ slotOrder trees
    · rwa [if_pos ht, List.append_nil]
    · rw [if_neg ht, List.pairwise_append]
      refine ⟨hold, List.pairwise_singleton .., fun s hs s' hs' => ?_⟩
      obtain rfl := List.mem_singleton.mp hs'
      rw [hidx s hs, List.map_append, List.idxOf_append_of_notMem (mt mem_slotOrder.mpr ht)]
      exact Nat.lt_add_right _ (List.idxOf_lt_length_of_mem (mem_slotOrder.mp hs))

theorem nodup_slotOrder (trees : Forest) : (slotOrder trees).Nodup :=
  (slotOrder_ordered trees).imp fun hlt => by
    rintro rfl
    exact Nat.lt_irrefl _ hlt

theorem slots_concat (trees : Forest) (t : Tree) : slots (trees ++ [t]) = put (slots trees) t := by
  rw [slots, slotOrder_concat, slots]
  by_cases h : t.slot ∈ slotOrder trees
  · rw [if_pos h, List.append_nil, put_of_mem (nodup_slotOrder trees) h]
  · have hnew : inSlot (trees ++ [t]) t.slot = [t] := by
      have hnone : inSlot trees t.slot = [] := by
        simpa [inSlot] using mt mem_slotOrder.mpr h
      rw [inSlot_concat, hnone, if_pos rfl, List.nil_append]
    rw [if_neg h, put_of_not_mem h, List.map_append, List.map_singleton, hnew]

theorem slots_eq_foldl (trees : Forest) : slots trees = trees.foldl put [] := by
  induction trees using List.reverseRecOn with
  | nil => rfl
  | append_singleton trees t ih =>
    rw [slots_concat, ih, List.foldl_append, List.foldl_cons, List.foldl_nil]

theorem map_fst_slots (trees : Forest) : (slots trees).map Prod.fst = slotOrder trees := by
  simp [slots, Function.comp_def]

theorem stablePartition_slots (trees : Forest) : StablePartition trees (slots trees) := by
  have hentry : ∀ entry ∈ slots trees,
      entry.1 ∈ trees.map Tree.slot ∧ entry.2 = trees.filter fun t => t.slot = entry.1 := by
    intro entry hmem
    obtain ⟨s, hs, rfl⟩ := List.mem_map.mp hmem
    exact ⟨mem_slotOrder.mp hs, List.filter_congr fun t _ => beq_eq_decide ..⟩
  refine ⟨fun s => ?_, ?_, fun entry hmem => (hentry entry hmem).2, fun entry hmem => ?_,
    fun entry hmem t ht => ?_, arrange_perm trees⟩
  · rw [map_fst_slots, mem_slotOrder]
  · exact (map_fst_slots trees).symm ▸ slotOrder_ordered trees
  · obtain ⟨hkey, hholds⟩ := hentry entry hmem
    obtain ⟨t, ht, hslot⟩ := List.mem_map.mp hkey
    rw [hholds]
    exact List.ne_nil_of_mem (List.mem_filter.mpr ⟨ht, decide_eq_true hslot⟩)
  · rw [(hentry entry hmem).2] at ht
    exact of_decide_eq_true (List.mem_filter.mp ht).2

-- ---------------------------------------------------------------------------
-- The stored children
-- ---------------------------------------------------------------------------

theorem slotOrder_arrange (trees : Forest) : slotOrder (arrange trees) = slotOrder trees := by
  cases trees with
  | nil => rfl
  | cons t ts =>
    have hlen : (ts.filter (·.slot != t.slot)).length ≤ ts.length := List.length_filter_le ..
    have ih := slotOrder_arrange (ts.filter (·.slot != t.slot))
    have hgone : (ts.filter (·.slot == t.slot)).filter (·.slot != t.slot) = [] := by simp
    have hkept : (arrange (ts.filter (·.slot != t.slot))).filter (·.slot != t.slot) =
        arrange (ts.filter (·.slot != t.slot)) :=
      List.filter_eq_self.mpr fun u hu => (List.mem_filter.mp (mem_arrange.mp hu)).2
    rw [arrange_cons, List.filter_cons_of_pos (by simp), List.cons_append, slotOrder_cons,
      List.filter_append, hgone, List.nil_append, hkept, ih, slotOrder_cons]
termination_by trees.length

theorem slots_arrange (trees : Forest) : slots (arrange trees) = slots trees := by
  simp only [slots, slotOrder_arrange, inSlot_arrange]

theorem nodesOfRule_arrange (trees : Forest) (r : Rule) :
    nodesOfRule (arrange trees) r = trees.filter fun t => t.rule? = some r := by
  rw [nodesOfRule, inSlot_arrange, inSlot, List.filter_filter]
  refine List.filter_congr fun t _ => ?_
  cases t <;> simp [Tree.isNode, Tree.rule?, beq_eq_decide]

theorem tokensOfKind_arrange_eq (trees : Forest) (k : Token.Kind) :
    tokensOfKind (arrange trees) k = (trees.filterMap Tree.token?).filter fun t => t.kind = k := by
  rw [tokensOfKind, inSlot_arrange, inSlot, List.filterMap_filter, List.filter_filterMap]
  refine List.filterMap_congr fun t _ => ?_
  cases t <;> simp [Tree.token?, Option.filter]

end Forest

/-- A node that takes some parts one by one keeps all of them. Its slots are a stable partition of
the parts, its children are read off slot by slot, and the look-ups find the uses of a rule and the
tokens of a kind in the order in which they came. -/
theorem slots_stablePartition (rule : Rule) (parts : Forest) (repaired : Bool) :
    let children := (Tree.ofChildren rule parts repaired).children
    Forest.slots children = parts.foldl Forest.put [] ∧
      children = (Forest.slots children).flatMap Prod.snd ∧
      StablePartition parts (Forest.slots children) ∧
      (∀ r, Forest.nodesOfRule children r = parts.filter fun t => t.rule? = some r) ∧
      ∀ k, Forest.tokensOfKind children k =
        (parts.filterMap Tree.token?).filter fun t => t.kind = k := by
  have hslots : Forest.slots (Forest.arrange parts) = Forest.slots parts :=
    Forest.slots_arrange parts
  refine ⟨hslots.trans (Forest.slots_eq_foldl parts), ?_, ?_, Forest.nodesOfRule_arrange parts,
    Forest.tokensOfKind_arrange_eq parts⟩
  · exact (congrArg (List.flatMap Prod.snd) hslots).symm
  · exact hslots.symm ▸ Forest.stablePartition_slots parts

/-- The second term comes behind the first one, in the slot that is filled second. -/
example :
    let plus : Tree := .leaf ⟨.plus, "+", 1, 3, 1, 3⟩
    let minus : Tree := .leaf ⟨.minus, "-", 1, 7, 1, 7⟩
    let first : Tree := .node .term [] false
    let second : Tree := .node .term [] true
    (Forest.slots [plus, first, minus, second]).map (fun entry => (entry.1, entry.2.length)) =
      [(.token .plus, 1), (.rule .term, 2), (.token .minus, 1)] := by
  decide

end FormulaCheck
