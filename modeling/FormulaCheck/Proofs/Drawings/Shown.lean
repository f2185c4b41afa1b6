import FormulaCheck.Proofs.Drawings.Items

/-!
# What an outline shows of a derivation

`Tree.shown` is what an outline shows of a tree in text order once its parts are in slot order. Of a
chain it shows the first operand and then, from the tail, the operators of one kind, the other
operands, and the operators of the other kind (`Derivation.arrange_tail`): the slots of a tail are
told, and its first operator, but not where the second kind stands among the first. The parts of all
other nodes have a slot each and are shown in text order.
-/

namespace FormulaCheck

open Outline Parse

-- ---------------------------------------------------------------------------
-- Tokens
-- ---------------------------------------------------------------------------

theorem Token.unplaced_eq_iff {t u : Token} : t.unplaced = u.unplaced ↔ t.lexeme = u.lexeme := by
  simp [unplaced, lexeme]

theorem Token.kind_eq_of_lexeme {t u : Token} (h : t.lexeme = u.lexeme) : u.kind = t.kind :=
  (congrArg Prod.fst h).symm

theorem map_unplaced_eq_iff {ts us : List Token} :
    ts.map Token.unplaced = us.map Token.unplaced ↔ ts.map Token.lexeme = us.map Token.lexeme := by
  rw [← List.forall₂_eq_eq_eq, List.forall₂_map_left_iff, List.forall₂_map_right_iff,
    ← List.forall₂_eq_eq_eq, List.forall₂_map_left_iff, List.forall₂_map_right_iff]
  simp only [Token.unplaced_eq_iff]

-- ---------------------------------------------------------------------------
-- Trees in text order
-- ---------------------------------------------------------------------------

/-- The slot that what an item is for takes. -/
def Outline.Item.slot : Item → Slot
  | .mk (.rule r) _ => .rule r
  | .mk (.token t) _ => .token t.kind

def Slot.isVisible : Slot → Bool
  | .rule r => !r.isPlumbing
  | .token _ => true

namespace Tree

/-- What an outline shows of a tree once its parts are in slot order. -/
def shown (t : Tree) : List Item := t.arranged.items

theorem shown_leaf (t : Token) : (leaf t).shown = [.mk (.token t.unplaced) []] := rfl

theorem forestItems_eq_flatMap (ts : Forest) : forestItems ts = ts.flatMap items := by
  induction ts with
  | nil => rfl
  | cons t ts ih => simp [forestItems, ih]

theorem shown_node (r : Rule) (parts : Forest) (repaired : Bool) :
    (node r parts repaired).shown =
      if r.isPlumbing then (Forest.arrange parts).flatMap shown
      else [.mk (.rule r) ((Forest.arrange parts).flatMap shown)] := by
  have hparts : forestItems (Forest.arrange (arrangedForest parts)) =
      (Forest.arrange parts).flatMap shown := by
    rw [forestItems_eq_flatMap, arrangedForest_eq_map, Forest.arrange_map slot_arranged,
      List.flatMap_map]
    rfl
  rw [shown, arranged, ofChildren, items, hparts]

theorem exists_shown {t : Tree} (h : t.slot.isVisible = true) :
    ∃ i, t.shown = [i] ∧ i.slot = t.slot := by
  cases t with
  | leaf t => exact ⟨_, rfl, rfl⟩
  | node r parts repaired =>
    have hr : r.isPlumbing = false := by simpa [slot, Slot.isVisible] using h
    exact ⟨_, by rw [shown_node, hr]; rfl, rfl⟩

end Tree

namespace Forest

theorem filter_shown {ts : Forest} (h : ∀ t ∈ ts, t.slot.isVisible = true) (s : Slot) :
    (ts.flatMap Tree.shown).filter (·.slot == s) = (inSlot ts s).flatMap Tree.shown := by
  induction ts with
  | nil => rfl
  | cons t ts ih =>
    obtain ⟨ht, hts⟩ := List.forall_mem_cons.mp h
    obtain ⟨i, hi, hslot⟩ := Tree.exists_shown ht
    have hmore := ih hts
    by_cases hs : t.slot = s <;> simp_all [inSlot]

theorem head?_shown {ts : Forest} (h : ∀ t ∈ ts, t.slot.isVisible = true) :
    (ts.flatMap Tree.shown).head?.map Item.slot = ts.head?.map Tree.slot := by
  cases ts with
  | nil => rfl
  | cons t ts =>
    obtain ⟨i, hi, hslot⟩ := Tree.exists_shown (List.forall_mem_cons.mp h).1
    simp [hi, hslot]

def tokens (ts : Forest) : List Token := ts.filterMap Tree.token?

@[simp] theorem tokens_nil : tokens [] = [] := rfl

@[simp] theorem tokens_leaf_cons (t : Token) (ts : Forest) :
    tokens (.leaf t :: ts) = t :: tokens ts := rfl

@[simp] theorem tokens_node_cons (r : Rule) (parts : Forest) (repaired : Bool) (ts : Forest) :
    tokens (.node r parts repaired :: ts) = tokens ts := rfl

theorem inSlot_token (ts : Forest) (k : Token.Kind) :
    inSlot ts (.token k) = ((tokens ts).filter (·.kind == k)).map .leaf := by
  induction ts with
  | nil => rfl
  | cons t ts ih =>
    cases t with
    | leaf t => by_cases hk : t.kind = k <;> simp_all [inSlot, Tree.slot]
    | node => simp_all [inSlot, Tree.slot]

theorem shown_inSlot_token_eq_iff {ts us : Forest} {k : Token.Kind} :
    (inSlot ts (.token k)).flatMap Tree.shown = (inSlot us (.token k)).flatMap Tree.shown ↔
      ((tokens ts).filter (·.kind == k)).map Token.lexeme =
        ((tokens us).filter (·.kind == k)).map Token.lexeme := by
  have hshown : ∀ ts : List Token, (ts.map Tree.leaf).flatMap Tree.shown =
      (ts.map Token.unplaced).map fun t => .mk (.token t) [] := fun ts => by
    rw [List.flatMap_map, List.map_map, ← List.flatMap_pure_eq_map]
    rfl
  have hinj : Function.Injective fun t => Item.mk (.token t) [] := fun t u h => by
    cases h
    rfl
  rw [inSlot_token, inSlot_token, hshown, hshown, ← map_unplaced_eq_iff,
    (List.map_injective_iff.mpr hinj).eq_iff]

end Forest

-- ---------------------------------------------------------------------------
-- Tails
-- ---------------------------------------------------------------------------

theorem Parse.Layer.exists_other {layer : Layer} (h : layer.isOperator k = true) :
    ∃ k', k' ≠ k ∧ ∀ l, layer.isOperator l = true → l = k ∨ l = k' := by
  cases layer <;> cases k <;> simp [isOperator, isTermOperator, isFactorOperator] at h ⊢

theorem Parse.Layer.operand_rule_ne (layer : Layer) : layer.operand.rule ≠ layer.tailRule := by
  cases layer <;> decide

namespace Derivation

variable {layer : Layer}

theorem slot_of_mem_tail (h : Derivation layer.tailRule ts (.node layer.tailRule ds false)) :
    ∀ t ∈ ds, t.slot = .rule layer.operand.rule ∨
      ∃ k, layer.isOperator k = true ∧ t.slot = .token k := by
  match h.tail_cases with
  | .inl ⟨_, hds⟩ => simp [hds]
  | .inr ⟨op, _, _, e, es, hop, _, hds, he, hmore⟩ =>
    subst hds
    refine List.forall_mem_cons.mpr ⟨.inr ⟨_, hop, rfl⟩, ?_⟩
    exact List.forall_mem_cons.mpr ⟨.inl he.slot_eq, hmore.slot_of_mem_tail⟩
termination_by ds.length

theorem isVisible_of_mem_tail (h : Derivation layer.tailRule ts (.node layer.tailRule ds false)) :
    ∀ t ∈ ds, t.slot.isVisible = true := by
  intro t ht
  rcases h.slot_of_mem_tail t ht with hslot | ⟨k, -, hslot⟩
  · rw [hslot]
    cases layer <;> rfl
  · rw [hslot]
    rfl

theorem head?_tail (h : Derivation layer.tailRule ts (.node layer.tailRule ds false)) :
    ds.head?.map Tree.slot = ((Forest.tokens ds).head?.map Token.kind).map Slot.token := by
  rcases h.tail_cases with ⟨-, rfl⟩ | ⟨op, first, more, e, es, hop, -, rfl, -, -⟩ <;> rfl

/-- A tail is stored as the operators of one kind, the operands, and the other operators. -/
theorem arrange_tail (h : Derivation layer.tailRule ts (.node layer.tailRule ds false))
    (hfirst : ds.head?.map Tree.slot = some (.token k)) (hk : k' ≠ k)
    (hkinds : ∀ l, layer.isOperator l = true → l = k ∨ l = k') : Forest.arrange ds =
      [.token k, .rule layer.operand.rule, .token k'].flatMap (Forest.inSlot ds) := by
  rcases h.tail_cases with ⟨-, rfl⟩ | ⟨op, first, more, e, es, hop, -, rfl, he, hmore⟩
  · cases hfirst
  · cases hfirst
    rw [← he.slot_eq]
    refine Forest.arrange_cons_cons ?_ ?_ ?_ fun x hx => ?_
    · rw [he.slot_eq]
      exact nofun
    · simpa [Tree.slot] using hk
    · simp [he.slot_eq]
    · rcases hmore.slot_of_mem_tail x hx with hx | ⟨l, hl, hx⟩
      · exact .inr (.inl (hx.trans he.slot_eq.symm))
      · rcases hkinds l hl with rfl | rfl
        · exact .inl hx
        · exact .inr (.inr hx)

theorem shown_tail (layer : Layer) (ds : Forest) :
    (Tree.node layer.tailRule ds false).shown = (Forest.arrange ds).flatMap Tree.shown := by
  rw [Tree.shown_node]
  cases layer <;> rfl

-- ---------------------------------------------------------------------------
-- Other nodes
-- ---------------------------------------------------------------------------

theorem exists_shown (h : Derivation layer.operand.rule ts d) :
    ∃ i, d.shown = [i] ∧ i.slot = .rule layer.operand.rule := by
  rw [← h.slot_eq]
  exact Tree.exists_shown (by rw [h.slot_eq]; cases layer <;> rfl)

theorem shown_chain (he : Derivation layer.operand.rule ts e) (es : Forest) :
    (Tree.node layer.rule [e, .node layer.tailRule es false] false).shown =
      [.mk (.rule layer.rule) (e.shown ++ (Tree.node layer.tailRule es false).shown)] := by
  have harrange : Forest.arrange [e, .node layer.tailRule es false] =
      [e, .node layer.tailRule es false] :=
    Forest.arrange_of_nodup (by simp [he.slot_eq, layer.operand_rule_ne])
  have hrule : layer.rule.isPlumbing = false := by cases layer <;> rfl
  simp [Tree.shown_node, hrule, harrange]

theorem shown_symbol (t : Token) : (Tree.node .factor [.leaf t] false).shown =
    [.mk (.rule .factor) [.mk (.token t.unplaced) []]] := by
  simp [Tree.shown_node, Forest.arrange_singleton, Tree.shown_leaf, Rule.isPlumbing]

theorem shown_group (ho : opening.kind = .openParen) (hc : closing.kind = .closeParen)
    (hd : Derivation .expression ts d) :
    (Tree.node .factor [.leaf opening, d, .leaf closing] false).shown =
      [.mk (.rule .factor)
        (.mk (.token opening.unplaced) [] :: (d.shown ++ [.mk (.token closing.unplaced) []]))] := by
  have harrange : Forest.arrange [.leaf opening, d, .leaf closing] =
      [.leaf opening, d, .leaf closing] :=
    Forest.arrange_of_nodup (by simp [hd.slot_eq, ho, hc])
  rw [Tree.shown_node, harrange]
  rfl

theorem shown_assignment (ht : target.kind = .name) (he : equals.kind = .equals)
    (hd : Derivation .expression ts d) :
    (Tree.node .assignment [.leaf target, .leaf equals, d] false).shown =
      [.mk (.rule .assignment)
        (.mk (.token target.unplaced) [] :: .mk (.token equals.unplaced) [] :: d.shown)] := by
  have harrange : Forest.arrange [.leaf target, .leaf equals, d] =
      [.leaf target, .leaf equals, d] :=
    Forest.arrange_of_nodup (by simp [hd.slot_eq, ht, he])
  simp [Tree.shown_node, harrange, Tree.shown_leaf, Rule.isPlumbing]

theorem shown_statement (d : Tree) : (Tree.node .statement [d] false).shown = d.shown := by
  simp [Tree.shown_node, Forest.arrange_singleton, Rule.isPlumbing]

theorem shown_assignment_ne (ht : target.kind = .name) (hq : equals.kind = .equals)
    (hd : Derivation .expression ts d) (he : Derivation .expression us e) :
    (Tree.node .assignment [.leaf target, .leaf equals, d] false).shown ≠ e.shown := by
  intro hshown
  obtain ⟨i, hi, hslot⟩ := Tree.exists_shown (t := e) (by rw [he.slot_eq]; rfl)
  rw [shown_assignment ht hq hd, hi] at hshown
  cases hshown
  rw [he.slot_eq] at hslot
  cases hslot

end Derivation

end FormulaCheck
