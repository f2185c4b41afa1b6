import FormulaCheck.Proofs.Parse.Limit

/-!
# Trees of a parse are well formed

Whatever its tokens are, a parse gives a tree whose nodes have the parts that their rules ask for
(`wellFormed_of_parse`). What is repaired is confined to factors: a factor may be empty, or a group
without its closing parenthesis, and is marked then. A mark anywhere means that there is a fault.
-/

namespace FormulaCheck

-- ---------------------------------------------------------------------------
-- What the rules ask for
-- ---------------------------------------------------------------------------

structure Repeats (operators : List Token.Kind) (operand : Rule) (slots : List Slot) : Prop where
  operand_or_operator : ∀ s ∈ slots, s = .rule operand ∨ ∃ k ∈ operators, s = .token k
  count_eq : slots.count (.rule operand) = slots.countP (· != .rule operand)

/-- What a rule asks of a node: whether it may be marked as repaired, and the slots of its parts. -/
def Rule.Allows : Rule → Bool → List Slot → Prop
  | .statement, false, slots => slots = [.rule .assignment] ∨ slots = [.rule .expression]
  | .assignment, false, slots => slots = [.token .name, .token .equals, .rule .expression]
  | .expression, false, slots => slots = [.rule .term, .rule .expressionTail]
  | .expressionTail, false, slots => Repeats [.plus, .minus] .term slots
  | .term, false, slots => slots = [.rule .factor, .rule .termTail]
  | .termTail, false, slots => Repeats [.times, .divide] .factor slots
  | .factor, false, slots => slots = [.token .number] ∨ slots = [.token .name] ∨
      slots = [.token .openParen, .rule .expression, .token .closeParen]
  | .factor, true, slots => slots = [] ∨ slots = [.token .openParen, .rule .expression]
  | _, true, _ => False

inductive Tree.WellFormed : Tree → Prop
  | leaf : WellFormed (.leaf t)
  | node : rule.Allows repaired (parts.map slot) → (∀ t ∈ parts, WellFormed t) →
      WellFormed (.node rule parts repaired)

namespace Repeats

variable {operators : List Token.Kind} {operand : Rule} {slots slots' : List Slot}

theorem nil : Repeats operators operand [] := ⟨nofun, rfl⟩

theorem cons (hk : k ∈ operators) (h : Repeats operators operand slots) :
    Repeats operators operand (.token k :: .rule operand :: slots) := by
  refine ⟨?_, ?_⟩
  · simpa [hk] using h.operand_or_operator
  · simpa using h.count_eq

theorem perm (h : Repeats operators operand slots) (hperm : slots.Perm slots') :
    Repeats operators operand slots' where
  operand_or_operator s hs := h.operand_or_operator s (hperm.symm.subset hs)
  count_eq := by rw [← hperm.count_eq, ← hperm.countP_eq, h.count_eq]

end Repeats

-- ---------------------------------------------------------------------------
-- Parts that are stored
-- ---------------------------------------------------------------------------

namespace Tree

theorem map_slot_arranged (parts : Forest) : (parts.map arranged).map slot = parts.map slot := by
  simp [slot_arranged]

theorem wellFormed_arranged_iff : (node rule parts repaired).arranged.WellFormed ↔
    rule.Allows repaired ((Forest.arrange parts).map slot) ∧
      ∀ t ∈ parts, t.arranged.WellFormed := by
  rw [arranged, ofChildren, arrangedForest_eq_map, Forest.arrange_map slot_arranged]
  constructor
  · rintro (_ | ⟨hallows, hparts⟩)
    rw [map_slot_arranged] at hallows
    exact ⟨hallows, fun t ht => hparts _ (List.mem_map_of_mem (Forest.mem_arrange.mpr ht))⟩
  · rintro ⟨hallows, hparts⟩
    refine .node (by rwa [map_slot_arranged]) fun u hu => ?_
    obtain ⟨t, ht, rfl⟩ := List.mem_map.mp hu
    exact hparts t (Forest.mem_arrange.mp ht)

theorem wellFormed_arranged_of_nodup (hslots : parts.map slot = slots) (hnodup : slots.Nodup)
    (hallows : rule.Allows repaired slots) (hparts : ∀ t ∈ parts, t.arranged.WellFormed) :
    (node rule parts repaired).arranged.WellFormed := by
  subst hslots
  exact wellFormed_arranged_iff.mpr ⟨by rwa [Forest.arrange_of_nodup hnodup], hparts⟩

theorem forestIsRepaired_eq_any (ts : Forest) : forestIsRepaired ts = ts.any isRepaired := by
  induction ts with
  | nil => rfl
  | cons t ts ih => rw [forestIsRepaired, ih, List.any_cons]

mutual

theorem isRepaired_arranged : (t : Tree) → t.arranged.isRepaired = t.isRepaired
  | .leaf _ => rfl
  | .node rule parts repaired => by
    rw [arranged, ofChildren, isRepaired, isRepaired, ← forestIsRepaired_arranged parts,
      forestIsRepaired_eq_any, forestIsRepaired_eq_any, (Forest.arrange_perm _).any_eq]

theorem forestIsRepaired_arranged : (ts : Forest) →
    forestIsRepaired (arrangedForest ts) = forestIsRepaired ts
  | [] => rfl
  | t :: ts => by
    rw [arrangedForest, forestIsRepaired, forestIsRepaired, isRepaired_arranged t,
      forestIsRepaired_arranged ts]

end

end Tree

-- ---------------------------------------------------------------------------
-- What is read
-- ---------------------------------------------------------------------------

namespace Parse

def Layer.operators : Layer → List Token.Kind
  | .sum => [.plus, .minus]
  | .product => [.times, .divide]

theorem Layer.mem_operators_iff {layer : Layer} :
    k ∈ layer.operators ↔ layer.isOperator k = true := by
  cases layer <;> simp [operators, isOperator, isTermOperator, isFactorOperator]

theorem allows_chain (layer : Layer) :
    layer.rule.Allows false [.rule layer.operand.rule, .rule layer.tailRule] := by
  cases layer <;> rfl

theorem allows_tail_iff {layer : Layer} : layer.tailRule.Allows false slots ↔
    Repeats layer.operators layer.operand.rule slots := by
  cases layer <;> rfl

theorem allows_symbol (hk : k.isSymbol = true) : Rule.factor.Allows false [.token k] := by
  cases k with
  | number => exact .inl rfl
  | name => exact .inr (.inl rfl)
  | _ => cases hk

theorem Closes.wellFormed (h : Closes opening content s d s') (hk : opening.kind = .openParen)
    (hslot : content.slot = .rule .expression) (hcontent : content.arranged.WellFormed) :
    d.arranged.WellFormed := by
  cases h with
  | closed _ hclose | junk _ _ hclose =>
    refine Tree.wellFormed_arranged_of_nodup ?_ (by decide) (.inr (.inr rfl)) ?_
    · simp only [List.map_cons, Tree.slot_leaf, hk, hslot, hclose, List.map_nil]
    · simpa using ⟨.leaf, hcontent, .leaf⟩
  | assumed =>
    refine Tree.wellFormed_arranged_of_nodup ?_ (by decide) (.inr rfl) ?_
    · simp only [List.map_cons, Tree.slot_leaf, hk, hslot, List.map_nil]
    · simpa using ⟨.leaf, hcontent⟩

theorem Reads.wellFormed (h : Reads n part s d s') : d.arranged.WellFormed := by
  induction h with
  | @chain _ _ _ _ layer _ _ hfirst hmore ihFirst ihMore =>
    refine Tree.wellFormed_arranged_of_nodup ?_ ?_ (allows_chain layer) ?_
    · simp only [List.map_cons, hfirst.slot_eq, hmore.slot_eq, Part.rule, List.map_nil]
    · simpa [Part.rule] using layer.rule_operand_ne_rule_tail
    · simpa using ⟨ihFirst, ihMore⟩
  | tailEnd => exact Tree.wellFormed_arranged_iff.mpr ⟨allows_tail_iff.mpr .nil, List.forall_mem_nil _⟩
  | @tailMore op _ _ _ _ _ _ _ _ _ hop hoperand _ ihOperand ihMore =>
    obtain ⟨hallows, hparts⟩ := Tree.wellFormed_arranged_iff.mp ihMore
    -- in text order the operator and its operand come in front of the others
    have hmore := (allows_tail_iff.mp hallows).perm ((Forest.arrange_perm _).map Tree.slot)
    have hall := hmore.cons (Layer.mem_operators_iff.mpr hop)
    refine Tree.wellFormed_arranged_iff.mpr ⟨allows_tail_iff.mpr ?_, ?_⟩
    · refine hall.perm ?_
      rw [← hoperand.slot_eq]
      exact ((Forest.arrange_perm (.leaf op :: _ :: _)).map Tree.slot).symm
    · simpa using ⟨.leaf, ihOperand, hparts⟩
  | symbol _ hk =>
    refine Tree.wellFormed_arranged_of_nodup rfl (List.pairwise_singleton ..) (allows_symbol hk) ?_
    simpa using .leaf
  | group _ hk hcontent hclose ih => exact hclose.wellFormed hk hcontent.slot_eq ih
  | stray _ _ _ ih => exact ih
  | empty => exact Tree.wellFormed_arranged_of_nodup rfl .nil (.inl rfl) (List.forall_mem_nil _)

theorem ReadsStatement.wellFormed (h : ReadsStatement n s d s') :
    d.arranged.rule? = some .statement ∧ d.arranged.WellFormed := by
  cases h with
  | assigned _ ht he hvalue =>
    refine ⟨rfl, Tree.wellFormed_arranged_of_nodup rfl (List.pairwise_singleton ..) (.inl rfl) ?_⟩
    refine List.forall_mem_singleton.mpr (Tree.wellFormed_arranged_of_nodup ?_ ?_ rfl ?_)
    · simp only [List.map_cons, Tree.slot_leaf, ht, he, hvalue.slot_eq, List.map_nil]
      rfl
    · decide
    · simpa using ⟨.leaf, .leaf, hvalue.wellFormed⟩
  | plain _ hvalue =>
    refine ⟨rfl, Tree.wellFormed_arranged_of_nodup ?_ (List.pairwise_singleton ..) (.inr rfl) ?_⟩
    · simp only [List.map_cons, hvalue.slot_eq, List.map_nil]
      rfl
    · exact List.forall_mem_singleton.mpr hvalue.wellFormed

end Parse

-- ---------------------------------------------------------------------------
-- Marks
-- ---------------------------------------------------------------------------

attribute [local simp] Tree.isRepaired Tree.forestIsRepaired in
theorem Derivation.isRepaired_eq_false (h : Derivation r ts d) : d.isRepaired = false := by
  induction h <;> simp_all

open Parse

/-- A parse gives the tree of a statement, in which every node is as its rule asks. A node of it is
marked as repaired only if there is a fault. -/
theorem wellFormed_of_parse (h : parse limit tokens = .ok p) :
    p.tree.rule? = some .statement ∧ p.tree.WellFormed ∧
      (p.tree.isRepaired = true → p.faults ≠ []) := by
  obtain ⟨tree, faults⟩ := p
  obtain ⟨d, s, hreads, rfl, hfaults⟩ := parse_ok_iff.mp h
  obtain ⟨hroot, htree⟩ := hreads.wellFormed
  refine ⟨hroot, htree, ?_⟩
  rintro hrepaired rfl
  obtain ⟨e, he, -, harranged⟩ := parse_faultless_iff.mp h
  dsimp only at hrepaired
  rw [← harranged, Tree.isRepaired_arranged, he.isRepaired_eq_false] at hrepaired
  cases hrepaired

/-- The tokens of `() * (a`. -/
def emptyTimesUnclosed : List Token :=
  [.ofLexeme .openParen ['('] ⟨1, 1⟩, .ofLexeme .closeParen [')'] ⟨1, 2⟩,
    .ofLexeme .times ['*'] ⟨1, 4⟩, .ofLexeme .openParen ['('] ⟨1, 6⟩,
    .ofLexeme .name ['a'] ⟨1, 7⟩]

/-- The first group has an empty factor in it, and the second one is not closed. -/
theorem wellFormed_of_parse_emptyTimesUnclosed :
    ∃ p, parse 256 emptyTimesUnclosed = .ok p ∧ p.tree.isRepaired = true ∧
      p.tree.rule? = some .statement ∧ p.tree.WellFormed ∧ p.faults ≠ [] := by
  have hreads : ReadsStatement 256 ⟨emptyTimesUnclosed, [], false⟩ _ _ :=
    have hmissing := .chain (.chain (.empty rfl rfl) (.tailEnd rfl)) (.tailEnd rfl)
    have hname := .chain (.chain (.symbol rfl rfl) (.tailEnd rfl)) (.tailEnd rfl)
    have hfirst := .group rfl rfl hmissing (.closed rfl rfl)
    have hsecond := .group rfl rfl hname (.assumed (by decide) (by decide))
    .plain rfl (.chain (.chain hfirst (.tailMore rfl rfl hsecond (.tailEnd rfl))) (.tailEnd rfl))
  have hparse := parse_ok_iff.mpr ⟨_, _, hreads, rfl, rfl⟩
  obtain ⟨hroot, htree, hfaults⟩ := wellFormed_of_parse hparse
  exact ⟨_, hparse, (Tree.isRepaired_arranged _).trans rfl, hroot, htree,
    hfaults ((Tree.isRepaired_arranged _).trans rfl)⟩

end FormulaCheck
