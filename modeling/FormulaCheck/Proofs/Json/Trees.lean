import FormulaCheck.Proofs.Arrangement
import FormulaCheck.Proofs.Json.Structures

/-!
# The text of a tree tells the tree

Two trees that are built part by part have one JSON text only if they are one tree
(`Tree.render_toJson_inj`). The text is read back as the JSON value of the tree. In that value the
first name tells leaves from nodes, the names of the slots tell their order, and what stands in them
are the values of the parts.
-/

namespace FormulaCheck

theorem eq_of_map_eq {f : α → β} (h : List.map f xs = List.map f ys)
    (hf : ∀ x ∈ xs, ∀ y ∈ ys, f x = f y → x = y) : xs = ys := by
  induction xs generalizing ys with
  | nil => exact (List.map_eq_nil_iff.mp h.symm).symm
  | cons x xs ih =>
    obtain ⟨y, ys, rfl, hfirst, hmore⟩ := List.map_eq_cons_iff.mp h.symm
    rw [hf x (.head _) y (.head _) hfirst.symm,
      ih hmore.symm fun x hx y hy => hf x (.tail _ hx) y (.tail _ hy)]

namespace Tree

/-- A tree whose nodes were given their parts one after the other. -/
inductive Built : Tree → Prop
  | leaf : Built (.leaf t)
  | node : (∀ part ∈ parts, Built part) → Built (.ofChildren rule parts repaired)

-- ---------------------------------------------------------------------------
-- The JSON value of a node
-- ---------------------------------------------------------------------------

theorem forestToJson_eq_map (ts : Forest) :
    forestToJson ts = ts.map fun t => (t.slot, t.toJson) := by
  induction ts with
  | nil => rfl
  | cons t ts ih => rw [forestToJson, ih, List.map_cons]

def slotMember (filled : Slot × Forest) : String × Json :=
  (filled.1.label, .array (filled.2.map toJson))

theorem toJson_node (rule : Rule) (ts : Forest) (repaired : Bool) :
    (node rule ts repaired).toJson = .object
      (("name", .string rule.label) ::
       ("children", .object ((Forest.slots ts).map slotMember)) ::
       if repaired then [("recovered", .bool true)] else []) := by
  have hslot : ∀ s, ((ts.map fun t => (t.slot, t.toJson)).filter (·.1 == s)).map Prod.snd =
      (Forest.inSlot ts s).map toJson := by
    intro s
    simp [Forest.inSlot, List.filter_map, Function.comp_def]
  rw [toJson, nodeToJson, forestToJson_eq_map]
  simp only [hslot, Forest.slots, Forest.slotOrder, List.map_map]
  rfl

-- ---------------------------------------------------------------------------
-- The value tells the tree
-- ---------------------------------------------------------------------------

theorem toJson_leaf_ne_node (t : Token) (rule : Rule) (ts : Forest) (repaired : Bool) :
    (leaf t).toJson ≠ (node rule ts repaired).toJson := by
  rw [toJson_node, toJson, Token.toJson]
  simp

theorem mem_of_mem_slots (hfilled : filled ∈ Forest.slots ts) (ht : t ∈ filled.2) : t ∈ ts := by
  obtain ⟨s, -, rfl⟩ := List.mem_map.mp hfilled
  exact List.mem_of_mem_filter ht

theorem node_eq_of_toJson_eq (hparts : ∀ t ∈ ts, ∀ u ∈ us, t.toJson = u.toJson → t = u)
    (h : (node rule ts repaired).toJson = (node rule' us repaired').toJson) :
    rule = rule' ∧ Forest.arrange ts = Forest.arrange us ∧ repaired = repaired' := by
  rw [toJson_node, toJson_node] at h
  simp only [Json.object.injEq, List.cons.injEq, Prod.mk.injEq, Json.string.injEq, true_and] at h
  obtain ⟨hrule, hslots, hrepaired⟩ := h
  have heq : Forest.slots ts = Forest.slots us := by
    refine eq_of_map_eq hslots fun filled hfilled filled' hfilled' hmember => ?_
    simp only [slotMember, Prod.mk.injEq, Json.array.injEq] at hmember
    refine Prod.ext (Slot.label_injective hmember.1) (eq_of_map_eq hmember.2 ?_)
    exact fun t ht u hu => hparts t (mem_of_mem_slots hfilled ht) u (mem_of_mem_slots hfilled' hu)
  refine ⟨Rule.label_injective hrule, ?_, ?_⟩
  · rw [Forest.arrange, Forest.arrange, heq]
  · cases repaired <;> cases repaired' <;> simp_all

theorem Built.eq_of_toJson_eq (ht : Built t) (hu : Built u) (h : t.toJson = u.toJson) : t = u := by
  induction ht generalizing u with
  | @leaf t =>
    cases hu with
    | @leaf u =>
      have hread := u.ofJson?_toJson
      rw [toJson, toJson] at h
      rw [← h, t.ofJson?_toJson] at hread
      rw [Option.some.inj hread]
    | node => exact (toJson_leaf_ne_node _ _ _ _ h).elim
  | @node parts rule repaired hparts ih =>
    cases hu with
    | leaf => exact (toJson_leaf_ne_node _ _ _ _ h.symm).elim
    | @node parts' rule' repaired' hparts' =>
      have htell : ∀ t ∈ Forest.arrange parts, ∀ u ∈ Forest.arrange parts',
          t.toJson = u.toJson → t = u := fun t ht u hu =>
        ih t (Forest.mem_arrange.mp ht) (hparts' u (Forest.mem_arrange.mp hu))
      obtain ⟨rfl, harrange, rfl⟩ := node_eq_of_toJson_eq htell h
      rw [Forest.arrange_arrange, Forest.arrange_arrange] at harrange
      rw [ofChildren, ofChildren, harrange]

-- ---------------------------------------------------------------------------
-- The text tells the value
-- ---------------------------------------------------------------------------

theorem plain_node (h : ∀ t ∈ ts, Json.Plain n t.toJson) :
    Json.Plain (n + 3) (node rule ts repaired).toJson := by
  rw [toJson_node]
  refine .object ?_
  simp only [List.forall_mem_cons]
  refine ⟨.string, .object ?_, ?_⟩
  · rw [List.forall_mem_map]
    intro filled hfilled
    refine .array ?_
    rw [List.forall_mem_map]
    exact fun t ht => h t (mem_of_mem_slots hfilled ht)
  · cases repaired with
    | false => simp
    | true => simpa using .bool

mutual

theorem exists_plain : (t : Tree) → (∀ token ∈ t.leaves, token.InRange) →
    ∃ n, Json.Plain n t.toJson
  | .leaf t, h => ⟨1, (h t (by simp [leaves])).plain⟩
  | .node _ ts _, h => by
    obtain ⟨n, hn⟩ := exists_plain_forest ts h
    exact ⟨n + 3, plain_node hn⟩

theorem exists_plain_forest : (ts : Forest) → (∀ token ∈ forestLeaves ts, token.InRange) →
    ∃ n, ∀ t ∈ ts, Json.Plain n t.toJson
  | [], _ => ⟨0, nofun⟩
  | t :: ts, h => by
    simp only [forestLeaves, List.forall_mem_append] at h
    obtain ⟨n, hn⟩ := exists_plain t h.1
    obtain ⟨m, hm⟩ := exists_plain_forest ts h.2
    refine ⟨max n m, List.forall_mem_cons.mpr ⟨hn.mono (Nat.le_max_left n m), ?_⟩⟩
    exact fun u hu => (hm u hu).mono (Nat.le_max_right n m)

end

theorem toJson_eq_of_render_eq {t u : Tree} (ht : ∀ token ∈ t.leaves, token.InRange)
    (hu : ∀ token ∈ u.leaves, token.InRange)
    (h : t.toJson.render layout = u.toJson.render layout) : t.toJson = u.toJson := by
  obtain ⟨n, hn⟩ := t.exists_plain ht
  obtain ⟨m, hm⟩ := u.exists_plain hu
  have hread := Json.read?_render hn layout
  rw [h, Json.read?_render hm layout] at hread
  exact (Option.some.inj hread).symm

theorem render_toJson_inj (ht : Built t) (hu : Built u)
    (htokens : ∀ token ∈ t.leaves, token.InRange) (hutokens : ∀ token ∈ u.leaves, token.InRange) :
    t.toJson.render layout = u.toJson.render layout ↔ t = u :=
  ⟨fun h => ht.eq_of_toJson_eq hu (toJson_eq_of_render_eq htokens hutokens h), fun h => h ▸ rfl⟩

/-- A group without its closing parenthesis has another text if it is marked as repaired. -/
theorem render_toJson_inj_repaired :
    (ofChildren .factor [.leaf (.ofLexeme .openParen ['('] ⟨1, 1⟩)] true).toJson.render .compact ≠
      (ofChildren .factor [.leaf (.ofLexeme .openParen ['('] ⟨1, 1⟩)] false).toJson.render
        .compact := by
  have hbuilt : ∀ repaired, Built (ofChildren .factor
      [.leaf (.ofLexeme .openParen ['('] ⟨1, 1⟩)] repaired) := fun _ => .node (by simpa using .leaf)
  have htokens : ∀ repaired, ∀ token ∈ (ofChildren .factor
      [.leaf (.ofLexeme .openParen ['('] ⟨1, 1⟩)] repaired).leaves, token.InRange := by
    intro repaired token htoken
    obtain rfl : token = .ofLexeme .openParen ['('] ⟨1, 1⟩ := by
      simpa [(leaves_ofChildren_perm ..).mem_iff, forestLeaves, leaves] using htoken
    exact ⟨⟨by decide, by decide⟩, ⟨by decide, by decide⟩⟩
  rw [Ne, render_toJson_inj (hbuilt true) (hbuilt false) (htokens true) (htokens false)]
  simp [ofChildren]

end Tree

end FormulaCheck
