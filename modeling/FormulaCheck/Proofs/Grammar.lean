import FormulaCheck.Tree

/-!
# The language of formulas

The grammar as a relation between rules and the kinds of tokens that they derive, and the same
grammar as a relation between rules, tokens and their derivation trees. A derivation tree keeps the
parts of a node in the order of the text.

`Derives.exists_derivation` and `Derivation.derives` say that both relations hold for the same
kinds.
-/

namespace FormulaCheck

inductive Derives : Rule → List Token.Kind → Prop
  | assigned : Derives .assignment ks → Derives .statement ks
  | plain : Derives .expression ks → Derives .statement ks
  | assignment : Derives .expression ks → Derives .assignment (.name :: .equals :: ks)
  | expression : Derives .term ks → Derives .expressionTail ls → Derives .expression (ks ++ ls)
  | noTerms : Derives .expressionTail []
  | moreTerms : op = .plus ∨ op = .minus → Derives .term ks → Derives .expressionTail ls →
      Derives .expressionTail (op :: (ks ++ ls))
  | term : Derives .factor ks → Derives .termTail ls → Derives .term (ks ++ ls)
  | noFactors : Derives .termTail []
  | moreFactors : op = .times ∨ op = .divide → Derives .factor ks → Derives .termTail ls →
      Derives .termTail (op :: (ks ++ ls))
  | number : Derives .factor [.number]
  | name : Derives .factor [.name]
  | group : Derives .expression ks → Derives .factor (.openParen :: (ks ++ [.closeParen]))

/-- Some kinds may follow that complete a statement. -/
def Viable (ks : List Token.Kind) : Prop := ∃ more, Derives .statement (ks ++ more)

/-- At no point of the kinds are more parentheses open than the limit. -/
def NestsWithin (limit : Nat) (ks : List Token.Kind) : Prop :=
  ∀ before, before <+: ks → before.count .openParen ≤ before.count .closeParen + limit

/-- The tree that derives some tokens from a rule, with the parts of each node in text order. -/
inductive Derivation : Rule → List Token → Tree → Prop
  | assigned : Derivation .assignment ts d → Derivation .statement ts (.node .statement [d] false)
  | plain : Derivation .expression ts d → Derivation .statement ts (.node .statement [d] false)
  | assignment : target.kind = .name → equals.kind = .equals → Derivation .expression ts d →
      Derivation .assignment (target :: equals :: ts)
        (.node .assignment [.leaf target, .leaf equals, d] false)
  | expression : Derivation .term ts d → Derivation .expressionTail us e →
      Derivation .expression (ts ++ us) (.node .expression [d, e] false)
  | noTerms : Derivation .expressionTail [] (.node .expressionTail [] false)
  | moreTerms : op.kind = .plus ∨ op.kind = .minus → Derivation .term ts d →
      Derivation .expressionTail us (.node .expressionTail ds false) →
      Derivation .expressionTail (op :: (ts ++ us))
        (.node .expressionTail (.leaf op :: d :: ds) false)
  | term : Derivation .factor ts d → Derivation .termTail us e →
      Derivation .term (ts ++ us) (.node .term [d, e] false)
  | noFactors : Derivation .termTail [] (.node .termTail [] false)
  | moreFactors : op.kind = .times ∨ op.kind = .divide → Derivation .factor ts d →
      Derivation .termTail us (.node .termTail ds false) →
      Derivation .termTail (op :: (ts ++ us)) (.node .termTail (.leaf op :: d :: ds) false)
  | number : t.kind = .number → Derivation .factor [t] (.node .factor [.leaf t] false)
  | name : t.kind = .name → Derivation .factor [t] (.node .factor [.leaf t] false)
  | group : opening.kind = .openParen → closing.kind = .closeParen →
      Derivation .expression ts d →
      Derivation .factor (opening :: (ts ++ [closing]))
        (.node .factor [.leaf opening, d, .leaf closing] false)

-- ---------------------------------------------------------------------------
-- Kinds
-- ---------------------------------------------------------------------------

namespace Token.Kind

variable {k : Token.Kind}

theorem startsFactor_iff : k.startsFactor = true ↔ k.isSymbol = true ∨ k = .openParen := by
  cases k <;> simp [startsFactor, isSymbol]

theorem startsFactor_of_isOperator (h : k.isOperator = true) : k.startsFactor = false := by
  cases k <;> simp_all [isOperator, startsFactor]

theorem ne_paren_of_isOperator (h : k.isOperator = true) : k ≠ .openParen ∧ k ≠ .closeParen := by
  cases k <;> simp_all [isOperator]

theorem ne_paren_of_isSymbol (h : k.isSymbol = true) : k ≠ .openParen ∧ k ≠ .closeParen := by
  cases k <;> simp_all [isSymbol]

end Token.Kind

-- ---------------------------------------------------------------------------
-- Derivation trees and kinds
-- ---------------------------------------------------------------------------

theorem Derivation.derives (h : Derivation r ts d) : Derives r (ts.map Token.kind) := by
  induction h with
  | assigned _ ih => exact .assigned ih
  | plain _ ih => exact .plain ih
  | assignment ht he _ ih =>
    simp only [List.map_cons, ht, he]
    exact .assignment ih
  | expression _ _ ihd ihe =>
    rw [List.map_append]
    exact .expression ihd ihe
  | noTerms => exact .noTerms
  | moreTerms hop _ _ ihd ihe =>
    rw [List.map_cons, List.map_append]
    exact .moreTerms hop ihd ihe
  | term _ _ ihd ihe =>
    rw [List.map_append]
    exact .term ihd ihe
  | noFactors => exact .noFactors
  | moreFactors hop _ _ ihd ihe =>
    rw [List.map_cons, List.map_append]
    exact .moreFactors hop ihd ihe
  | number ht => simp only [List.map_cons, List.map_nil, ht]; exact .number
  | name ht => simp only [List.map_cons, List.map_nil, ht]; exact .name
  | group ho hc _ ih =>
    simp only [List.map_cons, List.map_append, List.map_nil, ho, hc]
    exact .group ih

theorem Derivation.eq_node (h : Derivation r ts d) : ∃ ds, d = .node r ds false := by
  cases h <;> exact ⟨_, rfl⟩

theorem Derives.exists_derivation (h : Derives r ks) (hts : ts.map Token.kind = ks) :
    ∃ d, Derivation r ts d := by
  induction h generalizing ts with
  | assigned _ ih =>
    obtain ⟨d, hd⟩ := ih hts
    exact ⟨_, .assigned hd⟩
  | plain _ ih =>
    obtain ⟨d, hd⟩ := ih hts
    exact ⟨_, .plain hd⟩
  | assignment _ ih =>
    obtain ⟨target, ts, rfl, ht, hts⟩ := List.map_eq_cons_iff.mp hts
    obtain ⟨equals, ts, rfl, he, hts⟩ := List.map_eq_cons_iff.mp hts
    obtain ⟨d, hd⟩ := ih hts
    exact ⟨_, .assignment ht he hd⟩
  | expression _ _ ihd ihe =>
    obtain ⟨ts, us, rfl, hts, hus⟩ := List.map_eq_append_iff.mp hts
    obtain ⟨d, hd⟩ := ihd hts
    obtain ⟨e, he⟩ := ihe hus
    exact ⟨_, .expression hd he⟩
  | noTerms =>
    obtain rfl := List.map_eq_nil_iff.mp hts
    exact ⟨_, .noTerms⟩
  | moreTerms hop _ _ ihd ihe =>
    obtain ⟨op, rest, rfl, rfl, hrest⟩ := List.map_eq_cons_iff.mp hts
    obtain ⟨ts, us, rfl, hks, hus⟩ := List.map_eq_append_iff.mp hrest
    obtain ⟨d, hd⟩ := ihd hks
    obtain ⟨e, he⟩ := ihe hus
    obtain ⟨ds, rfl⟩ := he.eq_node
    exact ⟨_, .moreTerms hop hd he⟩
  | term _ _ ihd ihe =>
    obtain ⟨ts, us, rfl, hts, hus⟩ := List.map_eq_append_iff.mp hts
    obtain ⟨d, hd⟩ := ihd hts
    obtain ⟨e, he⟩ := ihe hus
    exact ⟨_, .term hd he⟩
  | noFactors =>
    obtain rfl := List.map_eq_nil_iff.mp hts
    exact ⟨_, .noFactors⟩
  | moreFactors hop _ _ ihd ihe =>
    obtain ⟨op, rest, rfl, rfl, hrest⟩ := List.map_eq_cons_iff.mp hts
    obtain ⟨ts, us, rfl, hks, hus⟩ := List.map_eq_append_iff.mp hrest
    obtain ⟨d, hd⟩ := ihd hks
    obtain ⟨e, he⟩ := ihe hus
    obtain ⟨ds, rfl⟩ := he.eq_node
    exact ⟨_, .moreFactors hop hd he⟩
  | number =>
    obtain ⟨t, ts, rfl, ht, hts⟩ := List.map_eq_cons_iff.mp hts
    obtain rfl := List.map_eq_nil_iff.mp hts
    exact ⟨_, .number ht⟩
  | name =>
    obtain ⟨t, ts, rfl, ht, hts⟩ := List.map_eq_cons_iff.mp hts
    obtain rfl := List.map_eq_nil_iff.mp hts
    exact ⟨_, .name ht⟩
  | group _ ih =>
    obtain ⟨opening, rest, rfl, ho, hrest⟩ := List.map_eq_cons_iff.mp hts
    obtain ⟨ts, last, rfl, hks, hlast⟩ := List.map_eq_append_iff.mp hrest
    obtain ⟨closing, nothing, rfl, hc, hnil⟩ := List.map_eq_cons_iff.mp hlast
    obtain rfl := List.map_eq_nil_iff.mp hnil
    obtain ⟨d, hd⟩ := ih hks
    exact ⟨_, .group ho hc hd⟩

-- ---------------------------------------------------------------------------
-- Parentheses
-- ---------------------------------------------------------------------------

theorem Derives.count_parens (h : Derives r ks) : ks.count .openParen = ks.count .closeParen := by
  induction h with
  | moreTerms hop _ _ ihd ihe => rcases hop with rfl | rfl <;> simp [ihd, ihe]
  | moreFactors hop _ _ ihd ihe => rcases hop with rfl | rfl <;> simp [ihd, ihe]
  | _ => simp_all

theorem prefix_append_cases {before ks ls : List α} (h : before <+: ks ++ ls) :
    before <+: ks ∨ ∃ more, before = ks ++ more ∧ more <+: ls := by
  rcases List.prefix_or_prefix_of_prefix h (List.prefix_append ks ls) with hb | ⟨more, rfl⟩
  · exact .inl hb
  · exact .inr ⟨more, rfl, (List.prefix_append_right_inj ks).mp h⟩

namespace NestsWithin

theorem nil : NestsWithin limit [] := by
  intro before hb
  simp [List.prefix_nil.mp hb]

theorem cons_iff (ho : k ≠ .openParen) (hc : k ≠ .closeParen) :
    NestsWithin limit (k :: ks) ↔ NestsWithin limit ks := by
  constructor
  · intro h before hb
    have := h (k :: before) (List.cons_prefix_cons.mpr ⟨rfl, hb⟩)
    simpa [ho, hc] using this
  · intro h before hb
    rcases List.prefix_cons_iff.mp hb with rfl | ⟨rest, rfl, hr⟩
    · simp
    · simpa [ho, hc] using h rest hr

theorem openParen_cons_iff : NestsWithin limit (.openParen :: ks) ↔
    ∃ levels, limit = levels + 1 ∧ NestsWithin levels ks := by
  constructor
  · intro h
    have hone := h [.openParen] (List.cons_prefix_cons.mpr ⟨rfl, List.nil_prefix⟩)
    obtain ⟨levels, rfl⟩ : ∃ levels, limit = levels + 1 := ⟨limit - 1, by simp at hone; omega⟩
    refine ⟨levels, rfl, fun before hb => ?_⟩
    have := h (.openParen :: before) (List.cons_prefix_cons.mpr ⟨rfl, hb⟩)
    simp at this
    omega
  · rintro ⟨levels, rfl, h⟩ before hb
    rcases List.prefix_cons_iff.mp hb with rfl | ⟨rest, rfl, hr⟩
    · simp
    · have := h rest hr
      simp
      omega

/-- After kinds that close what they open, the nesting starts anew. -/
theorem append_iff (hks : ks.count .openParen = ks.count .closeParen) :
    NestsWithin limit (ks ++ ls) ↔ NestsWithin limit ks ∧ NestsWithin limit ls := by
  constructor
  · intro h
    refine ⟨fun before hb => h before (hb.trans (List.prefix_append ..)), fun before hb => ?_⟩
    have := h (ks ++ before) ((List.prefix_append_right_inj ks).mpr hb)
    simp only [List.count_append] at this
    omega
  · rintro ⟨hk, hl⟩ before hb
    rcases prefix_append_cases hb with hb | ⟨more, rfl, hm⟩
    · exact hk before hb
    · have := hl more hm
      simp only [List.count_append]
      omega

theorem closeParen : NestsWithin limit [.closeParen] := by
  intro before hb
  rcases List.prefix_cons_iff.mp hb with rfl | ⟨rest, rfl, hr⟩
  · simp
  · simp [List.prefix_nil.mp hr]

/-- A group is one level deeper than its content. -/
theorem group_iff (hks : ks.count .openParen = ks.count .closeParen) :
    NestsWithin limit (.openParen :: (ks ++ [.closeParen])) ↔
      ∃ levels, limit = levels + 1 ∧ NestsWithin levels ks := by
  simp [openParen_cons_iff, append_iff hks, closeParen]

end NestsWithin

end FormulaCheck
