import FormulaCheck.Proofs.Parse.Limit
import Mathlib.Data.List.Perm.Subperm

/-!
# Parentheses that are assumed

Where a closing parenthesis is assumed the parse goes on as if it were there, yet it takes no token
any more: no operator comes next, and every enclosing group finds the same tokens in the place of
its own parenthesis. Such a state is `State.Halted`.

* `Reads.of_unclosed`: a reading with an unclosed group in it ends in such a state, and every group
  around that one is unclosed.
* `Called.exists_readsStatement`: whatever called a reading that ends so returns in the same state.
* `parse_ends_of_unclosed`: so the parse ends where the parenthesis is assumed.
-/

namespace FormulaCheck

namespace Parse

-- ---------------------------------------------------------------------------
-- Where parentheses are assumed
-- ---------------------------------------------------------------------------

/-- `Called limit tokens n part s`: in a parse of the tokens the reader for the part is called at
`s`, when `n` more levels of parentheses may open. -/
inductive Called (limit : Nat) (tokens : List Token) : Nat → Part → State → Prop
  | assigned : State.assignmentNext ⟨tokens, [], false⟩ = true →
      Called limit tokens limit (.chain .sum) (State.take (State.take ⟨tokens, [], false⟩))
  | plain : State.assignmentNext ⟨tokens, [], false⟩ = false →
      Called limit tokens limit (.chain .sum) ⟨tokens, [], false⟩
  | first : Called limit tokens n (.chain layer) s → Called limit tokens n layer.operand s
  | tail : Called limit tokens n (.chain layer) s →
      (layer.operand.reader n).run s = .ok (first, s₁) → Called limit tokens n (.tail layer) s₁
  | operand : Called limit tokens n (.tail layer) s → s.rest = op :: rest →
      layer.isOperator op.kind = true → Called limit tokens n layer.operand s.take
  | more : Called limit tokens n (.tail layer) s → s.rest = op :: rest →
      layer.isOperator op.kind = true → (layer.operand.reader n).run s.take = .ok (operand, s₁) →
      Called limit tokens n (.tail layer) s₁
  | stray : Called limit tokens n .factor s → s.factorNext = false → s.strayNext = true →
      Called limit tokens n .factor s.report.skip
  | group : Called limit tokens (n + 1) .factor s → s.rest = opening :: rest →
      opening.kind = .openParen → Called limit tokens n (.chain .sum) s.take

/-- In a parse of the tokens the group is read, and in front of the tokens that are left its closing
parenthesis is assumed. -/
inductive AssumedAt (limit : Nat) (tokens : List Token) : Tree → List Token → Prop
  | mk : Called limit tokens (n + 1) .factor s → s.rest = opening :: rest →
      opening.kind = .openParen →
      ((Part.chain .sum).reader n).run s.take = .ok (content, s₁) →
      (closeGroup opening content s₁).1 = t → t.Unclosed → AssumedAt limit tokens t s₁.rest

-- ---------------------------------------------------------------------------
-- States where nothing goes on
-- ---------------------------------------------------------------------------

/-- The next token is a fault that is recorded, and neither an operator nor a parenthesis that
closes a group comes there. -/
structure State.Halted (s : State) : Prop where
  past : s.Past (.chain .sum)
  kind?_ne : s.kind? ≠ some .closeParen
  kindAfter?_ne : s.kindAfter? ≠ some .closeParen
  head?_faults : s.faults.head? = some (.ofNext? s.rest.head?)

namespace State.Halted

variable {s : State}

theorem report_eq (h : s.Halted) : s.report = s := by
  simp [report, h.head?_faults]

theorem finish_eq (h : s.Halted) : s.finish = s := by
  simp [finish, h.report_eq]

theorem not_isOperator (h : s.Halted) (layer : Layer) : s.kind?.any layer.isOperator = false := by
  obtain ⟨hproduct, hsum⟩ := past_chain_iff.mp h.past
  cases layer with
  | sum => exact hsum
  | product => exact (past_chain_iff.mp hproduct).2

theorem tail_eq (h : s.Halted) (hreads : Reads n (.tail layer) s d s') :
    d = .node layer.tailRule [] false ∧ s' = s :=
  (Reads.tailEnd (h.not_isOperator layer)).unique hreads

theorem closes (h : s.Halted) (opening : Token) (content : Tree) :
    Closes opening content s (.node .factor [.leaf opening, content] true) s := by
  have hclose : Closes opening content s (.node .factor [.leaf opening, content] true) s.report :=
    .assumed h.kind?_ne h.kindAfter?_ne
  rwa [h.report_eq] at hclose

end State.Halted

-- ---------------------------------------------------------------------------
-- Groups that are not closed
-- ---------------------------------------------------------------------------

attribute [local simp] Tree.Unclosed Tree.openings Forest.tokensOfKind Forest.inSlot Tree.token?

theorem unclosed_assumed (hk : opening.kind = .openParen) (hslot : Tree.slot content = .rule r) :
    (Tree.node .factor [.leaf opening, content] true).Unclosed := by
  cases content with
  | leaf => cases hslot
  | node => simp [hk]

theorem Closes.halted (h : Closes opening content s d s') (hd : d.Unclosed)
    (hpast : s.Past (.chain .sum)) (hs : s.Anchored) : s'.Halted ∧ s'.rest = s.rest := by
  cases h with
  | closed _ hclose | junk _ _ hclose => simp [hclose] at hd
  | assumed hk hafter =>
    refine ⟨⟨?_, ?_, ?_, ?_⟩, s.rest_report⟩
    · simpa [State.Past, State.kind?] using hpast
    · simpa [State.kind?] using hk
    · simpa [State.kindAfter?] using hafter
    · simpa using hs.head?_report

theorem Closes.eq_of_mem_children (h : Closes opening content s d s') (hu : u ∈ d.children)
    (hnode : u.isNode = true) : u = content := by
  cases h with
  | closed | junk =>
    simp only [Tree.children, List.mem_cons, List.not_mem_nil, or_false] at hu
    rcases hu with rfl | rfl | rfl
    · cases hnode
    · rfl
    · cases hnode
  | assumed =>
    simp only [Tree.children, List.mem_cons, List.not_mem_nil, or_false] at hu
    rcases hu with rfl | rfl
    · cases hnode
    · rfl

theorem Layer.rule_ne_factor (layer : Layer) : layer.rule ≠ .factor ∧ layer.tailRule ≠ .factor := by
  cases layer <;> decide

def FactorsUnclosed (trees : Forest) : Prop := ∀ t ∈ trees, t.rule? = some .factor → t.Unclosed

theorem FactorsUnclosed.cons (hrule : rule ≠ .factor) (h : FactorsUnclosed path) :
    FactorsUnclosed (.node rule parts repaired :: path) :=
  List.forall_mem_cons.mpr ⟨fun hfactor => absurd (Option.some.inj hfactor) hrule, h⟩

/-- Once a parenthesis is assumed the tails end, and no other way to close a group is left. -/
theorem Reads.of_unclosed (h : Reads n part s d s') (hpath : d.Path path t) (ht : t.Unclosed) :
    s'.Halted ∧ FactorsUnclosed path ∧
      (Called limit tokens n part s → AssumedAt limit tokens t.arranged s'.rest) := by
  induction h generalizing path with
  | @chain _ _ _ _ layer _ _ hfirst hmore ihFirst ihMore =>
    obtain ⟨u, hu, -, below, rfl, hbelow⟩ := hpath.exists_of_unclosed ht layer.rule_ne_factor.1
    rcases List.mem_cons.mp hu with rfl | hu
    · obtain ⟨hhalted, hfactors, hassumed⟩ := ihFirst hbelow
      obtain ⟨rfl, rfl⟩ := hhalted.tail_eq hmore
      exact ⟨hhalted, .cons layer.rule_ne_factor.1 hfactors, fun hcall => hassumed (.first hcall)⟩
    · cases List.mem_singleton.mp hu
      obtain ⟨hhalted, hfactors, hassumed⟩ := ihMore hbelow
      exact ⟨hhalted, .cons layer.rule_ne_factor.1 hfactors,
        fun hcall => hassumed (.tail hcall hfirst.run_eq)⟩
  | @tailEnd _ layer =>
    obtain ⟨u, hu, -⟩ := hpath.exists_of_unclosed ht layer.rule_ne_factor.2
    cases hu
  | @tailMore _ _ _ _ _ layer _ _ _ hs hop hoperand hmore ihOperand ihMore =>
    obtain ⟨u, hu, hnode, below, rfl, hbelow⟩ := hpath.exists_of_unclosed ht layer.rule_ne_factor.2
    rcases List.mem_cons.mp hu with rfl | hu
    · cases hnode
    rcases List.mem_cons.mp hu with rfl | hu
    · obtain ⟨hhalted, hfactors, hassumed⟩ := ihOperand hbelow
      obtain ⟨-, rfl⟩ := hhalted.tail_eq hmore
      exact ⟨hhalted, .cons layer.rule_ne_factor.2 hfactors,
        fun hcall => hassumed (.operand hcall hs hop)⟩
    · obtain ⟨hhalted, hfactors, hassumed⟩ := ihMore (.down hu hbelow)
      refine ⟨hhalted, .cons layer.rule_ne_factor.2 (List.forall_mem_cons.mp hfactors).2, ?_⟩
      exact fun hcall => hassumed (.more hcall hs hop hoperand.run_eq)
  | symbol _ hk =>
    rcases hpath.cases_of_unclosed ht with ⟨-, rfl⟩ | ⟨u, hu, hnode, -⟩
    · simp [(Token.Kind.ne_paren_of_isSymbol hk).1] at ht
    · cases List.mem_singleton.mp hu
      cases hnode
  | group hs hk hcontent hclose ih =>
    rcases hpath.cases_of_unclosed ht with ⟨rfl, rfl⟩ | ⟨u, hu, hnode, below, rfl, hbelow⟩
    · obtain ⟨hhalted, hrest⟩ := hclose.halted ht (hcontent.past trivial)
        (hcontent.anchored (State.anchored_take _))
      refine ⟨hhalted, List.forall_mem_singleton.mpr fun _ => ht, fun hcall => ?_⟩
      rw [hrest]
      exact .mk hcall hs hk hcontent.run_eq (congrArg Prod.fst (closeGroup_eq hclose))
        (Tree.unclosed_arranged_iff.mpr ht)
    · obtain rfl := hclose.eq_of_mem_children hu hnode
      obtain ⟨hhalted, hfactors, hassumed⟩ := ih hbelow
      obtain ⟨rfl, rfl⟩ := (hhalted.closes _ _).unique hclose
      refine ⟨hhalted, ?_, fun hcall => hassumed (.group hcall hs hk)⟩
      exact List.forall_mem_cons.mpr ⟨fun _ => unclosed_assumed hk hcontent.slot_eq, hfactors⟩
  | stray hfactor hstray _ ih =>
    obtain ⟨hhalted, hfactors, hassumed⟩ := ih hpath
    exact ⟨hhalted, hfactors, fun hcall => hassumed (.stray hcall hfactor hstray)⟩
  | empty =>
    rcases hpath.cases_of_unclosed ht with ⟨-, rfl⟩ | ⟨u, hu, -⟩
    · simp at ht
    · cases hu

theorem Reads.exists_parts (h : Reads n (.tail layer) s d s') :
    ∃ parts, d = .node layer.tailRule parts false := by
  cases h <;> exact ⟨_, rfl⟩

-- ---------------------------------------------------------------------------
-- Whole parses
-- ---------------------------------------------------------------------------

/-- What is called and halts is the last thing that a parse reads. -/
theorem Called.exists_readsStatement (h : Called limit tokens n part s)
    (hreads : Reads n part s d s') (hhalted : s'.Halted) :
    ∃ e, ReadsStatement limit ⟨tokens, [], false⟩ e s' := by
  induction h generalizing d with
  | assigned ha =>
    obtain ⟨target, equals, rest, hs, ht, he⟩ := State.assignmentNext_iff.mp ha
    exact ⟨_, .assigned hs ht he hreads⟩
  | plain ha => exact ⟨_, .plain ha hreads⟩
  | first _ ih => exact ih (.chain hreads (.tailEnd (hhalted.not_isOperator _)))
  | tail _ hfirst ih =>
    obtain ⟨first, -, hfirst⟩ := reads_iff.mp hfirst
    exact ih (.chain hfirst hreads)
  | operand _ hs hop ih => exact ih (.tailMore hs hop hreads (.tailEnd (hhalted.not_isOperator _)))
  | more _ hs hop hoperand ih =>
    obtain ⟨operand, -, hoperand⟩ := reads_iff.mp hoperand
    obtain ⟨more, rfl⟩ := hreads.exists_parts
    exact ih (.tailMore hs hop hoperand hreads)
  | stray _ hfactor hstray ih => exact ih (.stray hfactor hstray hreads)
  | group _ hs hk ih => exact ih (.group hs hk hreads (hhalted.closes _ _))

theorem AssumedAt.exists_readsStatement (h : AssumedAt limit tokens t left) :
    ∃ d s, ReadsStatement limit ⟨tokens, [], false⟩ d s ∧ s.Halted ∧ s.rest = left := by
  obtain ⟨hcall, hs, hk, hrun, hgroup, ht⟩ := h
  obtain ⟨content, rfl, hcontent⟩ := reads_iff.mp hrun
  obtain ⟨d, s', hclose⟩ := exists_closes _ content _
  rw [closeGroup_eq hclose] at hgroup
  subst hgroup
  obtain ⟨hhalted, hrest⟩ := hclose.halted (Tree.unclosed_arranged_iff.mp ht)
    (hcontent.past trivial) (hcontent.anchored (State.anchored_take _))
  obtain ⟨e, hreads⟩ := hcall.exists_readsStatement (.group hs hk hcontent hclose) hhalted
  exact ⟨e, s', hreads, hhalted, hrest⟩

theorem ReadsStatement.of_unclosed (h : ReadsStatement limit ⟨tokens, [], false⟩ d s)
    (hpath : d.Path path t) (ht : t.Unclosed) :
    s.Halted ∧ FactorsUnclosed path ∧ AssumedAt limit tokens t.arranged s.rest := by
  cases h with
  | assigned hs htarget hequals hvalue =>
    have ha : State.assignmentNext ⟨tokens, [], false⟩ = true :=
      State.assignmentNext_iff.mpr ⟨_, _, _, hs, htarget, hequals⟩
    obtain ⟨u, hu, -, below, rfl, hroot⟩ := hpath.exists_of_unclosed ht (by decide)
    cases List.mem_singleton.mp hu
    obtain ⟨u, hu, hnode, below, rfl, hbelow⟩ := hroot.exists_of_unclosed ht (by decide)
    simp only [List.mem_cons, List.not_mem_nil, or_false] at hu
    rcases hu with rfl | rfl | rfl
    · cases hnode
    · cases hnode
    obtain ⟨hhalted, hfactors, hassumed⟩ := hvalue.of_unclosed hbelow ht
    exact ⟨hhalted, .cons (by decide) (.cons (by decide) hfactors), hassumed (.assigned ha)⟩
  | plain ha hvalue =>
    obtain ⟨u, hu, -, below, rfl, hbelow⟩ := hpath.exists_of_unclosed ht (by decide)
    cases List.mem_singleton.mp hu
    obtain ⟨hhalted, hfactors, hassumed⟩ := hvalue.of_unclosed hbelow ht
    exact ⟨hhalted, .cons (by decide) hfactors, hassumed (.plain ha)⟩

end Parse

open Parse

/-- An unclosed group lies in unclosed groups only, and the parse ends where the parenthesis of the
group is assumed: the next token there, or the end of the tokens, is the last fault, and the tokens
in the tree come before it. -/
theorem parse_ends_of_unclosed (h : parse limit tokens = .ok p) (hpath : p.tree.Path path t)
    (ht : t.Unclosed) :
    (∀ u ∈ path, u.rule? = some .factor → u.Unclosed) ∧
      ∃ read left, tokens = read ++ left ∧
        (∀ rest, AssumedAt limit tokens t rest ↔ rest = left) ∧
        p.faults.getLast? = some (.ofNext? left.head?) ∧ p.tree.leaves.Subperm read := by
  obtain ⟨tree, faults⟩ := p
  obtain ⟨d, s, hreads, rfl, rfl⟩ := parse_ok_iff.mp h
  obtain ⟨path, t, hordered, rfl, rfl⟩ := hpath.exists_of_arranged
  obtain ⟨hhalted, hfactors, hassumed⟩ :=
    hreads.of_unclosed hordered (Tree.unclosed_arranged_iff.mp ht)
  obtain ⟨⟨-, read, hrest, hkept, -⟩, -⟩ := hreads.accounts nofun
  refine ⟨?_, read.map ReadToken.token, s.rest, hrest, fun rest => ⟨fun hrest => ?_, ?_⟩, ?_, ?_⟩
  · intro u hu hfactor
    obtain ⟨v, hv, rfl⟩ := List.mem_map.mp hu
    exact Tree.unclosed_arranged_iff.mpr (hfactors v hv (by cases v <;> exact hfactor))
  · obtain ⟨e, s', hreads', -, rfl⟩ := hrest.exists_readsStatement
    rw [(hreads.unique hreads').2]
  · rintro rfl
    exact hassumed
  · rw [hhalted.finish_eq, List.getLast?_reverse, hhalted.head?_faults]
  · refine d.leaves_arranged_perm.subperm.trans ?_
    rw [← hkept]
    exact (keptTokens_sublist read).subperm

/-- The tokens of `((a b`. -/
def twoUnclosed : List Token :=
  [.ofLexeme .openParen ['('] ⟨1, 1⟩, .ofLexeme .openParen ['('] ⟨1, 2⟩,
    .ofLexeme .name ['a'] ⟨1, 3⟩, .ofLexeme .name ['b'] ⟨1, 5⟩]

/-- The path leads through the outer group to the inner one, and both parentheses are assumed at the
second name. -/
theorem parse_ends_of_unclosed_twoUnclosed :
    ∃ p path t, parse 256 twoUnclosed = .ok p ∧ p.tree.Path path t ∧ path.length = 7 ∧
      t.Unclosed ∧ (∀ u ∈ path, u.rule? = some .factor → u.Unclosed) ∧
      ∃ read left, twoUnclosed = read ++ left ∧
        (∀ rest, AssumedAt 256 twoUnclosed t rest ↔ rest = left) ∧
        p.faults.getLast? = some (.ofNext? left.head?) ∧ p.tree.leaves.Subperm read := by
  obtain ⟨d, s, path, t, hreads, hpath, hlength, ht⟩ : ∃ d s path t,
      ReadsStatement 256 ⟨twoUnclosed, [], false⟩ d s ∧ d.Path path t ∧ path.length = 7 ∧
        t.Unclosed := by
    have hreads : ReadsStatement 256 ⟨twoUnclosed, [], false⟩ _ _ :=
      have hname := .chain (.chain (.symbol rfl rfl) (.tailEnd rfl)) (.tailEnd rfl)
      have hinner := .group rfl rfl hname (.assumed (by decide) (by decide))
      have houter := .group rfl rfl (.chain (.chain hinner (.tailEnd rfl)) (.tailEnd rfl))
        (.assumed (by decide) (by decide))
      .plain rfl (.chain (.chain houter (.tailEnd rfl)) (.tailEnd rfl))
    exact ⟨_, _, _, _, hreads, .down (.head _) (.down (.head _) (.down (.head _)
      (.down (.tail _ (.head _)) (.down (.head _) (.down (.head _) .here))))), rfl,
      by decide, by decide⟩
  have hparse := parse_ok_iff.mpr ⟨d, s, hreads, rfl, rfl⟩
  have ht := Tree.unclosed_arranged_iff.mpr ht
  exact ⟨_, _, _, hparse, hpath.arranged, by simpa using hlength, ht,
    parse_ends_of_unclosed hparse hpath.arranged ht⟩

end FormulaCheck
