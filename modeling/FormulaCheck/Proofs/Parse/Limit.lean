import FormulaCheck.Proofs.Nesting
import FormulaCheck.Proofs.Parse.Recovery
import FormulaCheck.Proofs.Parse.Reported
import Mathlib.Data.List.Infix

/-!
# What the limit on nested groups decides

The limit decides only whether a parse gives a tree, and not which one. The tree and the faults that
a parse finds with a limit that no tokens get to are those of every parse whose limit the tree nests
within. With a smaller limit the parse gives up at the first opening parenthesis, in the order of
the tokens, of a group that lies in as many others as the limit allows (`parse_limit`).

The groups of the tree are not the parentheses of the text, of which some are left out and others
are assumed. But no repair opens more groups than the text does, so that tokens which nest within
the limit are never given up (`exists_parse_of_nestsWithin`).
-/

namespace FormulaCheck

namespace Parse

-- ---------------------------------------------------------------------------
-- Groups in what is read
-- ---------------------------------------------------------------------------

theorem openings_rule (layer : Layer) (ts : Forest) :
    Tree.openings layer.rule ts = [] ∧ Tree.openings layer.tailRule ts = [] := by
  cases layer <;> exact ⟨rfl, rfl⟩

theorem openingsAt_chain (layer : Layer) (first more : Tree) (n : Nat) :
    (Tree.node layer.rule [first, more] false).openingsAt n =
      first.openingsAt n ++ more.openingsAt n := by
  rw [Tree.openingsAt_node (openings_rule layer _).1]
  simp [Tree.forestOpeningsAt]

theorem openingsAt_tail (layer : Layer) (ts : Forest) (n : Nat) :
    (Tree.node layer.tailRule ts false).openingsAt n = Tree.forestOpeningsAt n ts :=
  Tree.openingsAt_node (openings_rule layer _).2

theorem openingsAt_tailMore (layer : Layer) (op : Token) (operand : Tree) (more : Forest)
    (n : Nat) : (Tree.node layer.tailRule (.leaf op :: operand :: more) false).openingsAt n =
      operand.openingsAt n ++ (Tree.node layer.tailRule more false).openingsAt n := by
  rw [openingsAt_tail, openingsAt_tail, Tree.forestOpeningsAt, Tree.forestOpeningsAt,
    Tree.openingsAt_leaf, List.nil_append]

theorem openingsAt_symbol (hk : t.kind.isSymbol = true) (n : Nat) :
    (Tree.node .factor [.leaf t] false).openingsAt n = [] := by
  have hne := (Token.Kind.ne_paren_of_isSymbol hk).1
  have hopen : Tree.openings .factor [.leaf t] = [] := by
    simp [Tree.openings, Forest.tokensOfKind, Forest.inSlot, hne]
  rw [Tree.openingsAt_node hopen]
  simp [Tree.forestOpeningsAt, Tree.openingsAt_leaf]

theorem openingsAt_empty (n : Nat) : (Tree.node .factor [] true).openingsAt n = [] :=
  Tree.openingsAt_node rfl

/-- A group is the outermost one in its tree, and the groups in its content lie in it. -/
theorem openingsAt_group (hk : opening.kind = .openParen) (hslot : content.slot = .rule r)
    (closing : List Token) (hclosing : ∀ t ∈ closing, t.kind ≠ .openParen) (repaired : Bool) :
    let d : Tree := .node .factor (.leaf opening :: content :: closing.map .leaf) repaired
    d.openingsAt 0 = [opening] ∧ ∀ n, d.openingsAt (n + 1) = content.openingsAt n := by
  have hopen : Tree.openings .factor (.leaf opening :: content :: closing.map .leaf) =
      [opening] := by
    simpa [Tree.openings, Forest.tokensOfKind, Forest.inSlot, hk, hslot, Tree.token?] using hclosing
  have hne : Tree.openings .factor (.leaf opening :: content :: closing.map .leaf) ≠ [] :=
    hopen ▸ List.cons_ne_nil opening []
  refine ⟨(Tree.openingsAt_group_zero hne).trans hopen, fun n => ?_⟩
  rw [Tree.openingsAt_group_succ hne]
  simp [Tree.forestOpeningsAt, Tree.forestOpeningsAt_eq_flatMap, Tree.openingsAt_leaf]

theorem Closes.openingsAt (h : Closes opening content s d s') (hk : opening.kind = .openParen)
    (hslot : content.slot = .rule r) :
    d.openingsAt 0 = [opening] ∧ ∀ n, d.openingsAt (n + 1) = content.openingsAt n := by
  cases h with
  | @closed closing _ _ hclose | @junk _ closing _ _ _ hclose =>
    exact openingsAt_group hk hslot [closing] (by simp [hclose]) false
  | assumed => exact openingsAt_group hk hslot [] (by simp) true

theorem Reads.slot_eq (h : Reads n part s d s') : d.slot = .rule part.rule := by
  induction h with
  | group _ _ _ hclose => cases hclose <;> rfl
  | stray _ _ _ ih => exact ih
  | _ => rfl

-- ---------------------------------------------------------------------------
-- Limits that are enough
-- ---------------------------------------------------------------------------

theorem Reads.within (h : Reads m part s d s') (hd : d.openingsAt n = []) :
    Reads n part s d s' := by
  induction h generalizing n with
  | chain _ _ ihFirst ihMore =>
    rw [openingsAt_chain, List.append_eq_nil_iff] at hd
    exact .chain (ihFirst hd.1) (ihMore hd.2)
  | tailEnd hk => exact .tailEnd hk
  | tailMore hs hop _ _ ihOperand ihMore =>
    rw [openingsAt_tailMore, List.append_eq_nil_iff] at hd
    exact .tailMore hs hop (ihOperand hd.1) (ihMore hd.2)
  | symbol hs hk => exact .symbol hs hk
  | group hs hk hcontent hclose ih =>
    obtain ⟨hzero, hsucc⟩ := hclose.openingsAt hk hcontent.slot_eq
    cases n with
    | zero => simp [hzero] at hd
    | succ n => exact .group hs hk (ih (hsucc n ▸ hd)) hclose
  | stray hf hstray _ ih => exact .stray hf hstray (ih hd)
  | empty hf hstray => exact .empty hf hstray

-- ---------------------------------------------------------------------------
-- Limits that are not enough
-- ---------------------------------------------------------------------------

theorem Reader.seq_error_first {first : Reader α} {second : Reader β}
    (h : first.run s = .error deep) : (first.seq second).run s = .error deep := by
  simp [Reader.seq, h]

theorem Reader.seq_error_second {first : Reader α} {second : Reader β}
    (h : first.run s = .ok (a, s₁)) (h' : second.run s₁ = .error deep) :
    (first.seq second).run s = .error deep := by
  simp [Reader.seq, h, h']

theorem Reader.map_of_error {r : Reader α} {f : α → β} (h : r.run s = .error deep) :
    (r.map f).run s = .error deep := by
  simp [Reader.map, h, Except.map]

theorem alternate_error_operand {operand : Reader Tree} (hs : s.rest = op :: rest)
    (hop : isOperator op.kind = true) (h : operand.run s.take = .error deep) :
    alternate isOperator operand s = .error deep := by
  simp [alternate_cons hs hop, h]

theorem alternate_error_more {operand : Reader Tree} (hs : s.rest = op :: rest)
    (hop : isOperator op.kind = true) (h : operand.run s.take = .ok (t, s₁))
    (h' : alternate isOperator operand s₁ = .error deep) :
    alternate isOperator operand s = .error deep := by
  simp [alternate_cons hs hop, h, h']

theorem tail_error
    (h : alternate (Layer.isOperator layer) (layer.operand.reader n) s = .error deep) :
    ((Part.tail layer).reader n).run s = .error deep := by
  rw [reader_tail, Parse.tail]
  exact Reader.map_of_error h

theorem head?_append_cases {xs ys : List α} (h : (xs ++ ys).head? = some a) :
    xs.head? = some a ∨ xs = [] ∧ ys.head? = some a := by
  cases xs with
  | nil => exact .inr ⟨rfl, h⟩
  | cons x xs => exact .inl h

/-- A reader stops at the first group that lies in as many others as its limit allows. A tail
rule's parts are what `alternate` reads, so the induction keeps track of both. -/
theorem Reads.error_and_alternate_error (h : Reads m part s d s')
    (hd : (d.openingsAt n).head? = some deep) :
    (part.reader n).run s = .error deep ∧ ∀ layer, part = .tail layer →
      alternate layer.isOperator (layer.operand.reader n) s = .error deep := by
  induction h generalizing n with
  | chain hfirst _ ihFirst ihMore =>
    refine ⟨?_, by simp⟩
    rw [openingsAt_chain] at hd
    rw [reader_chain]
    rcases head?_append_cases hd with hd | ⟨hnil, hd⟩
    · exact Reader.map_of_error (Reader.seq_error_first (ihFirst hd).1)
    · exact Reader.map_of_error
        (Reader.seq_error_second (hfirst.within hnil).run_eq (ihMore hd).1)
  | tailEnd => simp [openingsAt_tail, Tree.forestOpeningsAt] at hd
  | tailMore hs hop hoperand _ ihOperand ihMore =>
    refine (fun halt => ⟨tail_error halt, by rintro _ ⟨⟩; exact halt⟩) ?_
    rw [openingsAt_tailMore] at hd
    rcases head?_append_cases hd with hd | ⟨hnil, hd⟩
    · exact alternate_error_operand hs hop (ihOperand hd).1
    · exact alternate_error_more hs hop (hoperand.within hnil).run_eq ((ihMore hd).2 _ rfl)
  | symbol _ hk => simp [openingsAt_symbol hk] at hd
  | group hs hk hcontent hclose ih =>
    obtain ⟨hzero, hsucc⟩ := hclose.openingsAt hk hcontent.slot_eq
    refine ⟨(factorFrom_group hs hk).trans ?_, by simp⟩
    cases n with
    | zero =>
      obtain rfl : _ = deep := by simpa [hzero] using hd
      rfl
    | succ n =>
      rw [hsucc] at hd
      simp only [Parse.group, deeper, expression_eq]
      rw [(ih hd).1]
  | stray hf hstray _ ih => exact ⟨(factorFrom_stray hf hstray).trans (ih hd).1, by simp⟩
  | empty => simp [openingsAt_empty] at hd

theorem Reads.run_error (h : Reads m part s d s') (hd : (d.openingsAt n).head? = some deep) :
    (part.reader n).run s = .error deep :=
  (h.error_and_alternate_error hd).1

-- ---------------------------------------------------------------------------
-- The order of the groups
-- ---------------------------------------------------------------------------

/-- The nodes among the parts of a tail rule are its operands. -/
theorem Reads.slot_of_isNode (h : Reads n part s d s') (hpart : part = .tail layer) :
    ∀ t ∈ d.children, t.isNode = true → t.slot = .rule layer.operand.rule := by
  induction h with
  | tailEnd => simp [Tree.children]
  | tailMore _ _ hoperand _ _ ihMore =>
    cases hpart
    refine List.forall_mem_cons.mpr ⟨fun hleaf => absurd hleaf Bool.false_ne_true, ?_⟩
    exact List.forall_mem_cons.mpr ⟨fun _ => hoperand.slot_eq, ihMore rfl⟩
  | _ => cases hpart

theorem Layer.rule_operand_ne_rule_tail (layer : Layer) :
    layer.operand.rule ≠ (Part.tail layer).rule := by
  cases layer <;> nofun

theorem Closes.steady (h : Closes opening content s d s') (hk : opening.kind = .openParen)
    (hslot : content.slot = .rule r) (hcontent : content.Steady) : d.Steady := by
  cases h with
  | closed _ hclose | junk _ _ hclose =>
    refine .of_nodup ?_ (by simp [hk, hslot, hclose])
    simpa using ⟨.leaf, hcontent, .leaf⟩
  | assumed =>
    refine .of_nodup ?_ (by simp [hslot])
    simpa using ⟨.leaf, hcontent⟩

theorem Reads.steady (h : Reads n part s d s') : d.Steady := by
  induction h with
  | chain hfirst hmore ihFirst ihMore =>
    refine .of_nodup (by simpa using ⟨ihFirst, ihMore⟩) ?_
    simpa [hfirst.slot_eq, hmore.slot_eq] using Layer.rule_operand_ne_rule_tail _
  | tailEnd => exact .of_nodup nofun .nil
  | tailMore hs hop hoperand hmore ihOperand ihMore =>
    have hslots := (Reads.tailMore hs hop hoperand hmore).slot_of_isNode rfl
    cases ihMore with
    | node hparts => exact .of_slot_eq (by simpa using ⟨.leaf, ihOperand, hparts⟩) hslots
  | symbol => exact .of_nodup (by simpa using .leaf) (by simp)
  | group _ hk hcontent hclose ih => exact hclose.steady hk hcontent.slot_eq ih
  | stray _ _ _ ih => exact ih
  | empty => exact .of_nodup nofun .nil

-- ---------------------------------------------------------------------------
-- Statements
-- ---------------------------------------------------------------------------

theorem ReadsStatement.steady (h : ReadsStatement n s d s') : d.Steady := by
  cases h with
  | assigned _ ht he hvalue =>
    refine .of_nodup (List.forall_mem_singleton.mpr (.of_nodup ?_ ?_)) (List.pairwise_singleton ..)
    · simpa using ⟨.leaf, .leaf, hvalue.steady⟩
    · simp [ht, he, hvalue.slot_eq]
  | plain _ hvalue =>
    exact .of_nodup (List.forall_mem_singleton.mpr hvalue.steady) (List.pairwise_singleton ..)

theorem openingsAt_assigned (target equals : Token) (value : Tree) (n : Nat) :
    (Tree.node .statement
      [.node .assignment [.leaf target, .leaf equals, value] false] false).openingsAt n =
      value.openingsAt n := by
  rw [Tree.openingsAt_node rfl, Tree.forestOpeningsAt, Tree.openingsAt_node rfl]
  simp [Tree.forestOpeningsAt, Tree.openingsAt_leaf]

theorem openingsAt_plain (value : Tree) (n : Nat) :
    (Tree.node .statement [value] false).openingsAt n = value.openingsAt n := by
  rw [Tree.openingsAt_node rfl, Tree.forestOpeningsAt, Tree.forestOpeningsAt, List.append_nil]

theorem ReadsStatement.within (h : ReadsStatement m s d s') (hd : d.openingsAt n = []) :
    ReadsStatement n s d s' := by
  cases h with
  | assigned hs ht he hvalue =>
    rw [openingsAt_assigned] at hd
    exact .assigned hs ht he (hvalue.within hd)
  | plain ha hvalue =>
    rw [openingsAt_plain] at hd
    exact .plain ha (hvalue.within hd)

theorem ReadsStatement.run_error (h : ReadsStatement m s d s')
    (hd : (d.openingsAt n).head? = some deep) : statement n s = .error deep := by
  cases h with
  | assigned hs ht he hvalue =>
    rw [openingsAt_assigned] at hd
    have hrun := hvalue.run_error hd
    rw [← expression_eq] at hrun
    simp [statement, hs, ht, he, hrun]
  | plain ha hvalue =>
    rw [openingsAt_plain] at hd
    have hrun := hvalue.run_error hd
    rw [← expression_eq] at hrun
    rw [statement_eq_plain ha, statement.plain, hrun]

end Parse

open Parse

/-- The limit decides only whether a parse gives a tree. With a limit that is larger than the number
of tokens there is one, and its groups are told in the order of the tokens. Every limit that the
tree nests within gives the same tree and the same faults. With a smaller one the parse gives up at
the first group that lies in as many others as the limit allows. -/
theorem parse_limit (h : tokens.length < large) : ∃ p, parse large tokens = .ok p ∧
    (∀ n, (p.tree.openingsAt n).Sublist tokens) ∧
    ∀ limit, (p.tree.nesting ≤ limit → parse limit tokens = .ok p) ∧
      (limit < p.tree.nesting → ∃ deep, (p.tree.openingsAt limit).head? = some deep ∧
        parse limit tokens = .error ⟨limit, deep.start⟩) := by
  have hcount : countOpening tokens ≤ large :=
    Nat.le_trans (countOpening_le_length tokens) (Nat.le_of_lt h)
  obtain ⟨⟨tree, faults⟩, hparse⟩ := exists_parse hcount
  obtain ⟨d, s, hreads, rfl, rfl⟩ := parse_ok_iff.mp hparse
  have hopenings := hreads.steady.openingsAt_arranged
  refine ⟨_, hparse, fun n => ?_, fun limit => ⟨fun hle => ?_, fun hlt => ?_⟩⟩
  · dsimp only
    rw [hopenings]
    exact (Tree.openingsAt_sublist_leaves n d).trans (hreads.accounts nofun).1.sublist
  · rw [Tree.nesting_le_iff, hopenings] at hle
    exact parse_ok_iff.mpr ⟨d, s, hreads.within hle, rfl, rfl⟩
  · obtain ⟨deep, rest, hdeep⟩ := List.exists_cons_of_ne_nil
      (mt Tree.nesting_le_iff.mpr (Nat.not_le.mpr hlt))
    have hhead : (d.arranged.openingsAt limit).head? = some deep := by rw [hdeep]; rfl
    refine ⟨deep, hhead, ?_⟩
    rw [hopenings] at hhead
    rw [parse, hreads.run_error hhead]

/-- The tokens of `((1)`. -/
def unclosedGroup : List Token :=
  [.ofLexeme .openParen ['('] ⟨1, 1⟩, .ofLexeme .openParen ['('] ⟨1, 2⟩,
    .ofLexeme .number ['1'] ⟨1, 3⟩, .ofLexeme .closeParen [')'] ⟨1, 4⟩]

/-- The second group lies in the first one, although that one is not closed. -/
theorem parse_limit_unclosedGroup :
    ∃ p, parse 5 unclosedGroup = .ok p ∧ p.tree.nesting = 2 ∧ parse 2 unclosedGroup = .ok p ∧
      parse 1 unclosedGroup = .error ⟨1, ⟨1, 2⟩⟩ := by
  have hreads : ReadsStatement 5 ⟨unclosedGroup, [], false⟩ _ _ :=
    have hone := .chain (.chain (.symbol rfl rfl) (.tailEnd rfl)) (.tailEnd rfl)
    have hinner := .group rfl rfl hone (.closed rfl rfl)
    have houter := .group rfl rfl (.chain (.chain hinner (.tailEnd rfl)) (.tailEnd rfl))
      (.assumed (by decide) (by decide))
    .plain rfl (.chain (.chain houter (.tailEnd rfl)) (.tailEnd rfl))
  have hparse := parse_ok_iff.mpr ⟨_, _, hreads, rfl, rfl⟩
  obtain ⟨p, hp, -, hlimit⟩ := parse_limit (show unclosedGroup.length < 5 by decide)
  cases hp.symm.trans hparse
  obtain ⟨deep, hdeep, herror⟩ := (hlimit 1).2 (by decide)
  cases hdeep
  exact ⟨_, hparse, by decide, (hlimit 2).1 (by decide), herror⟩

-- ---------------------------------------------------------------------------
-- Text within the limit
-- ---------------------------------------------------------------------------

/-- A parse gives up only where more parentheses are open in the text than the limit allows. -/
theorem exists_parse_of_nestsWithin (h : NestsWithin limit (tokens.map Token.kind)) :
    ∃ p, parse limit tokens = .ok p := by
  cases hparse : parse limit tokens with
  | ok p => exact ⟨p, rfl⟩
  | error e =>
    obtain ⟨before, hbefore, hlt⟩ := exists_prefix_of_parse_error hparse
    exact absurd (h before hbefore) (Nat.not_le.mpr hlt)

/-- In `( a ( ) * ( b` one parenthesis is left out and one is assumed. -/
theorem exists_parse_of_nestsWithin_leftOut :
    NestsWithin 2 [.openParen, .name, .openParen, .closeParen, .times, .openParen, .name] ∧
      ∃ p, parse 2 [.ofLexeme .openParen ['('] ⟨1, 1⟩, .ofLexeme .name ['a'] ⟨1, 3⟩,
        .ofLexeme .openParen ['('] ⟨1, 5⟩, .ofLexeme .closeParen [')'] ⟨1, 7⟩,
        .ofLexeme .times ['*'] ⟨1, 9⟩, .ofLexeme .openParen ['('] ⟨1, 11⟩,
        .ofLexeme .name ['b'] ⟨1, 13⟩] = .ok p := by
  have hnests : NestsWithin 2
      [.openParen, .name, .openParen, .closeParen, .times, .openParen, .name] := by
    have hall : ∀ before ∈ List.inits
        [Token.Kind.openParen, .name, .openParen, .closeParen, .times, .openParen, .name],
        before.count .openParen ≤ before.count .closeParen + 2 := by decide
    exact fun before hbefore => hall before ((List.mem_inits _ _).mpr hbefore)
  exact ⟨hnests, exists_parse_of_nestsWithin hnests⟩

end FormulaCheck
