import FormulaCheck.Proofs.Parse.Mistakes

/-!
# A statement with a token that is left out

A parse can leave out an operator or an equals sign in front of an operand, and one token in front
of a closing parenthesis. If there is such a token in a statement, it is the only fault, and the
tree is that of the statement without it (`parse_left_out`).
-/

namespace FormulaCheck

/-- An extra token `x` in front of `t` that a parse leaves out: an operator or an equals sign in
front of an operand, or anything in front of a closing parenthesis that does not go on with the
group or close it. The name that an assignment begins with is no operand. -/
def LeftOut (before : List Token) (x t : Token) (after : List Token) : Prop :=
  (Parse.isStray x.kind = true ∧ t.kind.startsFactor = true ∧
    ¬ (before = [] ∧ after.head?.map Token.kind = some .equals)) ∨
  (t.kind = .closeParen ∧ x.kind ≠ .closeParen ∧ x.kind.isOperator = false)

namespace Parse

variable {s : State}

-- ---------------------------------------------------------------------------
-- Tokens that are left out
-- ---------------------------------------------------------------------------

theorem RunWithin.leave_out (hs : s.Clean) (hrest : s.rest = before ++ x :: t :: after)
    (h : (Progress.operand 0).afterAll ((before ++ t :: after).map Token.kind) =
      some (.operator 0))
    (hlimit : (Progress.operand 0).StaysWithin limit ((before ++ t :: after).map Token.kind))
    (hx : isStray x.kind = true ∧ t.kind.startsFactor = true ∨
      t.kind = .closeParen ∧ x.kind ≠ .closeParen ∧ x.kind.isOperator = false) :
    ∃ s', RunWithin limit ⟨.operand 0, s, kept, r⟩
        ⟨.operator 0, s', kept ++ (before ++ t :: after), r⟩ ∧
      s'.Past (.chain .sum) ∧ s'.finish.faults = [.unexpected x] := by
  rw [List.map_append] at h hlimit
  obtain ⟨p, hp, hmore⟩ := Option.bind_eq_some_iff.mp (Progress.afterAll_append .. ▸ h)
  obtain ⟨q, hq, hafter⟩ := Progress.afterAll_cons_eq_some.mp hmore
  have hlimit' := hlimit.drop hp
  have hrun : RunWithin limit ⟨.operand 0, s, kept, r⟩
      ⟨p, s.takeAll before, kept ++ before, r⟩ := .along hp hrest hlimit.left
  have hs' := hs.takeAll before
  have hrest' : (s.takeAll before).rest = x :: t :: after := State.rest_takeAll hrest
  suffices ∃ s', RunWithin limit ⟨p, s.takeAll before, kept ++ before, r⟩
      ⟨.operator 0, s', kept ++ before ++ t :: after, r⟩ ∧
      s'.Past (.chain .sum) ∧ s'.finish.faults = [.unexpected x] by
    obtain ⟨s', hmore, hend⟩ := this
    rw [List.append_assoc] at hmore
    exact ⟨s', hrun.trans hmore, hend⟩
  rcases hx with ⟨hx, ht⟩ | ⟨ht, hne, hop⟩
  · rcases p with n | n
    · exact RunWithin.leave_out_stray hs' hrest' hx hmore hlimit'
    · simp [Progress.startsFactor_of_after hq, Progress.wantsOperand] at ht
  · rw [ht] at hq
    rcases p with n | _ | n <;> cases hq
    exact RunWithin.leave_out_junk hs' hrest' hop hne ht hafter (hlimit'.tail (by rw [ht]; rfl))

theorem assignmentNext_insert (hbefore : .equals ∉ before.map Token.kind)
    (hafter : .equals ∉ after.map Token.kind) :
    State.assignmentNext ⟨before ++ x :: after, [], false⟩ = true ↔
      ∃ target, before = [target] ∧ target.kind = .name ∧ x.kind = .equals := by
  rw [State.assignmentNext_iff]
  constructor
  · rintro ⟨target, equals, rest, heq, ht, he⟩
    rcases before with _ | ⟨_, _ | ⟨_, before⟩⟩ <;> cases heq
    · simp [he] at hafter
    · exact ⟨target, rfl, ht, he⟩
    · simp [he] at hbefore
  · rintro ⟨target, rfl, ht, hx⟩
    exact ⟨target, x, after, rfl, ht, hx⟩

theorem runWithin_start_leave_out (h : Derives .statement ((before ++ t :: after).map Token.kind))
    (hn : NestsWithin limit ((before ++ t :: after).map Token.kind))
    (hx : LeftOut before x t after) :
    ∃ s', RunWithin limit (.start (before ++ x :: t :: after))
        ⟨.operator 0, s', before ++ t :: after, false⟩ ∧
      s'.Past (.chain .sum) ∧ s'.finish.faults = [.unexpected x] := by
  rcases statement_cases h with hall | ⟨target, equals, value, heq, ht, he, hall⟩
  · have hequals := Progress.equals_not_mem hall
    simp only [List.map_append, List.mem_append, not_or] at hequals
    have hplain : State.assignmentNext ⟨before ++ x :: t :: after, [], false⟩ = false := by
      rw [← Bool.not_eq_true, assignmentNext_insert hequals.1 hequals.2]
      rintro ⟨target, rfl, ht, -⟩
      -- an operator comes after the name
      obtain ⟨p, hp, hrest⟩ := Progress.afterAll_cons_eq_some.mp hall
      rw [ht] at hp
      cases hp
      obtain ⟨q, hq, -⟩ := Progress.afterAll_cons_eq_some.mp hrest
      rcases hx with ⟨-, hfactor, -⟩ | ⟨hclose, -⟩
      · simp [Progress.startsFactor_of_after hq, Progress.wantsOperand] at hfactor
      · rw [hclose] at hq
        cases hq
    rw [Config.start_plain hplain]
    exact RunWithin.leave_out (clean_start _) rfl hall (Progress.staysWithin_of_nestsWithin hn)
      (hx.imp_left fun h => ⟨h.1, h.2.1⟩)
  · rcases before with _ | ⟨_, _ | ⟨_, before⟩⟩ <;> cases heq
    · rcases hx with ⟨-, -, hx⟩ | ⟨hclose, -⟩
      · exact absurd ⟨rfl, by simp [he]⟩ hx
      · simp [ht] at hclose
    · rcases hx with ⟨-, hfactor, -⟩ | ⟨hclose, -⟩
      · simp [he, Token.Kind.startsFactor] at hfactor
      · simp [he] at hclose
    · simp only [List.cons_append, List.map_cons, ht, he] at hn
      rw [NestsWithin.cons_iff (by simp) (by simp), NestsWithin.cons_iff (by simp) (by simp)] at hn
      rw [List.cons_append, List.cons_append, Config.start_assigned ht he]
      exact RunWithin.leave_out (clean_start _).take.take rfl hall
        (Progress.staysWithin_of_nestsWithin hn) (hx.imp_left fun h => ⟨h.1, h.2.1⟩)

theorem finds_statement (h : Derives .statement (tokens.map Token.kind)) :
    (Config.start tokens).Finds [] := by
  rcases statement_cases h with hall | ⟨target, equals, value, rfl, ht, he, hall⟩
  · rw [Config.start_plain (assignmentNext_of_not_mem (Progress.equals_not_mem hall))]
    exact finds_nothing_more hall
  · rw [Config.start_assigned ht he]
    exact finds_nothing_more hall

end Parse

/-- A token too many that can be left out is the only fault, and leaves the tree as it was. -/
theorem parse_left_out (h : Derives .statement ((before ++ t :: after).map Token.kind))
    (hp : parse limit (before ++ t :: after) = .ok p) (hx : LeftOut before x t after) :
    parse limit (before ++ x :: t :: after) = .ok ⟨p.tree, [.unexpected x]⟩ := by
  obtain ⟨tree, faults⟩ := p
  obtain ⟨c, hrun, hdone, hfaults⟩ := Parse.finds_statement h
  obtain rfl : faults = [] := by simpa [hfaults] using parse_faults_of_run hp hrun hdone
  obtain ⟨d, hd, hn, rfl⟩ := parse_faultless_iff.mp hp
  obtain ⟨s', hrun', hpast, hfaults'⟩ := Parse.runWithin_start_leave_out h hn hx
  obtain ⟨tree, htree, hderivation⟩ := parse_eq_of_runWithin hrun' ⟨rfl, hpast⟩
  obtain ⟨e, he, rfl⟩ := hderivation rfl
  obtain rfl := hd.unique he
  simpa [hfaults'] using htree

/-- In `( a ( ) * b` the second parenthesis is left out, at a limit of one level. -/
theorem parse_left_out_opening :
    ∃ p, parse 1 [.ofLexeme .openParen ['('] ⟨1, 1⟩, .ofLexeme .name ['a'] ⟨1, 3⟩,
        .ofLexeme .closeParen [')'] ⟨1, 7⟩, .ofLexeme .times ['*'] ⟨1, 9⟩,
        .ofLexeme .name ['b'] ⟨1, 11⟩] = .ok p ∧
      parse 1 ([.ofLexeme .openParen ['('] ⟨1, 1⟩, .ofLexeme .name ['a'] ⟨1, 3⟩] ++
        .ofLexeme .openParen ['('] ⟨1, 5⟩ :: .ofLexeme .closeParen [')'] ⟨1, 7⟩ ::
          [.ofLexeme .times ['*'] ⟨1, 9⟩, .ofLexeme .name ['b'] ⟨1, 11⟩]) =
        .ok ⟨p.tree, [.unexpected (.ofLexeme .openParen ['('] ⟨1, 5⟩)]⟩ :=
  (exists_parse (by decide)).imp fun _ hp =>
    ⟨hp, parse_left_out (.plain (derives_expression_iff.mpr rfl)) hp (.inr (by decide))⟩

end FormulaCheck
