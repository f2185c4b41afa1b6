import FormulaCheck.Proofs.Parse.Mistakes

/-!
# A statement without one of its tokens

Whichever token of a statement is left out, its parse finds one fault (`parse_missing_token`). The
token is an operand, an operator, a parenthesis, or one of the two tokens in front of an assigned
expression; the progress in front of it tells which.
-/

namespace FormulaCheck

namespace Parse

theorem finds_missing_token_expression {s : State} (hs : s.Clean) (hrest : s.rest = before ++ after)
    (h : (Progress.operand 0).afterAll ((before ++ t :: after).map Token.kind) =
      some (.operator 0)) :
    ∃ fault, Config.Finds ⟨.operand 0, s, kept, r⟩ [fault] := by
  rw [List.map_append, Progress.afterAll_append] at h
  obtain ⟨p, hp, h⟩ := Option.bind_eq_some_iff.mp h
  obtain ⟨q, hq, hafter⟩ := Progress.afterAll_cons_eq_some.mp h
  have hs' := hs.takeAll before
  have hrest' : (s.takeAll before).rest = after := State.rest_takeAll hrest
  rw [← hrest'] at hafter
  suffices ∃ fault, Config.Finds ⟨p, s.takeAll before, kept ++ before, r⟩ [fault] by
    obtain ⟨fault, hfinds⟩ := this
    exact ⟨fault, .of_run (Run.along hp hrest) hfinds⟩
  rcases Progress.after_cases hq with ⟨n, rfl, -, rfl⟩ | ⟨n, rfl, -, rfl⟩ | ⟨n, rfl, -, rfl⟩ |
    ⟨n, rfl, -, rfl⟩
  · exact ⟨_, finds_missing_operand hs' hafter⟩
  · exact finds_missing_opening hs' hafter
  · obtain ⟨next, rest, hnext, -⟩ := exists_cons_of_operand hafter
    exact ⟨_, finds_missing_operator hs' hnext hafter⟩
  · exact ⟨_, finds_missing_closing (p := .operator n) hs' hafter⟩

theorem finds_missing_token (h : Derives .statement ((before ++ t :: after).map Token.kind)) :
    ∃ fault, (Config.start (before ++ after)).Finds [fault] := by
  rcases statement_cases h with hall | ⟨target, equals, value, heq, ht, he, hall⟩
  · have hequals := Progress.equals_not_mem hall
    rw [Config.start_plain (assignmentNext_of_not_mem (by simp_all))]
    exact finds_missing_token_expression (clean_start _) rfl hall
  · obtain ⟨next, more, hvalue, hnext⟩ := exists_cons_of_operand hall
    rcases before with _ | ⟨_, _ | ⟨_, before⟩⟩ <;> cases heq
    · -- without the name its equals sign is left out too
      have hplain : State.assignmentNext ⟨equals :: value, [], false⟩ = false := by
        simp [State.assignmentNext, State.kind?, he]
      rw [List.nil_append, Config.start_plain hplain]
      exact ⟨_, finds_stray (clean_start _) rfl (by rw [he]; rfl) hall⟩
    · have hplain : State.assignmentNext ⟨target :: after, [], false⟩ = false := by
        have hne : next.kind ≠ .equals := by
          intro hk
          simp [hk, Token.Kind.startsFactor] at hnext
        simp [State.assignmentNext, State.kindAfter?, hvalue, hne]
      rw [List.cons_append, List.nil_append, Config.start_plain hplain]
      refine ⟨.unexpected next, .of_step (step_symbol rfl (by rw [ht]; rfl)) ?_⟩
      exact finds_missing_operator (clean_start _).take hvalue hall
    · rw [List.cons_append, List.cons_append, Config.start_assigned ht he]
      exact finds_missing_token_expression (clean_start _).take.take rfl hall

end Parse

/-- Without any one of its tokens a statement has one fault. -/
theorem parse_missing_token (h : Derives .statement ((before ++ t :: after).map Token.kind))
    (hlimit : Parse.countOpening (before ++ after) ≤ limit) :
    ∃ tree fault, parse limit (before ++ after) = .ok ⟨tree, [fault]⟩ := by
  obtain ⟨fault, hfinds⟩ := Parse.finds_missing_token h
  obtain ⟨tree, htree⟩ := Parse.parse_of_finds hfinds hlimit
  exact ⟨tree, fault, htree⟩

/-- In `x = ( a + b ) * 2` the closing parenthesis is missing. -/
theorem parse_missing_token_closing :
    ∃ tree fault, parse 256 ([.ofLexeme .name ['x'] ⟨1, 1⟩, .ofLexeme .equals ['='] ⟨1, 3⟩,
        .ofLexeme .openParen ['('] ⟨1, 5⟩, .ofLexeme .name ['a'] ⟨1, 7⟩,
        .ofLexeme .plus ['+'] ⟨1, 9⟩, .ofLexeme .name ['b'] ⟨1, 11⟩] ++
      [.ofLexeme .times ['*'] ⟨1, 15⟩, .ofLexeme .number ['2'] ⟨1, 17⟩]) = .ok ⟨tree, [fault]⟩ :=
  parse_missing_token (t := .ofLexeme .closeParen [')'] ⟨1, 13⟩)
    (.assigned (.assignment (derives_expression_iff.mpr rfl))) (by decide)

end FormulaCheck
