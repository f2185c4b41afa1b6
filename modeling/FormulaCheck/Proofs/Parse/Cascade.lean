import FormulaCheck.Proofs.Parse.ExtraToken

/-!
# One token too many, and more than one fault

A token that is put anywhere into a statement is one fault of its parse at most, with two exceptions
(`parse_inserted_faults_le_one_iff`). An operator or an equals sign in front of an assignment is
left out, but the assignment is then read as an expression, and its own equals sign is another
fault. A closing parenthesis where an operand must come closes a group after the missing operand has
been reported; the operand that follows is another fault.
-/

namespace FormulaCheck

/-- The token is left out in front of an assignment, whose equals sign is not the same token. -/
def LeadsAssignment (before : List Token) (x : Token) (after : List Token) : Prop :=
  before = [] ∧ Parse.isStray x.kind = true ∧
    ∃ target equals value, after = target :: equals :: value ∧ equals.kind = .equals ∧ equals ≠ x

/-- The token closes a group where an operand must come. -/
def ClosesEarly (before : List Token) (x : Token) (after : List Token) : Prop :=
  x.kind = .closeParen ∧ (before.map Token.kind).count .closeParen < Parse.countOpening before ∧
    ∃ t more, after = t :: more ∧ t.kind.startsFactor = true

/-- An extra token that is more than one fault. -/
def Cascades (before : List Token) (x : Token) (after : List Token) : Prop :=
  LeadsAssignment before x after ∨ ClosesEarly before x after

namespace Parse

attribute [local simp] isStray Token.Kind.isOperator Token.Kind.startsFactor

variable {s : State}

/-- What is reported after a token was is a second fault, unless it is that same token. -/
theorem State.length_report_le_one_iff (hr : s.recovering = false)
    (hfaults : s.faults = [.unexpected x]) (hrest : s.rest = t :: more) :
    s.report.faults.length ≤ 1 ↔ x = t := by
  by_cases h : x = t <;> simp [State.report, Fault.ofNext?, hr, hfaults, hrest, h]

/-- The operand that follows the closing parenthesis is the second fault. -/
theorem finds_closed_early (hs : s.Clean) (hrest : s.rest = x :: t :: more)
    (hx : x.kind = .closeParen) (ht : t.kind.startsFactor = true) :
    ∃ faults, Config.Finds ⟨.operand (m + 1), s, kept, r⟩ faults ∧ 2 ≤ faults.length := by
  have hempty : Step ⟨.operand (m + 1), s, kept, r⟩ ⟨.operator (m + 1), s.report, kept, true⟩ :=
    step_empty hrest (by rw [hx]; rfl) (by rw [hx]; rfl)
  have hclose : Step ⟨.operator (m + 1), s.report, kept, true⟩
      ⟨.operator m, s.report.take, kept ++ [x], true⟩ :=
    .take (by simpa using hrest) (by rw [hx]; rfl)
  have hne : x ≠ t := by
    rintro rfl
    simp [hx] at ht
  have hrest' : s.report.take.rest = t :: more := by simp [hrest]
  have hfaults : 2 ≤ s.report.take.report.faults.length := by
    have hone : s.report.take.report.faults.length ≤ 1 ↔ x = t :=
      State.length_report_le_one_iff rfl (hs.faults_report_cons hrest) hrest'
    exact not_le.mp (hone.not.mpr hne)
  have hop : t.kind.isOperator = false := by
    rw [← Bool.not_eq_true]
    intro hop
    cases ht.symm.trans (Token.Kind.startsFactor_of_isOperator hop)
  suffices ∃ faults, Config.Finds ⟨.operator m, s.report.take, kept ++ [x], true⟩ faults ∧
      2 ≤ faults.length by
    obtain ⟨faults, hfinds, hlength⟩ := this
    exact ⟨faults, .of_step hempty (.of_step hclose hfinds), hlength⟩
  cases m with
  | zero => exact ⟨_, finds_report_at_end hrest' hop, hfaults⟩
  | succ m =>
    have hstuck : (Progress.operator (m + 1)).StuckAt s.report.take.rest := by
      rw [hrest']
      refine Progress.after_operator_eq_none hop fun hk => ?_
      simp [hk] at ht
    obtain ⟨c, hstep, hc⟩ := exists_step_of_stuckAt hstuck nofun
    obtain ⟨faults, hfinds, hsuffix⟩ := c.exists_finds
    exact ⟨faults, .of_step hstep hfinds, hfaults.trans (hc ▸ hsuffix.length_le)⟩

theorem finds_no_operand (hs : s.Clean) (hrest : s.rest = x :: more)
    (hfactor : x.kind.startsFactor = false) (hstray : isStray x.kind = false) :
    Config.Finds ⟨.operand 0, s, kept, r⟩ [.unexpected x] := by
  have hop : x.kind.isOperator = false := by
    simp only [isStray, Bool.or_eq_false_iff] at hstray
    exact hstray.1
  rw [← hs.faults_report_cons hrest, ← State.report_of_recovering hs.recovering_report]
  exact .of_step (step_empty hrest hfactor hstray) (finds_report_at_end (by simpa using hrest) hop)

theorem finds_inserted_operand (hs : s.Clean) (hrest : s.rest = x :: after)
    (h : (Progress.operand m).afterAll (after.map Token.kind) = some (.operator 0)) :
    ∃ faults, Config.Finds ⟨.operand m, s, kept, r⟩ faults ∧
      (faults.length ≤ 1 ↔ ¬ (x.kind = .closeParen ∧ 0 < m)) := by
  obtain ⟨t, more, rfl, ht⟩ := exists_cons_of_operand h
  have htake : s.take.rest = t :: more := by simp [hrest]
  cases hx : x.kind with
  | plus | minus | times | divide | equals =>
    exact ⟨_, finds_stray hs hrest (by rw [hx]; rfl) h, by simp⟩
  | number | name =>
    refine ⟨[.unexpected t], .of_step (step_symbol hrest (by rw [hx]; rfl)) ?_, by simp⟩
    exact finds_missing_operator hs.take htake (by rw [htake]; exact h)
  | openParen =>
    refine ⟨[.endOfInput], .of_step (step_opening hrest hx) ?_, by simp⟩
    exact finds_missing_closing (p := .operand m) hs.take (by rw [htake]; exact h)
  | closeParen =>
    cases m with
    | zero => exact ⟨_, finds_no_operand hs hrest (by rw [hx]; rfl) (by rw [hx]; rfl), by simp⟩
    | succ m =>
      obtain ⟨faults, hfinds, hlength⟩ := finds_closed_early hs hrest hx ht
      exact ⟨faults, hfinds, by simp; omega⟩
  | blank =>
    have hafter : s.kindAfter? ≠ some .closeParen := by
      intro hk
      have hclose : t.kind = .closeParen := by simpa [State.kindAfter?, hrest] using hk
      simp [hclose] at ht
    have hstuck : Config.Finds ⟨.operator m, s.report, kept, true⟩ s.report.faults :=
      finds_of_stuck hs.recovering_report (by simpa using hrest) (by rw [hx]; rfl) (by simp [hx])
        (by simpa [State.kindAfter?] using hafter) m
    exact ⟨_, .of_step (step_empty hrest (by rw [hx]; rfl) (by rw [hx]; rfl)) hstuck,
      by simp [hs.faults_report_cons hrest]⟩

theorem finds_inserted_operator (hs : s.Clean) (hrest : s.rest = x :: after)
    (h : (Progress.operator m).afterAll (after.map Token.kind) = some (.operator 0)) :
    ∃ fault, Config.Finds ⟨.operator m, s, kept, r⟩ [fault] := by
  have htake : s.take.rest = after := by simp [hrest]
  cases hx : x.kind with
  | plus | minus | times | divide =>
    have hop : (Progress.operator m).after x.kind = some (.operand m) :=
      Progress.after_operator (by rw [hx]; rfl)
    exact ⟨_, .of_step (.take hrest hop) (finds_missing_operand hs.take (by rw [htake]; exact h))⟩
  | closeParen =>
    cases m with
    | zero =>
      refine ⟨.unexpected x, ?_⟩
      rw [← hs.faults_report_cons hrest]
      exact finds_report_at_end hrest (by rw [hx]; rfl)
    | succ m =>
      obtain ⟨fault, hfinds⟩ : ∃ fault,
          Config.Finds ⟨.operator m, s.take, kept ++ [x], r⟩ [fault] :=
        finds_missing_opening hs.take (by rw [htake]; exact h)
      exact ⟨fault, .of_step (.take hrest (by rw [hx]; rfl)) hfinds⟩
  | number | name | equals | openParen | blank =>
    exact ⟨_, finds_redundant hs hrest (by rw [hx]; rfl) (by simp [hx]) fun _ => h⟩

theorem finds_inserted_expression (hs : s.Clean) (hrest : s.rest = before ++ x :: after)
    (h : (Progress.operand 0).afterAll ((before ++ after).map Token.kind) = some (.operator 0)) :
    ∃ faults, Config.Finds ⟨.operand 0, s, kept, r⟩ faults ∧
      (faults.length ≤ 1 ↔ ¬ ClosesEarly before x after) := by
  rw [List.map_append, Progress.afterAll_append] at h
  obtain ⟨p, hp, hafter⟩ := Option.bind_eq_some_iff.mp h
  have hrun : Run ⟨.operand 0, s, kept, r⟩ ⟨p, s.takeAll before, kept ++ before, r⟩ :=
    .along hp hrest
  have hs' := hs.takeAll before
  have hrest' : (s.takeAll before).rest = x :: after := State.rest_takeAll hrest
  have hopened := Progress.opened_afterAll hp
  rcases p with m | m
  · obtain ⟨faults, hfinds, hlength⟩ := finds_inserted_operand hs' hrest' hafter
    have hdepth : 0 < m ↔ (before.map Token.kind).count .closeParen < countOpening before := by
      simp only [Progress.opened, countOpening] at hopened ⊢
      omega
    refine ⟨faults, .of_run hrun hfinds, hlength.trans (not_congr ?_)⟩
    rw [ClosesEarly, hdepth, and_iff_left (exists_cons_of_operand hafter)]
  · obtain ⟨fault, hfinds⟩ := finds_inserted_operator hs' hrest' hafter
    refine ⟨[fault], .of_run hrun hfinds, iff_of_true (by simp) ?_⟩
    rintro ⟨-, -, t, more, rfl, ht⟩
    obtain ⟨q, hq, -⟩ := Progress.afterAll_cons_eq_some.mp hafter
    cases ht.symm.trans (Progress.startsFactor_of_after hq)

/-- A token that is left out in front of an assigned name: the equals sign is the second fault. -/
theorem finds_leading_stray (hs : s.Clean) (hrest : s.rest = x :: target :: equals :: value)
    (hx : isStray x.kind = true) (ht : target.kind = .name) (he : equals.kind = .equals) :
    ∃ faults, Config.Finds ⟨.operand 0, s, kept, r⟩ faults ∧
      (faults.length ≤ 1 ↔ x = equals) := by
  have hleft : Step ⟨.operand 0, s, kept, r⟩ ⟨.operand 0, s.report.skip, kept, r⟩ :=
    step_stray hrest hx (by rw [ht]; rfl)
  have hskip : s.report.skip.rest = target :: equals :: value := by simp [hrest]
  have htarget : Step ⟨.operand 0, s.report.skip, kept, r⟩
      ⟨.operator 0, s.report.skip.take, kept ++ [target], r⟩ :=
    step_symbol hskip (by rw [ht]; rfl)
  have hrest' : s.report.skip.take.rest = equals :: value := by rw [State.rest_take, hskip]; rfl
  have hend : Config.Finds ⟨.operator 0, s.report.skip.take, kept ++ [target], r⟩
      s.report.skip.take.report.faults :=
    finds_report_at_end hrest' (by rw [he]; rfl)
  exact ⟨_, .of_step hleft (.of_step htarget hend),
    State.length_report_le_one_iff rfl (hs.faults_report_cons hrest) hrest'⟩

theorem finds_inserted_first (ht : target.kind = .name) (he : equals.kind = .equals)
    (hvalue : (Progress.operand 0).afterAll (value.map Token.kind) = some (.operator 0)) :
    ∃ faults, (Config.start (x :: target :: equals :: value)).Finds faults ∧
      (faults.length ≤ 1 ↔ ¬ (isStray x.kind = true ∧ equals ≠ x)) := by
  have hplain : State.assignmentNext ⟨x :: target :: equals :: value, [], false⟩ = false := by
    simp [State.assignmentNext, State.kindAfter?, ht]
  rw [Config.start_plain hplain]
  have hs := clean_start (x :: target :: equals :: value)
  cases hx : x.kind with
  | plus | minus | times | divide | equals =>
    have hstray : isStray x.kind = true := by rw [hx]; rfl
    obtain ⟨faults, hfinds, hlength⟩ := finds_leading_stray hs rfl hstray ht he
    exact ⟨faults, hfinds, by simp [hlength, eq_comm]⟩
  | number | name =>
    refine ⟨[.unexpected target], .of_step (step_symbol rfl (by rw [hx]; rfl)) ?_, by simp⟩
    exact finds_redundant hs.take rfl (by rw [ht]; rfl) (by simp [ht])
      (by simp [State.kindAfter?, State.take, he])
  | openParen =>
    obtain ⟨next, more, rfl, hnext⟩ := exists_cons_of_operand hvalue
    have hne : next.kind ≠ .closeParen := by
      intro hk
      simp [hk] at hnext
    refine ⟨[.unexpected equals], .of_step (step_opening rfl hx)
      (.of_step (step_symbol rfl (by rw [ht]; rfl)) ?_), by simp⟩
    exact finds_redundant hs.take.take rfl (by rw [he]; rfl) (by simp [he])
      (by simp [State.kindAfter?, State.take, hne])
  | closeParen | blank =>
    exact ⟨_, finds_no_operand hs rfl (by rw [hx]; rfl) (by rw [hx]; rfl), by simp⟩

theorem finds_inserted_second (ht : target.kind = .name) (he : equals.kind = .equals)
    (hvalue : (Progress.operand 0).afterAll (value.map Token.kind) = some (.operator 0)) :
    ∃ fault, (Config.start (target :: x :: equals :: value)).Finds [fault] := by
  have hs := clean_start (target :: x :: equals :: value)
  by_cases hx : x.kind = .equals
  · rw [Config.start_assigned ht hx]
    exact ⟨_, finds_stray hs.take.take rfl (by rw [he]; rfl) hvalue⟩
  have hplain : State.assignmentNext ⟨target :: x :: equals :: value, [], false⟩ = false := by
    simp [State.assignmentNext, State.kindAfter?, hx]
  rw [Config.start_plain hplain]
  suffices ∃ fault, Config.Finds ⟨.operator 0,
      State.take ⟨target :: x :: equals :: value, [], false⟩, [] ++ [target], false⟩ [fault] by
    obtain ⟨fault, hfinds⟩ := this
    exact ⟨fault, .of_step (step_symbol rfl (by rw [ht]; rfl)) hfinds⟩
  cases hop : x.kind.isOperator with
  | true =>
    exact ⟨_, .of_step (.take rfl (Progress.after_operator hop))
      (finds_stray hs.take.take rfl (by rw [he]; rfl) hvalue)⟩
  | false =>
    refine ⟨.unexpected x, ?_⟩
    rw [← hs.take.faults_report_cons rfl]
    exact finds_report_at_end rfl hop

theorem finds_inserted (h : Derives .statement ((before ++ after).map Token.kind)) :
    ∃ faults, (Config.start (before ++ x :: after)).Finds faults ∧
      (faults.length ≤ 1 ↔ ¬ Cascades before x after) := by
  rcases statement_cases h with hall | ⟨target, equals, value, heq, ht, he, hvalue⟩
  · have hequals := Progress.equals_not_mem hall
    simp only [List.map_append, List.mem_append, not_or] at hequals
    have hleads : ¬ LeadsAssignment before x after := by
      rintro ⟨-, -, target, equals, value, rfl, he, -⟩
      simp [he] at hequals
    rw [Cascades, or_iff_right hleads]
    cases hassigned : State.assignmentNext ⟨before ++ x :: after, [], false⟩ with
    | false =>
      rw [Config.start_plain hassigned]
      exact finds_inserted_expression (clean_start _) rfl hall
    | true =>
      -- the equals sign turns the name into an assigned one, and no operand follows
      obtain ⟨target, rfl, ht, hx⟩ := (assignmentNext_insert hequals.1 hequals.2).mp hassigned
      obtain ⟨p, hp, hafter⟩ := Progress.afterAll_cons_eq_some.mp hall
      rw [ht] at hp
      cases hp
      rw [List.singleton_append, Config.start_assigned ht hx]
      exact ⟨_, finds_missing_operand (clean_start _).take.take hafter,
        by simp [ClosesEarly, hx]⟩
  · rcases before with _ | ⟨_, _ | ⟨_, before⟩⟩ <;> cases heq
    · obtain ⟨faults, hfinds, hlength⟩ := finds_inserted_first (x := x) ht he hvalue
      refine ⟨faults, hfinds, hlength.trans (not_congr ?_)⟩
      simp [Cascades, LeadsAssignment, ClosesEarly, countOpening, he]
    · obtain ⟨fault, hfinds⟩ := finds_inserted_second (x := x) ht he hvalue
      exact ⟨[fault], hfinds, by simp [Cascades, LeadsAssignment, ClosesEarly, countOpening, ht]⟩
    · obtain ⟨faults, hfinds, hlength⟩ : ∃ faults, Config.Finds ⟨.operand 0,
          State.take (State.take ⟨target :: equals :: (before ++ x :: after), [], false⟩),
          [target, equals], false⟩ faults ∧ (faults.length ≤ 1 ↔ ¬ ClosesEarly before x after) :=
        finds_inserted_expression (clean_start _).take.take rfl hvalue
      rw [List.cons_append, List.cons_append, Config.start_assigned ht he]
      refine ⟨faults, hfinds, hlength.trans (not_congr ?_)⟩
      simp [Cascades, LeadsAssignment, ClosesEarly, countOpening, ht, he]

end Parse

/-- A token that is put into a statement is one fault at most, unless it is one of the two that
cascade. -/
theorem parse_inserted_faults_le_one_iff
    (h : Derives .statement ((before ++ after).map Token.kind))
    (hlimit : Parse.countOpening (before ++ x :: after) ≤ limit) :
    ∃ p, parse limit (before ++ x :: after) = .ok p ∧
      (p.faults.length ≤ 1 ↔ ¬ Cascades before x after) := by
  obtain ⟨faults, hfinds, hlength⟩ := Parse.finds_inserted h
  obtain ⟨tree, htree⟩ := Parse.parse_of_finds hfinds hlimit
  exact ⟨_, htree, by simpa using hlength⟩

/-- In `( a + ) b )` the parenthesis cascades. -/
theorem parse_inserted_faults_le_one_iff_closing :
    ∃ p, parse 256 ([.ofLexeme .openParen ['('] ⟨1, 1⟩, .ofLexeme .name ['a'] ⟨1, 3⟩,
        .ofLexeme .plus ['+'] ⟨1, 5⟩] ++ .ofLexeme .closeParen [')'] ⟨1, 7⟩ ::
          [.ofLexeme .name ['b'] ⟨1, 9⟩, .ofLexeme .closeParen [')'] ⟨1, 11⟩]) = .ok p ∧
      (p.faults.length ≤ 1 ↔ ¬ Cascades [.ofLexeme .openParen ['('] ⟨1, 1⟩,
          .ofLexeme .name ['a'] ⟨1, 3⟩, .ofLexeme .plus ['+'] ⟨1, 5⟩]
        (.ofLexeme .closeParen [')'] ⟨1, 7⟩)
        [.ofLexeme .name ['b'] ⟨1, 9⟩, .ofLexeme .closeParen [')'] ⟨1, 11⟩]) :=
  parse_inserted_faults_le_one_iff (.plain (derives_expression_iff.mpr rfl)) (by decide)

open Parse in
/-- A parenthesis put into the statement `( a + b )` is two faults, itself and the operand that is
left over. -/
theorem parse_inserted_two_faults :
    Derives .statement [.openParen, .name, .plus, .name, .closeParen] ∧
    ∃ tree, parse 256 [.ofLexeme .openParen ['('] ⟨1, 1⟩, .ofLexeme .name ['a'] ⟨1, 3⟩,
        .ofLexeme .plus ['+'] ⟨1, 5⟩, .ofLexeme .closeParen [')'] ⟨1, 7⟩,
        .ofLexeme .name ['b'] ⟨1, 9⟩, .ofLexeme .closeParen [')'] ⟨1, 11⟩] =
      .ok ⟨tree, [.unexpected (.ofLexeme .closeParen [')'] ⟨1, 7⟩),
        .unexpected (.ofLexeme .name ['b'] ⟨1, 9⟩)]⟩ := by
  refine ⟨.plain (derives_expression_iff.mpr rfl), ?_⟩
  have hfinds : (Config.start [.ofLexeme .openParen ['('] ⟨1, 1⟩, .ofLexeme .name ['a'] ⟨1, 3⟩,
      .ofLexeme .plus ['+'] ⟨1, 5⟩, .ofLexeme .closeParen [')'] ⟨1, 7⟩,
      .ofLexeme .name ['b'] ⟨1, 9⟩, .ofLexeme .closeParen [')'] ⟨1, 11⟩]).Finds
      [.unexpected (.ofLexeme .name ['b'] ⟨1, 9⟩),
        .unexpected (.ofLexeme .closeParen [')'] ⟨1, 7⟩)] :=
    .of_step (step_opening rfl rfl) <| .of_step (step_symbol rfl rfl) <| .of_step (.take rfl rfl) <|
      .of_step (step_empty rfl rfl rfl) <| .of_step (.take rfl rfl) <| finds_report_at_end rfl rfl
  exact parse_of_finds hfinds (by decide)

end FormulaCheck
