import FormulaCheck.Proofs.Parse.Reported

/-!
# Six mistakes

What a parse finds if it stands where everything so far was right and one thing is wrong with what
follows: an operand or an operator is missing, a parenthesis is missing on either side, or there is a
token too many in front of an operand or of an operator. In each case it finds one fault, and what
follows on the mistake either goes on as if nothing had happened or is never read.
-/

namespace FormulaCheck

-- ---------------------------------------------------------------------------
-- Progress with the groups that are open
-- ---------------------------------------------------------------------------

namespace Progress

variable {p q : Progress} {ks ls : List Token.Kind}

theorem afterAll_cons_eq_some : p.afterAll (k :: ks) = some q ↔
    ∃ p', p.after k = some p' ∧ p'.afterAll ks = some q :=
  Option.bind_eq_some_iff

theorem opened_afterAll (h : p.afterAll ks = some q) :
    q.opened + ks.count .closeParen = p.opened + ks.count .openParen := by
  induction ks generalizing p with
  | nil => cases h; rfl
  | cons k ks ih =>
    obtain ⟨p', hp', hks⟩ := Progress.afterAll_cons_eq_some.mp h
    have := ih hks
    rcases after_cases hp' with ⟨n, rfl, rfl | rfl, rfl⟩ | ⟨n, rfl, rfl, rfl⟩ |
      ⟨n, rfl, hk, rfl⟩ | ⟨n, rfl, rfl, rfl⟩
    case inr.inr.inl =>
      obtain ⟨ho, hc⟩ := Token.Kind.ne_paren_of_isOperator hk
      simp [opened, ho, hc] at this ⊢
      omega
    all_goals
      simp [opened] at this ⊢
      omega

theorem equals_not_mem (h : p.afterAll ks = some q) : .equals ∉ ks := by
  induction ks generalizing p with
  | nil => simp
  | cons k ks ih =>
    obtain ⟨p', hp', hks⟩ := afterAll_cons_eq_some.mp h
    have hk : k ≠ .equals := by
      rintro rfl
      cases p <;> cases hp'
    simpa [Ne.symm hk] using ih hks

def StaysWithin (limit : Nat) (p : Progress) (ks : List Token.Kind) : Prop :=
  ∀ before q, before <+: ks → p.afterAll before = some q → q.opened ≤ limit

theorem StaysWithin.opened_le (h : p.StaysWithin limit ks) : p.opened ≤ limit :=
  h [] p List.nil_prefix rfl

theorem StaysWithin.head (h : p.StaysWithin limit (k :: ks)) (hq : p.after k = some q) :
    q.opened ≤ limit :=
  h [k] q (List.cons_prefix_cons.mpr ⟨rfl, List.nil_prefix⟩) (by simp [afterAll_cons, hq])

theorem StaysWithin.tail (h : p.StaysWithin limit (k :: ks)) (hq : p.after k = some q) :
    q.StaysWithin limit ks := by
  intro before q' hbefore hq'
  refine h (k :: before) q' (List.cons_prefix_cons.mpr ⟨rfl, hbefore⟩) ?_
  exact afterAll_cons_eq_some.mpr ⟨q, hq, hq'⟩

theorem StaysWithin.drop (h : p.StaysWithin limit (ks ++ ls)) (hq : p.afterAll ks = some q) :
    q.StaysWithin limit ls := by
  intro before q' hbefore hq'
  refine h (ks ++ before) q' ((List.prefix_append_right_inj ks).mpr hbefore) ?_
  rw [afterAll_append, hq]
  exact hq'

theorem StaysWithin.left (h : p.StaysWithin limit (ks ++ ls)) : p.StaysWithin limit ks :=
  fun before q hbefore hq => h before q (hbefore.trans (List.prefix_append ..)) hq

theorem staysWithin_of_nestsWithin (h : NestsWithin limit ks) :
    (operand 0).StaysWithin limit ks := by
  intro before q hbefore hq
  have hcount := opened_afterAll hq
  have := h before hbefore
  simp only [opened] at hcount ⊢
  omega

theorem staysWithin_count (p : Progress) (ks : List Token.Kind) :
    p.StaysWithin (p.opened + ks.count .openParen) ks := by
  intro before q hbefore hq
  have hcount := opened_afterAll hq
  have := hbefore.sublist.count_le Token.Kind.openParen
  omega

def enclosed : Progress → Progress
  | operand n => operand (n + 1)
  | operator n => operator (n + 1)

theorem afterAll_enclosed (h : p.afterAll ks = some q) :
    p.enclosed.afterAll ks = some q.enclosed := by
  induction ks generalizing p with
  | nil => cases h; rfl
  | cons k ks ih =>
    obtain ⟨p', hp', hks⟩ := Progress.afterAll_cons_eq_some.mp h
    have hnext : p.enclosed.after k = some p'.enclosed := by
      rcases after_cases hp' with ⟨n, rfl, rfl | rfl, rfl⟩ | ⟨n, rfl, rfl, rfl⟩ |
        ⟨n, rfl, hk, rfl⟩ | ⟨n, rfl, rfl, rfl⟩
      case inr.inr.inl => exact after_operator hk
      all_goals rfl
    rw [afterAll_cons, hnext]
    exact ih hks

/-- Without the group around it the progress goes the same way, until the group closes. -/
theorem after_of_enclosed (h : p.enclosed.after k = some q) :
    (∃ q', p.after k = some q' ∧ q = q'.enclosed) ∨ p = operator 0 ∧ k = .closeParen := by
  rcases after_cases h with ⟨n, hp, rfl | rfl, rfl⟩ | ⟨n, hp, rfl, rfl⟩ | ⟨n, hp, hk, rfl⟩ |
    ⟨n, hp, rfl, rfl⟩
  case inr.inr.inl =>
    cases p <;> cases hp
    exact .inl ⟨_, after_operator hk, rfl⟩
  case inr.inr.inr =>
    rcases p with _ | ⟨_ | m⟩ <;> cases hp
    · exact .inr ⟨rfl, rfl⟩
    · exact .inl ⟨_, rfl, rfl⟩
  all_goals
    cases p <;> cases hp
    exact .inl ⟨_, rfl, rfl⟩

end Progress

namespace Parse

-- ---------------------------------------------------------------------------
-- Statements
-- ---------------------------------------------------------------------------

theorem assignmentNext_of_not_mem (h : .equals ∉ (State.rest s).map Token.kind) :
    s.assignmentNext = false := by
  rw [← Bool.not_eq_true, State.assignmentNext_iff]
  rintro ⟨target, equals, rest, hs, -, he⟩
  simp [hs, he] at h

theorem statement_cases (h : Derives .statement (tokens.map Token.kind)) :
    (Progress.operand 0).afterAll (tokens.map Token.kind) = some (.operator 0) ∨
    ∃ target equals value, tokens = target :: equals :: value ∧ target.kind = .name ∧
      equals.kind = .equals ∧
      (Progress.operand 0).afterAll (value.map Token.kind) = some (.operator 0) := by
  generalize hks : tokens.map Token.kind = ks at h
  cases h with
  | plain h =>
    subst hks
    exact .inl (derives_expression_iff.mp h)
  | assigned h =>
    cases h with
    | assignment h =>
      obtain ⟨target, rest, rfl, ht, hrest⟩ := List.map_eq_cons_iff.mp hks
      obtain ⟨equals, value, rfl, he, rfl⟩ := List.map_eq_cons_iff.mp hrest
      exact .inr ⟨target, equals, value, rfl, ht, he, derives_expression_iff.mp h⟩

-- ---------------------------------------------------------------------------
-- Where nothing is wrong
-- ---------------------------------------------------------------------------

variable {p q : Progress} {s : State} {used more : List Token}

theorem RunWithin.along (hp : p.afterAll (used.map Token.kind) = some q)
    (hs : s.rest = used ++ more) (hlimit : p.StaysWithin limit (used.map Token.kind)) :
    RunWithin limit ⟨p, s, kept, r⟩ ⟨q, s.takeAll used, kept ++ used, r⟩ := by
  induction used generalizing p s kept with
  | nil =>
    cases hp
    simpa using Relation.ReflTransGen.refl
  | cons t used ih =>
    obtain ⟨p', hp', hused⟩ := Progress.afterAll_cons_eq_some.mp hp
    have hrun : RunWithin limit ⟨p', s.take, kept ++ [t], r⟩
        ⟨q, s.take.takeAll used, kept ++ [t] ++ used, r⟩ :=
      ih hused (by simp [hs]) (hlimit.tail hp')
    rw [List.append_assoc, List.singleton_append] at hrun
    exact .head (.take (by simpa using hs) hp') (hlimit.head hp') hrun

theorem Run.along (hp : p.afterAll (used.map Token.kind) = some q) (hs : s.rest = used ++ more) :
    Run ⟨p, s, kept, r⟩ ⟨q, s.takeAll used, kept ++ used, r⟩ :=
  (RunWithin.along hp hs (p.staysWithin_count _)).run

/-- The parse goes on from here to the end of the statement, and has found these faults then. -/
def Config.Finds (c : Config) (faults : List Fault) : Prop :=
  ∃ c', Run c c' ∧ c'.Done ∧ c'.state.finish.faults = faults

theorem Config.Finds.of_run (h : Run c c') (h' : c'.Finds faults) : c.Finds faults := by
  obtain ⟨c'', hrun, hdone, hfaults⟩ := h'
  exact ⟨c'', h.trans hrun, hdone, hfaults⟩

theorem Config.Finds.of_step (h : Step c c') (h' : c'.Finds faults) : c.Finds faults :=
  .of_run (.single h) h'

theorem Config.exists_finds (c : Config) : ∃ faults, c.Finds faults ∧ c.state.faults <:+ faults := by
  obtain ⟨c', hrun, hdone⟩ := c.exists_done
  exact ⟨_, ⟨c', hrun, hdone, rfl⟩, hrun.faults_suffix.trans c'.state.faults_suffix_finish⟩

theorem parse_of_finds (h : (Config.start tokens).Finds faults)
    (hlimit : countOpening tokens ≤ limit) :
    ∃ tree, parse limit tokens = .ok ⟨tree, faults.reverse⟩ := by
  obtain ⟨c, hrun, hdone, rfl⟩ := h
  obtain ⟨p, hp⟩ := exists_parse hlimit
  exact ⟨p.tree, by rw [hp, ← parse_faults_of_run hp hrun hdone]⟩

theorem State.finish_of_rest (hs : State.rest s = t :: more) : s.finish = s.report := by
  simp [State.finish, hs]

theorem clean_start (tokens : List Token) : State.Clean ⟨tokens, [], false⟩ := ⟨rfl, rfl⟩

theorem State.Clean.faults_report_cons (h : State.Clean s) (hs : s.rest = t :: more) :
    s.report.faults = [.unexpected t] := by
  simp [h.faults_report, hs, Fault.ofNext?]

theorem State.Clean.recovering_report (h : State.Clean s) : s.report.recovering = true := by
  simp [State.report, h.faults, h.recovering]

theorem State.faults_takeAll (s : State) (used : List Token) :
    (s.takeAll used).faults = s.faults := by
  induction used generalizing s with
  | nil => rfl
  | cons t used ih => exact ih s.take

theorem RunWithin.to_end (h : p.afterAll (s.rest.map Token.kind) = some (.operator 0))
    (hlimit : p.StaysWithin limit (s.rest.map Token.kind)) :
    ∃ s', RunWithin limit ⟨p, s, kept, r⟩ ⟨.operator 0, s', kept ++ s.rest, r⟩ ∧
      s'.Past (.chain .sum) ∧ s'.finish.faults = s.faults := by
  have hrest : (s.takeAll s.rest).rest = [] := State.rest_takeAll (by simp)
  refine ⟨_, .along h (List.append_nil _).symm hlimit, State.past_of_nil hrest _, ?_⟩
  simp [State.finish, hrest, State.faults_takeAll]

theorem finds_nothing_more (h : p.afterAll (s.rest.map Token.kind) = some (.operator 0)) :
    Config.Finds ⟨p, s, kept, r⟩ s.faults := by
  obtain ⟨s', hrun, hpast, hfaults⟩ := RunWithin.to_end h (p.staysWithin_count _)
  exact ⟨_, hrun.run, ⟨rfl, hpast⟩, hfaults⟩

-- ---------------------------------------------------------------------------
-- Where nothing is read any more
-- ---------------------------------------------------------------------------

theorem State.report_of_recovering (h : State.recovering s = true) : s.report = s := by
  simp [State.report, h]

/-- No group is open that could end, so the statement does. -/
theorem finds_report_at_end (hs : s.rest = t :: more) (hop : t.kind.isOperator = false) :
    Config.Finds ⟨.operator 0, s, kept, r⟩ s.report.faults := by
  refine ⟨_, .refl, ⟨rfl, State.past_of_cons hs hop⟩, ?_⟩
  rw [State.finish_of_rest hs]

/-- While the parse recovers in front of a token that no group can end with or leave out, all
groups end without another fault. -/
theorem finds_of_stuck (hrecovering : s.recovering = true) (hs : s.rest = t :: more)
    (hop : t.kind.isOperator = false) (hclose : t.kind ≠ .closeParen)
    (hafter : s.kindAfter? ≠ some .closeParen) (m : Nat) :
    Config.Finds ⟨.operator m, s, kept, r⟩ s.faults := by
  have hreport := State.report_of_recovering hrecovering
  induction m generalizing r with
  | zero => simpa [hreport] using finds_report_at_end hs hop
  | succ m ih =>
    have hstuck : (Progress.operator (m + 1)).StuckAt s.rest := by
      rw [hs]
      exact Progress.after_operator_eq_none hop (fun hk => absurd hk hclose)
    have hstep : Step ⟨.operator (m + 1), s, kept, r⟩ ⟨.operator m, s.report, kept, true⟩ :=
      .assumed hstuck hafter
    rw [hreport] at hstep
    exact .of_step hstep ih

-- ---------------------------------------------------------------------------
-- Tokens that are left out
-- ---------------------------------------------------------------------------

theorem startsFactor_of_isStray (h : isStray k = true) : k.startsFactor = false := by
  cases k <;> simp_all [isStray, Token.Kind.isOperator, Token.Kind.startsFactor]

theorem isStray_of_isOperator (h : k.isOperator = true) : isStray k = true := by
  simp [isStray, h]

theorem exists_cons_of_operand (h : (Progress.operand m).afterAll (more.map Token.kind) =
    some (.operator n)) : ∃ next rest, more = next :: rest ∧ next.kind.startsFactor = true := by
  cases more with
  | nil => cases h
  | cons next rest =>
    obtain ⟨q, hq, -⟩ := Progress.afterAll_cons_eq_some.mp h
    exact ⟨next, rest, rfl, Progress.startsFactor_of_after hq⟩

theorem step_stray (hrest : s.rest = t :: next :: rest) (ht : isStray t.kind = true)
    (hnext : next.kind.startsFactor = true) :
    Step ⟨.operand m, s, kept, r⟩ ⟨.operand m, s.report.skip, kept, r⟩ := by
  refine .stray ?_ (State.strayNext_iff.mpr ⟨t, next, rest, hrest, ht, hnext⟩)
  rw [hrest]
  exact Progress.after_operand_eq_none (startsFactor_of_isStray ht)

theorem RunWithin.leave_out_stray (hs : s.Clean) (hrest : s.rest = t :: more)
    (ht : isStray t.kind = true)
    (h : (Progress.operand m).afterAll (more.map Token.kind) = some (.operator 0))
    (hlimit : (Progress.operand m).StaysWithin limit (more.map Token.kind)) :
    ∃ s', RunWithin limit ⟨.operand m, s, kept, r⟩ ⟨.operator 0, s', kept ++ more, r⟩ ∧
      s'.Past (.chain .sum) ∧ s'.finish.faults = [.unexpected t] := by
  obtain ⟨next, rest, hmore, hnext⟩ := exists_cons_of_operand h
  have hstep : Step ⟨.operand m, s, kept, r⟩ ⟨.operand m, s.report.skip, kept, r⟩ :=
    step_stray (hmore ▸ hrest) ht hnext
  have hskip : s.report.skip.rest = more := by simp [hrest]
  rw [← hs.faults_report_cons hrest, ← State.faults_skip]
  rw [← hskip] at h hlimit ⊢
  obtain ⟨s', hrun, hend⟩ := RunWithin.to_end h hlimit
  exact ⟨s', .head hstep hlimit.opened_le hrun, hend⟩

theorem RunWithin.leave_out_junk (hs : s.Clean) (hrest : s.rest = t :: closing :: more)
    (hop : t.kind.isOperator = false) (hne : t.kind ≠ .closeParen)
    (hclose : closing.kind = .closeParen)
    (h : (Progress.operator m).afterAll (more.map Token.kind) = some (.operator 0))
    (hlimit : (Progress.operator m).StaysWithin limit (more.map Token.kind)) :
    ∃ s', RunWithin limit ⟨.operator (m + 1), s, kept, r⟩
        ⟨.operator 0, s', kept ++ closing :: more, r⟩ ∧
      s'.Past (.chain .sum) ∧ s'.finish.faults = [.unexpected t] := by
  have hstuck : (Progress.operator (m + 1)).StuckAt s.rest := by
    rw [hrest]
    exact Progress.after_operator_eq_none hop fun hk => absurd hk hne
  have hskip : s.report.skip.take.rest = more := by simp [hrest]
  rw [← hs.faults_report_cons hrest, ← State.faults_skip, ← State.faults_take]
  rw [← hskip] at h hlimit
  obtain ⟨s', hrun, hend⟩ : ∃ s', RunWithin limit
      ⟨.operator m, s.report.skip.take, kept ++ [closing], r⟩
      ⟨.operator 0, s', kept ++ [closing] ++ s.report.skip.take.rest, r⟩ ∧
      s'.Past (.chain .sum) ∧ s'.finish.faults = s.report.skip.take.faults :=
    RunWithin.to_end h hlimit
  rw [hskip, List.append_assoc, List.singleton_append] at hrun
  exact ⟨s', .head (.junk hstuck hrest hclose) hlimit.opened_le hrun, hend⟩

-- ---------------------------------------------------------------------------
-- Something is missing
-- ---------------------------------------------------------------------------

theorem step_empty (hrest : s.rest = t :: more) (hfactor : t.kind.startsFactor = false)
    (hstray : isStray t.kind = false) :
    Step ⟨.operand m, s, kept, r⟩ ⟨.operator m, s.report, kept, true⟩ := by
  refine .empty ?_ (by simp [State.strayNext, State.kind?, hrest, hstray])
  rw [hrest]
  exact Progress.after_operand_eq_none hfactor

theorem finds_stray (hs : s.Clean) (hrest : s.rest = t :: more) (ht : isStray t.kind = true)
    (h : (Progress.operand m).afterAll (more.map Token.kind) = some (.operator 0)) :
    Config.Finds ⟨.operand m, s, kept, r⟩ [.unexpected t] := by
  obtain ⟨s', hrun, hpast, hfaults⟩ :=
    RunWithin.leave_out_stray hs hrest ht h (Progress.staysWithin_count _ _)
  exact ⟨_, hrun.run, ⟨rfl, hpast⟩, hfaults⟩

theorem finds_missing_operand (hs : s.Clean)
    (h : (Progress.operator m).afterAll (s.rest.map Token.kind) = some (.operator 0)) :
    Config.Finds ⟨.operand m, s, kept, r⟩ [.ofNext? s.rest.head?] := by
  rw [← hs.faults_report]
  cases hrest : s.rest with
  | nil =>
    have hempty : Step ⟨.operand m, s, kept, r⟩ ⟨.operator m, s.report, kept, true⟩ :=
      .empty (by simp [hrest, Progress.StuckAt]) (by simp [State.strayNext, State.kind?, hrest])
    exact .of_step hempty (finds_nothing_more (by simpa [hrest] using h))
  | cons t rest =>
    rw [hrest] at h
    obtain ⟨q, hq, hmore⟩ := Progress.afterAll_cons_eq_some.mp h
    rcases Progress.after_cases hq with ⟨n, hp, -⟩ | ⟨n, hp, -⟩ | ⟨n, ⟨⟩, hk, rfl⟩ | ⟨n, ⟨⟩, hk, rfl⟩
    · cases hp
    · cases hp
    · -- the operand after the operator stands in for the missing one
      rw [hs.faults_report_cons hrest]
      exact finds_stray hs hrest (isStray_of_isOperator hk) hmore
    · exact .of_step (step_empty hrest (by rw [hk]; rfl) (by rw [hk]; rfl))
        (finds_nothing_more (by simpa [hrest] using h))

theorem finds_missing_opening (hs : s.Clean)
    (h : p.enclosed.afterAll (s.rest.map Token.kind) = some (.operator 0)) :
    ∃ fault, Config.Finds ⟨p, s, kept, r⟩ [fault] := by
  generalize hrest : s.rest = rest at h
  induction rest generalizing p s kept with
  | nil => cases p <;> cases h
  | cons t rest ih =>
    obtain ⟨q, hq, hmore⟩ := Progress.afterAll_cons_eq_some.mp h
    rcases Progress.after_of_enclosed hq with ⟨q', hq', rfl⟩ | ⟨rfl, hk⟩
    · obtain ⟨fault, hfinds⟩ : ∃ fault, Config.Finds ⟨q', s.take, kept ++ [t], r⟩ [fault] :=
        ih hs.take (by simp [hrest]) hmore
      exact ⟨fault, .of_step (.take hrest hq') hfinds⟩
    · refine ⟨.unexpected t, ?_⟩
      rw [← hs.faults_report_cons hrest]
      exact finds_report_at_end hrest (by rw [hk]; rfl)

theorem finds_missing_closing (hs : s.Clean)
    (h : p.afterAll (s.rest.map Token.kind) = some (.operator 0)) :
    Config.Finds ⟨p.enclosed, s, kept, r⟩ [.endOfInput] := by
  have hrest : (s.takeAll s.rest).rest = [] := State.rest_takeAll (by simp)
  refine .of_run (Run.along (Progress.afterAll_enclosed h) (List.append_nil _).symm) ?_
  have hstuck : (Progress.operator 1).StuckAt (s.takeAll s.rest).rest := by
    simp [hrest, Progress.StuckAt]
  have hafter : (s.takeAll s.rest).kindAfter? ≠ some .closeParen := by simp [State.kindAfter?, hrest]
  have hfaults : (s.takeAll s.rest).report.faults = [.endOfInput] := by
    rw [(hs.takeAll s.rest).faults_report, hrest]
    rfl
  refine .of_step (.assumed hstuck hafter) ?_
  rw [← hfaults]
  exact finds_nothing_more (by simp [hrest])

-- ---------------------------------------------------------------------------
-- Something is too much
-- ---------------------------------------------------------------------------

/-- In the place of an operator there is a token that is none and closes no group. It is left out
if a group ends after it. -/
theorem finds_redundant (hs : s.Clean) (hrest : s.rest = t :: more)
    (hop : t.kind.isOperator = false) (hclose : t.kind ≠ .closeParen)
    (hafter : s.kindAfter? = some .closeParen →
      (Progress.operator m).afterAll (more.map Token.kind) = some (.operator 0)) :
    Config.Finds ⟨.operator m, s, kept, r⟩ [.unexpected t] := by
  rw [← hs.faults_report_cons hrest]
  cases m with
  | zero => exact finds_report_at_end hrest hop
  | succ m =>
    by_cases hk : s.kindAfter? = some .closeParen
    · obtain ⟨closing, rest, rfl, hc⟩ : ∃ closing rest, more = closing :: rest ∧
          closing.kind = .closeParen := by
        cases more with
        | nil => simp [State.kindAfter?, hrest] at hk
        | cons closing rest => exact ⟨closing, rest, rfl, by simpa [State.kindAfter?, hrest] using hk⟩
      have hall := hafter hk
      rw [List.map_cons, hc] at hall
      obtain ⟨_, ⟨⟩, hend⟩ := Progress.afterAll_cons_eq_some.mp hall
      obtain ⟨s', hrun, hpast, hfaults⟩ :=
        RunWithin.leave_out_junk hs hrest hop hclose hc hend (Progress.staysWithin_count _ _)
      rw [hs.faults_report_cons hrest]
      exact ⟨_, hrun.run, ⟨rfl, hpast⟩, hfaults⟩
    · have hstuck : (Progress.operator (m + 1)).StuckAt s.rest := by
        rw [hrest]
        exact Progress.after_operator_eq_none hop (fun hk => absurd hk hclose)
      refine .of_step (.assumed hstuck hk) ?_
      exact finds_of_stuck hs.recovering_report (by simpa using hrest) hop hclose
        (by simpa [State.kindAfter?] using hk) m

theorem finds_missing_operator (hs : s.Clean) (hrest : s.rest = t :: more)
    (h : (Progress.operand m).afterAll (s.rest.map Token.kind) = some (.operator 0)) :
    Config.Finds ⟨.operator m, s, kept, r⟩ [.unexpected t] := by
  rw [hrest] at h
  obtain ⟨q, hq, hmore⟩ := Progress.afterAll_cons_eq_some.mp h
  have hfactor := Progress.startsFactor_of_after hq
  refine finds_redundant hs hrest ?_ ?_ ?_
  · rw [← Bool.not_eq_true]
    intro hop
    simp [Token.Kind.startsFactor_of_isOperator hop, Progress.wantsOperand] at hfactor
  · intro hk
    simp [hk, Token.Kind.startsFactor, Progress.wantsOperand] at hfactor
  · -- no group ends right after its parenthesis, so the operand is a number or a name
    intro hclose
    rcases Progress.after_cases hq with ⟨n, ⟨⟩, -, rfl⟩ | ⟨n, ⟨⟩, -, rfl⟩ | ⟨n, hp, -⟩ | ⟨n, hp, -⟩
    · exact hmore
    · cases more with
      | nil => cases hmore
      | cons closing more =>
        have hc : closing.kind = .closeParen := by simpa [State.kindAfter?, hrest] using hclose
        simp [hc, Progress.afterAll_cons, Progress.after] at hmore
    · cases hp
    · cases hp

end Parse

end FormulaCheck
