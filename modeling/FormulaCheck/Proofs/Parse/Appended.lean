import FormulaCheck.Proofs.Parse.Mistakes

/-!
# More tokens at the end

Tokens that are appended change nothing about a run while two tokens are left, since a parse looks
no further ahead. So a run either stays the same or has come to its last token (`RunWithin.append`).
In the second case all that it may still find is a fault at the end of the tokens (`Ending`), and
what it has found so far the longer run finds as well.
-/

namespace FormulaCheck

namespace Parse

-- ---------------------------------------------------------------------------
-- States with more tokens
-- ---------------------------------------------------------------------------

namespace State

variable {s : State} {t : Token} {rest : List Token}

def append (s : State) (more : List Token) : State := { s with rest := s.rest ++ more }

theorem rest_append (hs : s.rest = t :: rest) (more : List Token) :
    (s.append more).rest = t :: (rest ++ more) := by
  simp [append, hs]

theorem take_append (hs : s.rest = t :: rest) (more : List Token) :
    (s.append more).take = s.take.append more := by
  simp [append, take, hs]

theorem skip_append (hs : s.rest = t :: rest) (more : List Token) :
    (s.append more).skip = s.skip.append more := by
  simp [append, skip, hs]

theorem report_append (hs : s.rest = t :: rest) (more : List Token) :
    (s.append more).report = s.report.append more := by
  simp only [append, report, hs, List.cons_append, List.head?_cons]
  split
  · rw [hs, List.cons_append]
  · rfl

theorem report_report (s : State) : s.report.report = s.report := by
  simp only [report]
  split <;> simp_all

theorem stuckAt_append {p : Progress} (hs : s.rest = t :: rest) (h : p.StuckAt s.rest)
    (more : List Token) : p.StuckAt (s.append more).rest := by
  rw [rest_append hs]
  rwa [hs] at h

theorem ahead_append (hs : s.rest = t :: next :: rest) (more : List Token) :
    (s.append more).strayNext = s.strayNext ∧ (s.append more).kindAfter? = s.kindAfter? := by
  simp [append, strayNext, kind?, kindAfter?, hs]

theorem last_or_ahead (s : State) :
    (s.rest = [] ∨ ∃ t, s.rest = [t]) ∨ ∃ t next rest, s.rest = t :: next :: rest := by
  rcases s.rest with _ | ⟨t, _ | ⟨next, rest⟩⟩
  · exact .inl (.inl rfl)
  · exact .inl (.inr ⟨t, rfl⟩)
  · exact .inr ⟨t, next, rest, rfl⟩

/-- At the end of the tokens there is one fault to find. -/
theorem faults_report_of_nil (hs : s.rest = [])
    (hf : s.faults = found ∨ s.faults = .endOfInput :: found) :
    s.report.faults = found ∨ s.report.faults = .endOfInput :: found := by
  simp only [report, hs, List.head?_nil, Fault.ofNext?]
  split
  · exact hf
  · next hnew =>
    rcases hf with hf | hf
    · exact .inr (by rw [hf])
    · simp [hf] at hnew

end State

def Config.append (c : Config) (more : List Token) : Config :=
  { c with state := c.state.append more }

-- ---------------------------------------------------------------------------
-- The last token
-- ---------------------------------------------------------------------------

/-- A run from here adds nothing to the faults but one at the end of the tokens: no token is left,
or the last one has been reported, or it is an operand. -/
inductive Ending (found : List Fault) : Config → Prop
  | nothing : s.rest = [] → s.faults = found ∨ s.faults = .endOfInput :: found →
      Ending found ⟨p, s, kept, r⟩
  | reported : s.rest = [t] → s.faults = found → s.report = s →
      Ending found ⟨.operator m, s, kept, r⟩
  | symbol : s.rest = [t] → t.kind.isSymbol = true → s.faults = found →
      Ending found ⟨.operand m, s, kept, r⟩

namespace Ending

theorem step (h : Ending found c) (hstep : Step c c') : Ending found c' := by
  cases h with
  | nothing hs hf =>
    cases hstep with
    | take hs' | junk _ hs' => cases hs.symm.trans hs'
    | stray _ hstray => simp [State.strayNext, State.kind?, hs] at hstray
    | empty | assumed => exact .nothing (by simpa using hs) (State.faults_report_of_nil hs hf)
  | reported hs hf hreport =>
    cases hstep with
    | take => exact .nothing (by simp [hs]) (.inl hf)
    | junk _ hs' => cases hs.symm.trans hs'
    | assumed =>
      rw [hreport]
      exact .reported hs hf hreport
  | symbol hs hk hf =>
    cases hstep.deterministic (step_symbol hs hk)
    exact .nothing (by simp [hs]) (.inl hf)

theorem run (h : Ending found c) (hrun : Run c c') : Ending found c' := by
  induction hrun with
  | refl => exact h
  | tail _ hstep ih => exact ih.step hstep

theorem faults_finish (h : Ending found c) (hc : c.Done) :
    c.state.finish.faults = found ∨ c.state.finish.faults = .endOfInput :: found := by
  obtain ⟨hp, -⟩ := hc
  cases h with
  | nothing hs hf => simpa [State.finish, hs] using hf
  | reported hs hf hreport => exact .inl (by simpa [State.finish, hs, hreport] using hf)
  | symbol => cases hp

theorem not_tooDeep (h : Ending found c) : ¬ c.TooDeep limit deep := by
  rintro ⟨hp, hk, rest, hs⟩
  cases h with
  | nothing hs' => cases hs'.symm.trans hs
  | reported => cases hp
  | symbol hs' hsymbol =>
    cases hs'.symm.trans hs
    simp [hk, Token.Kind.isSymbol] at hsymbol

end Ending

-- ---------------------------------------------------------------------------
-- Runs with more tokens
-- ---------------------------------------------------------------------------

/-- From the first place a run is about to end, and what has been found there a run from the second
place finds as well. -/
def Surpassed (c d : Config) : Prop :=
  ∃ found e, Ending found c ∧ Run d e ∧ found <:+ e.state.faults

/-- What is missing at the last token is reported there also if more tokens come. -/
theorem surpassed_of_stuckAt (hstuck : p.StuckAt s.rest) (hp : p ≠ .operator 0)
    (hlast : s.rest = [] ∨ ∃ t, s.rest = [t]) (more : List Token) :
    Surpassed ⟨.operator m, s.report, kept', r'⟩ (.append ⟨p, s, kept, r⟩ more) := by
  rcases hlast with hs | ⟨t, hs⟩
  · exact ⟨s.faults, _, .nothing (by simpa using hs) (State.faults_report_of_nil hs (.inl rfl)),
      .refl, List.suffix_rfl⟩
  · obtain ⟨e, hstep, he⟩ := exists_step_of_stuckAt (State.stuckAt_append hs hstuck more) hp
    refine ⟨s.report.faults, e, ?_, .single hstep, ?_⟩
    · exact .reported (by simpa using hs) rfl s.report_report
    · rw [he, State.report_append hs]
      exact List.suffix_rfl

theorem Step.append (h : Step c c') (more : List Token) :
    Step (c.append more) (c'.append more) ∨ Surpassed c' (c.append more) := by
  cases h with
  | take hs hq =>
    refine .inl ?_
    simp only [Config.append, ← State.take_append hs]
    exact .take (State.rest_append hs more) hq
  | stray hstuck hstray =>
    obtain ⟨t, next, rest, hs, -⟩ := State.strayNext_iff.mp hstray
    refine .inl ?_
    simp only [Config.append]
    rw [← State.skip_append (by simpa using hs), ← State.report_append hs]
    exact .stray (State.stuckAt_append hs hstuck more)
      (by rw [(State.ahead_append hs more).1, hstray])
  | @empty m s kept r hstuck hstray =>
    rcases s.last_or_ahead with hlast | ⟨t, next, rest, hs⟩
    · exact .inr (surpassed_of_stuckAt hstuck nofun hlast more)
    refine .inl ?_
    simp only [Config.append, ← State.report_append hs]
    exact .empty (State.stuckAt_append hs hstuck more)
      (by rw [(State.ahead_append hs more).1, hstray])
  | @junk _ _ closing rest s _ _ hstuck hs hclose =>
    have hskip : s.report.skip.rest = closing :: rest := by simp [hs]
    refine .inl ?_
    simp only [Config.append]
    rw [← State.take_append hskip, ← State.skip_append (by simpa using hs),
      ← State.report_append hs]
    exact .junk (State.stuckAt_append hs hstuck more) (State.rest_append hs more) hclose
  | @assumed m s kept r hstuck hafter =>
    rcases s.last_or_ahead with hlast | ⟨t, next, rest, hs⟩
    · exact .inr (surpassed_of_stuckAt hstuck nofun hlast more)
    refine .inl ?_
    simp only [Config.append, ← State.report_append hs]
    exact .assumed (State.stuckAt_append hs hstuck more) (by rwa [(State.ahead_append hs more).2])

theorem Surpassed.step (h : Surpassed c d) (hstep : Step c c') : Surpassed c' d := by
  obtain ⟨found, e, hending, hrun, hfound⟩ := h
  exact ⟨found, e, hending.step hstep, hrun, hfound⟩

theorem Surpassed.of_run (hrun : Run d d') (h : Surpassed c d') : Surpassed c d := by
  obtain ⟨found, e, hending, hrun', hfound⟩ := h
  exact ⟨found, e, hending, hrun.trans hrun', hfound⟩

theorem RunWithin.append (h : RunWithin limit c c') (more : List Token) :
    RunWithin limit (c.append more) (c'.append more) ∨ Surpassed c' (c.append more) := by
  induction h with
  | refl => exact .inl .refl
  | tail _ hstep ih =>
    rcases ih with hrun | hsurpassed
    · rcases hstep.1.append more with hstep' | hsurpassed
      · exact .inl (hrun.tail ⟨hstep', hstep.2⟩)
      · exact .inr (hsurpassed.of_run hrun.run)
    · exact .inr (hsurpassed.step hstep.1)

/-- More tokens make an assignment only of a name alone or of no tokens. -/
theorem Config.start_append (tokens more : List Token) :
    start (tokens ++ more) = (start tokens).append more ∨ Ending [] (start tokens) := by
  rcases tokens with _ | ⟨t, _ | ⟨next, rest⟩⟩
  · exact .inr (.nothing rfl (.inl rfl))
  · have hplain : State.assignmentNext ⟨[t], [], false⟩ = false := by
      simp [State.assignmentNext, State.kindAfter?]
    rw [start_plain hplain]
    cases hmore : State.assignmentNext ⟨[t] ++ more, [], false⟩ with
    | false => exact .inl (start_plain hmore)
    | true =>
      obtain ⟨target, equals, rest, hs, ht, -⟩ := State.assignmentNext_iff.mp hmore
      cases hs
      exact .inr (.symbol rfl (by rw [ht]; rfl) rfl)
  · refine .inl ?_
    cases hnext : State.assignmentNext ⟨t :: next :: rest, [], false⟩ with
    | false =>
      have hmore : State.assignmentNext ⟨t :: next :: rest ++ more, [], false⟩ = false := hnext
      rw [start_plain hnext, start_plain hmore]
      rfl
    | true =>
      obtain ⟨target, equals, rest', hs, ht, he⟩ := State.assignmentNext_iff.mp hnext
      cases hs
      rw [List.cons_append, List.cons_append, start_assigned ht he, start_assigned ht he]
      rfl

theorem RunWithin.append_start (h : RunWithin limit (.start tokens) c) (more : List Token) :
    RunWithin limit (.start (tokens ++ more)) (c.append more) ∨
      Surpassed c (.start (tokens ++ more)) := by
  rcases Config.start_append tokens more with hstart | hending
  · rw [hstart]
    exact h.append more
  · exact .inr ⟨[], _, hending.run h.run, .refl, List.nil_suffix⟩

/-- Where a statement ends in front of a token, it ends there with more tokens as well. -/
theorem Config.Done.faults_suffix (h : Config.Done c) (hrun : Run (c.append more) d) (hd : d.Done) :
    c.state.finish.faults <:+ d.state.finish.faults := by
  cases hs : c.state.rest with
  | nil =>
    have hfinish : c.state.finish = c.state := by simp [State.finish, hs]
    rw [hfinish]
    exact hrun.faults_suffix.trans d.state.faults_suffix_finish
  | cons t rest =>
    have hrest : (c.append more).state.rest = t :: (rest ++ more) := State.rest_append hs more
    have hpast : (c.append more).state.Past (.chain .sum) := by
      simpa [State.Past, State.kind?, hs, hrest] using h.2
    have hdone : (c.append more).Done := ⟨h.1, hpast⟩
    obtain rfl := Run.eq_of_done .refl hdone hrun hd
    rw [State.finish_of_rest hs, State.finish_of_rest hrest, Config.append, State.report_append hs]
    exact List.suffix_rfl

end Parse

open Parse

/-- The faults without the last one, if that one is at the end of the tokens. -/
def withoutEnd (faults : List Fault) : List Fault :=
  if faults.getLast? = some .endOfInput then faults.dropLast else faults

theorem withoutEnd_prefix_self (faults : List Fault) : withoutEnd faults <+: faults := by
  unfold withoutEnd
  split
  · exact List.dropLast_prefix faults
  · exact List.prefix_rfl

theorem withoutEnd_prefix_reverse (h : faults = found ∨ faults = .endOfInput :: found) :
    withoutEnd faults.reverse <+: found.reverse := by
  rcases h with rfl | rfl
  · exact withoutEnd_prefix_self _
  · simp [withoutEnd]

/-- Tokens at the end change nothing that a parse has found before. If it is given up, it is given
up at the same parenthesis with them, and otherwise the faults that it finds, without one at the end
of the tokens, are the first ones that it finds with them. -/
theorem parse_append (limit : Nat) (tokens more : List Token) :
    (∀ e, parse limit tokens = .error e → parse limit (tokens ++ more) = .error e) ∧
      ∀ p q, parse limit tokens = .ok p → parse limit (tokens ++ more) = .ok q →
        withoutEnd p.faults <+: q.faults := by
  constructor
  · intro e h
    obtain ⟨c, deep, hrun, hdeep, rfl⟩ := exists_tooDeep_of_parse h
    rcases hrun.append_start more with hmore | ⟨_, _, hending, -⟩
    · obtain ⟨hp, hk, rest, hs⟩ := hdeep
      exact parse_eq_error_of_runWithin hmore ⟨hp, hk, _, State.rest_append hs more⟩
    · exact absurd hdeep hending.not_tooDeep
  · intro p q hp hq
    obtain ⟨c, hrun, hc, hfaults, -⟩ := exists_done_of_parse hp
    rw [hfaults]
    rcases hrun.append_start more with hmore | ⟨found, e, hending, hmore, hfound⟩
    · obtain ⟨d, hrun', hd, hfaults', -⟩ := exists_done_of_parse hq
      have hend : Run (c.append more) d := hrun'.run.of_halted (fun _ => hd.not_step) hmore.run
      rw [hfaults']
      exact (withoutEnd_prefix_self _).trans (List.reverse_prefix.mpr (hc.faults_suffix hend hd))
    · refine (withoutEnd_prefix_reverse (hending.faults_finish hc)).trans ?_
      exact (List.reverse_prefix.mpr hfound).trans (faults_prefix_of_run hq hmore)

/-- The plus sign of `+` is a fault in the place of an operand and another operand is missing after
it. In `+ a` it is left out, and there is no other fault. A parenthesis is too deep with and without
the name. -/
theorem parse_append_name :
    (parse 0 [.ofLexeme .openParen ['('] ⟨1, 1⟩] = .error ⟨0, ⟨1, 1⟩⟩ ∧
      parse 0 ([.ofLexeme .openParen ['('] ⟨1, 1⟩] ++ [.ofLexeme .name ['a'] ⟨1, 3⟩]) =
        .error ⟨0, ⟨1, 1⟩⟩) ∧
      ∃ p q, parse 256 [.ofLexeme .plus ['+'] ⟨1, 1⟩] = .ok p ∧
        parse 256 ([.ofLexeme .plus ['+'] ⟨1, 1⟩] ++ [.ofLexeme .name ['a'] ⟨1, 3⟩]) = .ok q ∧
        p.faults = [.unexpected (.ofLexeme .plus ['+'] ⟨1, 1⟩), .endOfInput] ∧
        withoutEnd p.faults <+: q.faults := by
  have hdeep : parse 0 [.ofLexeme .openParen ['('] ⟨1, 1⟩] = .error ⟨0, ⟨1, 1⟩⟩ := rfl
  have hshort : ReadsStatement 256 ⟨[.ofLexeme .plus ['+'] ⟨1, 1⟩], [], false⟩ _ _ :=
    have hfirst := .chain (.empty rfl rfl) (.tailEnd rfl)
    have hsecond := .chain (.empty rfl rfl) (.tailEnd rfl)
    .plain rfl (.chain hfirst (.tailMore rfl rfl hsecond (.tailEnd rfl)))
  have hlong : ReadsStatement 256 ⟨[.ofLexeme .plus ['+'] ⟨1, 1⟩] ++
      [.ofLexeme .name ['a'] ⟨1, 3⟩], [], false⟩ _ _ :=
    .plain rfl (.chain (.chain (.stray rfl rfl (.symbol rfl rfl)) (.tailEnd rfl)) (.tailEnd rfl))
  have hp := parse_ok_iff.mpr ⟨_, _, hshort, rfl, rfl⟩
  have hq := parse_ok_iff.mpr ⟨_, _, hlong, rfl, rfl⟩
  exact ⟨⟨hdeep, (parse_append _ _ _).1 _ hdeep⟩, _, _, hp, hq, rfl,
    (parse_append _ _ _).2 _ _ hp hq⟩

end FormulaCheck
