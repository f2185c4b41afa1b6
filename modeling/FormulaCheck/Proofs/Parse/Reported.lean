import FormulaCheck.Proofs.Grammar.Neighbours
import FormulaCheck.Proofs.Parse.Machine

/-!
# Where faults are found

A fault is recorded where the run is stuck, at the token that it is stuck at
(`Run.exists_reported`). On the way no more groups are open in the parse than in the tokens that
are used up (`Run.exists_used`), and a parenthesis that is assumed ends the parse
(`Run.operator_of_assumed`). So not every fault can stand in front of a parenthesis that is too deep
(`exists_used_of_reported`), and in front of that one more parentheses are open in the text than the
limit allows (`exists_prefix_of_parse_error`).
-/

namespace FormulaCheck

theorem exists_depthNext (depth : Nat) (hk : k ≠ Token.Kind.closeParen) :
    ∃ next, depthNext depth k = some next ∧ depth ≤ next := by
  by_cases hopen : k = .openParen
  · subst hopen
    exact ⟨depth + 1, rfl, Nat.le_succ depth⟩
  · exact ⟨depth, depthNext_of_ne hopen hk, Nat.le_refl depth⟩

theorem exists_depthNext_closing (h : opened < depth) :
    ∃ next, depthNext depth .closeParen = some next ∧ opened ≤ next := by
  obtain ⟨next, rfl⟩ := Nat.exists_eq_add_of_lt h
  exact ⟨opened + next, rfl, Nat.le_add_right ..⟩

theorem Progress.exists_depthNext (hq : Progress.after p k = some q) (hd : p.opened ≤ depth) :
    ∃ next, depthNext depth k = some next ∧ q.opened ≤ next := by
  rcases after_cases hq with ⟨n, rfl, hk, rfl⟩ | ⟨n, rfl, rfl, rfl⟩ | ⟨n, rfl, hk, rfl⟩ |
    ⟨n, rfl, rfl, rfl⟩
  · rcases hk with rfl | rfl <;> exact ⟨depth, rfl, hd⟩
  · exact ⟨depth + 1, rfl, Nat.succ_le_succ hd⟩
  · obtain ⟨hopen, hclose⟩ := Token.Kind.ne_paren_of_isOperator hk
    exact ⟨depth, depthNext_of_ne hopen hclose, hd⟩
  · exact exists_depthNext_closing hd

namespace Parse

-- ---------------------------------------------------------------------------
-- Tokens that are used up
-- ---------------------------------------------------------------------------

/-- No more groups are open in the parse than after the tokens that it has used up, and no
parenthesis that closes among these lacks its partner. -/
theorem Step.exists_used (h : Step c c') (hd : c.progress.opened ≤ depth) :
    ∃ used next, c.state.rest = used ++ c'.state.rest ∧
      depthAfter depth (used.map Token.kind) = some next ∧ c'.progress.opened ≤ next := by
  cases h with
  | @take t _ _ _ s _ _ hs hq =>
    obtain ⟨next, hnext, hopened⟩ := Progress.exists_depthNext hq hd
    exact ⟨[t], next, by simp [hs], by simp [depthAfter_cons, hnext], hopened⟩
  | stray hstuck hstray =>
    obtain ⟨t, next, rest, hs, ht, -⟩ := State.strayNext_iff.mp hstray
    have hclose : t.kind ≠ .closeParen := by
      intro hk
      simp [hk, isStray, Token.Kind.isOperator] at ht
    obtain ⟨next, hnext, hle⟩ := FormulaCheck.exists_depthNext depth hclose
    exact ⟨[t], next, by simp [hs], by simp [depthAfter_cons, hnext], hd.trans hle⟩
  | @junk _ stray closing _ s _ _ hstuck hs hclose =>
    have hstray : stray.kind ≠ .closeParen := by
      intro hk
      rw [hs, Progress.StuckAt, hk] at hstuck
      cases hstuck
    obtain ⟨depth', hdepth', hle⟩ := FormulaCheck.exists_depthNext depth hstray
    obtain ⟨next, hnext, hopened⟩ := exists_depthNext_closing (Nat.lt_of_lt_of_le hd hle)
    exact ⟨[stray, closing], next, by simp [hs], by simp [depthAfter_cons, hdepth', hclose, hnext],
      hopened⟩
  | empty => exact ⟨[], depth, by simp, rfl, hd⟩
  | assumed => exact ⟨[], depth, by simp, rfl, Nat.le_of_succ_le hd⟩

theorem Run.exists_used (h : Run c c') (hd : c.progress.opened ≤ depth) :
    ∃ used next, c.state.rest = used ++ c'.state.rest ∧
      depthAfter depth (used.map Token.kind) = some next ∧ c'.progress.opened ≤ next := by
  induction h with
  | refl => exact ⟨[], depth, rfl, rfl, hd⟩
  | tail _ hstep ih =>
    obtain ⟨used, next, hrest, hdepth, hopened⟩ := ih
    obtain ⟨used', next', hrest', hdepth', hopened'⟩ := hstep.exists_used hopened
    refine ⟨used ++ used', next', by rw [hrest, hrest', List.append_assoc], ?_, hopened'⟩
    rw [List.map_append, depthAfter_append, hdepth]
    exact hdepth'

theorem Run.rest_suffix (h : Run c c') : c'.state.rest <:+ c.state.rest := by
  obtain ⟨used, -, hrest, -⟩ := h.exists_used (Nat.le_refl _)
  exact ⟨used, hrest.symm⟩

theorem Config.exists_used_start (tokens : List Token) : (start tokens).progress = .operand 0 ∧
    ∃ used, tokens = used ++ (start tokens).state.rest ∧
      depthAfter 0 (used.map Token.kind) = some 0 := by
  cases hassigned : State.assignmentNext ⟨tokens, [], false⟩ with
  | false =>
    rw [start_plain hassigned]
    exact ⟨rfl, [], rfl, rfl⟩
  | true =>
    obtain ⟨target, equals, rest, rfl, ht, he⟩ := State.assignmentNext_iff.mp hassigned
    rw [start_assigned ht he]
    exact ⟨rfl, [target, equals], rfl, by simp [depthAfter_cons, ht, he, depthNext]⟩

theorem Run.exists_used_start (h : Run (.start tokens) c) :
    ∃ used depth, tokens = used ++ c.state.rest ∧
      depthAfter 0 (used.map Token.kind) = some depth ∧ c.progress.opened ≤ depth := by
  obtain ⟨hp, used, htokens, hused⟩ := Config.exists_used_start tokens
  obtain ⟨used', depth, hrest, hdepth, hopened⟩ := h.exists_used (Nat.le_of_eq (by rw [hp]))
  refine ⟨used ++ used', depth, by rw [List.append_assoc, ← hrest, ← htokens], ?_, hopened⟩
  rw [List.map_append, depthAfter_append, hused]
  exact hdepth

-- ---------------------------------------------------------------------------
-- Where a fault comes from
-- ---------------------------------------------------------------------------

theorem State.mem_faults_report (h : f ∈ (State.report s).faults) :
    f ∈ s.faults ∨ f = .ofNext? s.rest.head? := by
  unfold State.report at h
  dsimp only at h
  split at h
  · exact .inl h
  · exact (List.mem_cons.mp h).symm

theorem State.mem_faults_finish (h : f ∈ (State.finish s).faults) :
    f ∈ s.faults ∨ f = .ofNext? s.rest.head? := by
  unfold State.finish at h
  split at h
  · exact .inl h
  · exact State.mem_faults_report h

theorem exists_cons_of_ofNext? (h : .unexpected t = Fault.ofNext? (List.head? rest)) :
    ∃ more, rest = t :: more := by
  cases rest with
  | nil => cases h
  | cons next more =>
    cases h
    exact ⟨more, rfl⟩

theorem Config.faults_start (tokens : List Token) : (start tokens).state.faults = [] := by
  unfold start
  dsimp only
  split <;> rfl

theorem Step.mem_faults (h : Step c c') (hf : f ∈ c'.state.faults) : f ∈ c.state.faults ∨
    c.progress.StuckAt c.state.rest ∧ f = .ofNext? c.state.rest.head? := by
  cases h with
  | take => exact .inl hf
  | stray hstuck | empty hstuck | junk hstuck | assumed hstuck =>
    exact (State.mem_faults_report hf).imp_right fun hf => ⟨hstuck, hf⟩

theorem Run.exists_reported (h : Run c c') (hf : f ∈ c'.state.faults) : f ∈ c.state.faults ∨
    ∃ c₁, Run c c₁ ∧ c₁.progress.StuckAt c₁.state.rest ∧ f = .ofNext? c₁.state.rest.head? := by
  induction h with
  | refl => exact .inl hf
  | tail hrun hstep ih =>
    rcases hstep.mem_faults hf with hf | ⟨hstuck, hf⟩
    · exact ih hf
    · exact .inr ⟨_, hrun, hstuck, hf⟩

-- ---------------------------------------------------------------------------
-- Parentheses that are assumed
-- ---------------------------------------------------------------------------

/-- Where a parenthesis is assumed, no operand is read any more. -/
theorem Run.operator_of_assumed (h : Run ⟨.operator m, s, kept, r⟩ c) (hs : s.rest = t :: more)
    (hop : t.kind.isOperator = false) (hclose : t.kind ≠ .closeParen)
    (hafter : s.kindAfter? ≠ some .closeParen) :
    ∃ m', c.progress = .operator m' ∧ c.state.rest = t :: more := by
  induction h with
  | refl => exact ⟨m, rfl, hs⟩
  | tail _ hstep ih =>
    obtain ⟨m', hp, hrest⟩ := ih
    cases hstep with
    | take hs' hq =>
      cases hp
      cases hrest.symm.trans hs'
      rw [Progress.after_operator_eq_none hop fun hk => absurd hk hclose] at hq
      cases hq
    | stray | empty => cases hp
    | junk _ hs' hc =>
      cases hrest.symm.trans hs'
      simp [State.kindAfter?, hs, hc] at hafter
    | assumed => exact ⟨_, rfl, by simpa using hrest⟩

-- ---------------------------------------------------------------------------
-- In front of a parenthesis that is too deep
-- ---------------------------------------------------------------------------

/-- Where the run is stuck and gets to a parenthesis that is too deep all the same, a group is open
if it is stuck at a closing parenthesis, and an opening one has a closing one after it. -/
theorem Run.of_stuckAt (h : Run c cd) (hcd : cd.TooDeep limit deep)
    (hs : c.state.rest = t :: more) (hstuck : c.progress.StuckAt c.state.rest)
    (hne : t ∉ cd.state.rest) :
    (t.kind = .closeParen → 0 < c.progress.opened) ∧
      (t.kind = .openParen → more.head?.map Token.kind = some .closeParen) := by
  rcases Relation.ReflTransGen.cases_head h with rfl | ⟨c', hstep, hrun⟩
  · simp [hs] at hne
  cases hstep with
  | take hs' hq =>
    dsimp only at hstuck
    rw [hs', Progress.StuckAt, hq] at hstuck
    cases hstuck
  | stray _ hstray =>
    obtain ⟨_, next, rest, hs', ht, -⟩ := State.strayNext_iff.mp hstray
    cases hs.symm.trans hs'
    constructor <;>
    · intro hk
      simp [hk, isStray, Token.Kind.isOperator] at ht
  | @empty m s =>
    dsimp only at hs hstuck
    rw [hs] at hstuck
    constructor
    · intro hk
      refine Nat.pos_of_ne_zero ?_
      rintro rfl
      have hpast : s.report.Past (.chain .sum) :=
        State.past_of_cons (by simpa using hs) (by rw [hk]; rfl)
      rcases Relation.ReflTransGen.cases_head hrun with rfl | ⟨_, hstep, -⟩
      · cases hcd.1
      · exact absurd hstep (Config.Done.not_step ⟨rfl, hpast⟩)
    · intro hk
      rw [Progress.StuckAt, hk] at hstuck
      cases hstuck
  | junk _ hs' hc =>
    cases hs.symm.trans hs'
    exact ⟨fun _ => Nat.succ_pos _, fun _ => congrArg some hc⟩
  | @assumed m s _ _ _ hafter =>
    refine ⟨fun _ => Nat.succ_pos _, fun hk => ?_⟩
    obtain ⟨_, hp, -⟩ := Run.operator_of_assumed hrun (by simpa using hs) (by rw [hk]; rfl)
      (by simp [hk]) (by simpa [State.kindAfter?] using hafter)
    cases hp.symm.trans hcd.1

/-- A fault of the whole parse at a token in front of a parenthesis that is too deep: a closing
parenthesis has a partner in front of it, and an opening one directly after it. -/
theorem exists_used_of_reported (hdeep : Run (.start tokens) cd) (hcd : cd.TooDeep limit deep)
    (hrun : Run (.start tokens) c) (hc : c.Done) (hf : .unexpected t ∈ c.state.finish.faults)
    (ht : t ∉ cd.state.rest) :
    ∃ used more depth, tokens = used ++ t :: more ∧ deep ∈ more ∧
      depthAfter 0 (used.map Token.kind) = some depth ∧ (t.kind = .closeParen → 0 < depth) ∧
      (t.kind = .openParen → more.head?.map Token.kind = some .closeParen) := by
  have hend : Run cd c := hrun.of_halted (fun _ => hc.not_step) hdeep
  have hf : .unexpected t ∈ c.state.faults := by
    refine (State.mem_faults_finish hf).resolve_right fun hf => ?_
    obtain ⟨more, hs⟩ := exists_cons_of_ofNext? hf
    exact ht ((Run.rest_suffix hend).subset (by simp [hs]))
  rcases hrun.exists_reported hf with hf | ⟨c₁, hrun₁, hstuck, hf⟩
  · simp [Config.faults_start] at hf
  obtain ⟨more, hs⟩ := exists_cons_of_ofNext? hf
  have hrun₂ : Run c₁ cd := by
    refine (Relation.ReflTransGen.total_of_right_unique Step.rightUnique hrun₁ hdeep).resolve_right ?_
    intro h
    exact ht ((Run.rest_suffix h).subset (by simp [hs]))
  obtain ⟨used, depth, htokens, hdepth, hopened⟩ := hrun₁.exists_used_start
  obtain ⟨hclose, hopen⟩ := hrun₂.of_stuckAt hcd hs hstuck ht
  refine ⟨used, more, depth, by rw [htokens, hs], ?_, hdepth,
    fun hk => (hclose hk).trans_le hopened, hopen⟩
  obtain ⟨-, -, rest, hrest⟩ := hcd
  have hmem : deep ∈ t :: more := hs ▸ (Run.rest_suffix hrun₂).subset (by simp [hrest])
  refine (List.mem_cons.mp hmem).resolve_left ?_
  rintro rfl
  simp [hrest] at ht

end Parse

-- ---------------------------------------------------------------------------
-- Limits that no parse gets to
-- ---------------------------------------------------------------------------

open Parse

theorem exists_prefix_of_parse_error (h : parse limit tokens = .error e) :
    ∃ before, before <+: tokens.map Token.kind ∧
      before.count .closeParen + limit < before.count .openParen := by
  obtain ⟨c, deep, hrun, ⟨hp, hk, rest, hs⟩, -⟩ := exists_tooDeep_of_parse h
  obtain ⟨used, depth, htokens, hdepth, hopened⟩ := hrun.run.exists_used_start
  have hlimit : limit ≤ depth := by simpa [hp, Progress.opened] using hopened
  have hcount := count_of_depthAfter hdepth
  refine ⟨used.map Token.kind ++ [.openParen], ⟨rest.map Token.kind, ?_⟩, ?_⟩
  · simp [htokens, hs, hk]
  · simp
    omega

theorem exists_parse (h : countOpening tokens ≤ limit) : ∃ p, parse limit tokens = .ok p := by
  cases hparse : parse limit tokens with
  | ok p => exact ⟨p, rfl⟩
  | error e =>
    obtain ⟨before, hbefore, hlt⟩ := exists_prefix_of_parse_error hparse
    have hle : before.count .openParen ≤ countOpening tokens := hbefore.sublist.count_le _
    omega

end FormulaCheck
