import FormulaCheck.Proofs.Parse.Faultless

/-!
# The place of the first fault

Up to its first fault a parse has read tokens that may still become a statement, and with the token
of the fault they no longer may. The readers are followed with `Progress`: as long as there is no
fault it goes along with the tokens taken (`Reads.derivation`), and at the first fault it is stuck.
-/

namespace FormulaCheck

/-- Nothing may come next as the tokens go on: the first of them may not follow, or there is none
although operands or parentheses are still missing. -/
def Progress.StuckAt (p : Progress) : List Token → Prop
  | [] => p ≠ .operator 0
  | t :: _ => p.after t.kind = none

namespace Parse

/-- The earliest of some faults lies where the progress over the tokens gets stuck. -/
def FirstFaultAt (p : Progress) (tokens : List Token) (faults : List Fault) : Prop :=
  ∃ read left q, tokens = read ++ left ∧ p.afterAll (read.map Token.kind) = some q ∧
    q.StuckAt left ∧ faults.getLast? = some (.ofNext? left.head?)

namespace FirstFaultAt

theorem here (hstuck : p.StuckAt tokens)
    (hf : List.getLast? faults = some (Fault.ofNext? tokens.head?)) :
    FirstFaultAt p tokens faults :=
  ⟨[], tokens, p, rfl, rfl, hstuck, hf⟩

theorem later (hp : p.afterAll (used.map Token.kind) = some q)
    (h : FirstFaultAt q tokens faults) : FirstFaultAt p (used ++ tokens) faults := by
  obtain ⟨read, left, q', rfl, hq, hstuck, hf⟩ := h
  refine ⟨used ++ read, left, q', by simp, ?_, hstuck, hf⟩
  rw [List.map_append, Progress.afterAll_append, hp]
  exact hq

theorem cons (hp : p.after (Token.kind t) = some q) (h : FirstFaultAt q tokens faults) :
    FirstFaultAt p (t :: tokens) faults := by
  have hall : p.afterAll ([t].map Token.kind) = some q := by simp [Progress.afterAll_cons, hp]
  exact later hall h

theorem mono (h : FirstFaultAt p tokens faults) (hsuffix : faults <:+ faults') :
    FirstFaultAt p tokens faults' := by
  obtain ⟨read, left, q, heq, hq, hstuck, hf⟩ := h
  obtain ⟨newer, rfl⟩ := hsuffix
  exact ⟨read, left, q, heq, hq, hstuck, by simp [List.getLast?_append, hf]⟩

end FirstFaultAt

theorem stuckAt_operand (h : State.factorNext s = false) :
    (Progress.operand m).StuckAt s.rest := by
  cases hs : s.rest with
  | nil => simp [Progress.StuckAt]
  | cons t rest =>
    exact Progress.after_operand_eq_none (by simpa [State.factorNext, State.kind?, hs] using h)

theorem after_operator_of_past (hpast : State.Past s (.chain .sum)) (hs : s.rest = t :: rest)
    (hclose : t.kind = .closeParen → m = 0) : (Progress.operator m).after t.kind = none := by
  refine Progress.after_operator_eq_none ?_ hclose
  simpa [State.Past, State.kind?, Part.continues, hs] using hpast

theorem Closes.firstFaultAt (h : Closes opening content s d s') (hs : s.Clean)
    (hpast : s.Past (.chain .sum)) (hf : s'.faults ≠ []) :
    FirstFaultAt (.operator (m + 1)) s.rest s'.faults := by
  have hstuck : s.kind? ≠ some .closeParen → (Progress.operator (m + 1)).StuckAt s.rest := by
    intro hk
    cases hrest : s.rest with
    | nil => simp [Progress.StuckAt]
    | cons t rest =>
      exact after_operator_of_past hpast hrest (by simp_all [State.kind?])
  cases h with
  | closed => exact absurd hs.faults hf
  | junk hrest hne =>
    exact .here (hstuck (by simpa [State.kind?, hrest] using hne)) (by simp [hs.faults_report])
  | assumed hk => exact .here (hstuck hk) (by simp [hs.faults_report])

def Part.progress : Part → Nat → Progress
  | .factor, m | .chain _, m => .operand m
  | .tail _, m => .operator m

theorem before?_rule (part : Part) (m : Nat) :
    Progress.before? part.rule m = some (part.progress m) := by
  rcases part with _ | ⟨_ | _⟩ | ⟨_ | _⟩ <;> rfl

theorem progress_operand (layer : Layer) (m : Nat) : layer.operand.progress m = .operand m := by
  cases layer <;> rfl

theorem Reads.firstFaultAt_seq (hfirst : Reads n part s d s₁) (hs : s.Clean)
    (hsuffix : s₁.faults <:+ faults)
    (h₁ : s₁.faults ≠ [] → FirstFaultAt (part.progress m) s.rest s₁.faults)
    (h₂ : s₁.Clean → FirstFaultAt (.operator m) s₁.rest faults) :
    FirstFaultAt (part.progress m) s.rest faults := by
  by_cases hf : s₁.faults = []
  · obtain ⟨used, hrest, rfl, hd, -⟩ := hfirst.derivation hs hf
    rw [hrest]
    exact .later (hd.derives.afterAll (before?_rule part m)) (h₂ (hs.takeAll used))
  · exact (h₁ hf).mono hsuffix

theorem Reads.firstFaultAt (h : Reads n part s d s') (hs : s.Clean) (hf : s'.faults ≠ [])
    (m : Nat) : FirstFaultAt (part.progress m) s.rest s'.faults := by
  induction h generalizing m with
  | chain hfirst hmore ihFirst ihMore =>
    -- the first part that has a fault has the earliest one
    have hall := hfirst.firstFaultAt_seq hs hmore.faults_suffix (fun hne => ihFirst hs hne m)
      fun hs₁ => ihMore hs₁ hf m
    rwa [progress_operand] at hall
  | tailEnd | symbol => exact absurd hs.faults hf
  | tailMore hs' hop hoperand hmore ihOperand ihMore =>
    have hrest := hoperand.firstFaultAt_seq hs.take hmore.faults_suffix
      (fun hne => ihOperand hs.take hne m) fun hs₁ => ihMore hs₁ hf m
    rw [progress_operand, State.rest_take, hs', List.tail_cons] at hrest
    rw [hs']
    exact .cons (Progress.after_operator (isOperator_of_layer hop)) hrest
  | group hs' hk hinner hclose ih =>
    have hrest := hinner.firstFaultAt_seq hs.take hclose.faults_suffix
      (fun hne => ih hs.take hne (m + 1)) fun hs₁ =>
        hclose.firstFaultAt hs₁ (hinner.past trivial) hf
    rw [State.rest_take, hs', List.tail_cons] at hrest
    rw [hs']
    exact .cons (by rw [hk]; rfl) hrest
  | stray hfactor _ hreads =>
    refine (FirstFaultAt.here (stuckAt_operand hfactor) ?_).mono hreads.faults_suffix
    simp [hs.faults_report]
  | empty hfactor => exact .here (stuckAt_operand hfactor) (by simp [hs.faults_report])

theorem Reads.firstFaultAt_finish (h : Reads n (.chain .sum) s d s') (hs : s.Clean)
    (hf : s'.finish.faults ≠ []) : FirstFaultAt (.operand 0) s.rest s'.finish.faults := by
  refine h.firstFaultAt_seq (m := 0) hs s'.faults_suffix_finish
    (fun hne => h.firstFaultAt hs hne 0) ?_
  intro hs'
  cases hrest : s'.rest with
  | nil => exact absurd (hs'.finish_faults_iff.mpr hrest) hf
  | cons t rest =>
    have hstuck : (Progress.operator 0).StuckAt (t :: rest) :=
      after_operator_of_past (h.past trivial) hrest fun _ => rfl
    refine .here hstuck ?_
    simp [State.finish, hrest, hs'.faults_report]

end Parse

/-- The fault lies where the tokens stop being the beginning of a statement. -/
def Fault.EndsViablePrefix (tokens : List Token) : Fault → Prop
  | .unexpected t => ∃ i, tokens[i]? = some t ∧ Viable ((tokens.take i).map Token.kind) ∧
      ¬ Viable ((tokens.take (i + 1)).map Token.kind)
  | .endOfInput => Viable (tokens.map Token.kind) ∧ ¬ Derives .statement (tokens.map Token.kind)

namespace Parse

/-- What the progress says of the tokens after `lead`, the statements say of all of them. -/
theorem FirstFaultAt.endsViablePrefix (lead : List Token)
    (h : FirstFaultAt (.operand 0) tokens faults)
    (hviable : ∀ ks, ks <+: tokens.map Token.kind → (Viable (lead.map Token.kind ++ ks) ↔
      ((Progress.operand 0).afterAll ks).isSome = true))
    (hderives : Derives .statement (lead.map Token.kind ++ tokens.map Token.kind) →
      Derives .expression (tokens.map Token.kind))
    (hfault : faults.getLast? = some fault) : fault.EndsViablePrefix (lead ++ tokens) := by
  obtain ⟨read, left, q, rfl, hq, hstuck, hlast⟩ := h
  cases hfault.symm.trans hlast
  have hread : Viable (lead.map Token.kind ++ read.map Token.kind) :=
    (hviable _ (by simp)).mpr (by simp [hq])
  cases left with
  | nil =>
    rw [List.append_nil] at hderives ⊢
    refine ⟨by simpa using hread, fun h => ?_⟩
    have := derives_expression_iff.mp (hderives (by simpa using h))
    exact hstuck (Option.some.inj (hq.symm.trans this))
  | cons t left =>
    have hthrough : ¬ Viable (lead.map Token.kind ++ (read ++ [t]).map Token.kind) := by
      rw [hviable _ ⟨left.map Token.kind, by simp⟩, List.map_append, Progress.afterAll_append, hq]
      have hnone : q.after t.kind = none := hstuck
      simp [Progress.afterAll_cons, hnone]
    refine ⟨lead.length + read.length, by simp, ?_, ?_⟩
    · rw [← List.append_assoc, ← List.length_append, List.take_left]
      simpa using hread
    · have htake : (lead ++ (read ++ t :: left)).take (lead.length + read.length + 1) =
          lead ++ (read ++ [t]) := by
        have hsplit : lead ++ (read ++ t :: left) = lead ++ (read ++ [t]) ++ left := by simp
        rw [hsplit, List.take_left' (by simp [Nat.add_assoc])]
      rw [htake, List.map_append]
      exact hthrough

theorem ReadsStatement.endsViablePrefix (h : ReadsStatement n ⟨tokens, [], false⟩ d s)
    (hf : s.finish.faults.getLast? = some fault) : fault.EndsViablePrefix tokens := by
  have hclean : State.Clean ⟨tokens, [], false⟩ := ⟨rfl, rfl⟩
  have hne : s.finish.faults ≠ [] := by rintro hnil; simp [hnil] at hf
  cases h with
  | assigned hs ht he hvalue =>
    have hfirst := hvalue.firstFaultAt_finish hclean.take.take hne
    simp only [State.rest_take] at hfirst hs
    subst hs
    refine hfirst.endsViablePrefix [_, _] ?_ ?_ hf
    · intro ks _
      simpa [ht, he] using viable_assignment_iff
    · intro h
      exact derives_assignment_iff.mp (by simpa [ht, he] using h)
  | plain ha hvalue =>
    have hplain : ¬ [.name, .equals] <+: tokens.map Token.kind := by
      intro hprefix
      have hassigned : State.assignmentNext ⟨tokens, [], false⟩ = true :=
        State.assignmentNext_of_prefix hprefix
      simp [ha] at hassigned
    refine (hvalue.firstFaultAt_finish hclean hne).endsViablePrefix [] ?_ ?_ hf
    · intro ks hks
      exact viable_plain_iff fun h => hplain (h.trans hks)
    · exact (derives_plain_iff hplain).mp

end Parse

/-- The first fault of a parse lies where its tokens stop being the beginning of a statement. -/
theorem parse_first_fault (h : parse limit tokens = .ok ⟨tree, fault :: faults⟩) :
    fault.EndsViablePrefix tokens := by
  obtain ⟨d, s, hreads, -, hf⟩ := Parse.parse_ok_iff.mp h
  refine hreads.endsViablePrefix ?_
  rw [← List.head?_reverse, hf, List.head?_cons]

/-- The parenthesis in `a + )` stands where an operand must come. -/
theorem parse_first_fault_operand_missing :
    ∃ tree, parse 256 [.ofLexeme .name ['a'] ⟨1, 1⟩, .ofLexeme .plus ['+'] ⟨1, 3⟩,
        .ofLexeme .closeParen [')'] ⟨1, 5⟩] =
          .ok ⟨tree, [.unexpected (.ofLexeme .closeParen [')'] ⟨1, 5⟩)]⟩ ∧
      (Fault.unexpected (.ofLexeme .closeParen [')'] ⟨1, 5⟩)).EndsViablePrefix
        [.ofLexeme .name ['a'] ⟨1, 1⟩, .ofLexeme .plus ['+'] ⟨1, 3⟩,
          .ofLexeme .closeParen [')'] ⟨1, 5⟩] := by
  have hreads : Parse.ReadsStatement 256 ⟨[.ofLexeme .name ['a'] ⟨1, 1⟩,
      .ofLexeme .plus ['+'] ⟨1, 3⟩, .ofLexeme .closeParen [')'] ⟨1, 5⟩], [], false⟩ _ _ :=
    .plain rfl (.chain (.chain (.symbol rfl rfl) (.tailEnd rfl))
      (.tailMore rfl rfl (.chain (.empty rfl rfl) (.tailEnd rfl)) (.tailEnd rfl)))
  have hparse := Parse.parse_ok_iff.mpr ⟨_, _, hreads, rfl, rfl⟩
  exact ⟨_, hparse, parse_first_fault hparse⟩

end FormulaCheck
