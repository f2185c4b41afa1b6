import FormulaCheck.Proofs.Parse.FirstFault
import Mathlib.Logic.Relation

/-!
# A parse as a run of a machine

The rules of the grammar call each other, but what a parse does with the next tokens depends on its
state and its `Progress` alone. `Step` is one thing that it does: it takes a token wherever the
progress can go on with it, and otherwise repairs in one of four ways.

* `Reads.run`: reading a part of a statement is a run. The limit on nested parentheses is a bound on
  the groups that are open along the run.
* `Part.stopsDeep`: a parse that is given up has run up to the parenthesis that is too deep.
* `Step.deterministic`, `Config.exists_done`: there is one run, and it ends. So its end says what a
  parse gives (`parse_eq_of_runWithin`, `parse_faults_of_run`).
-/

namespace FormulaCheck

namespace Tree

mutual

def isRepaired : Tree → Bool
  | .leaf _ => false
  | .node _ children repaired => repaired || forestIsRepaired children

def forestIsRepaired : Forest → Bool
  | [] => false
  | t :: ts => isRepaired t || forestIsRepaired ts

end

end Tree

namespace Parse

/-- Where a parse stands: its progress and its state, the tokens that have gone into the tree, and
whether a part of the tree is missing. -/
structure Config where
  progress : Progress
  state : State
  kept : List Token
  repaired : Bool

inductive Step : Config → Config → Prop
  | take : s.rest = t :: rest → p.after t.kind = some q →
      Step ⟨p, s, kept, r⟩ ⟨q, s.take, kept ++ [t], r⟩
  | stray : (Progress.operand m).StuckAt s.rest → s.strayNext = true →
      Step ⟨.operand m, s, kept, r⟩ ⟨.operand m, s.report.skip, kept, r⟩
  | empty : (Progress.operand m).StuckAt s.rest → s.strayNext = false →
      Step ⟨.operand m, s, kept, r⟩ ⟨.operator m, s.report, kept, true⟩
  | junk : (Progress.operator (m + 1)).StuckAt s.rest → s.rest = stray :: closing :: rest →
      closing.kind = .closeParen →
      Step ⟨.operator (m + 1), s, kept, r⟩ ⟨.operator m, s.report.skip.take, kept ++ [closing], r⟩
  | assumed : (Progress.operator (m + 1)).StuckAt s.rest → s.kindAfter? ≠ some .closeParen →
      Step ⟨.operator (m + 1), s, kept, r⟩ ⟨.operator m, s.report, kept, true⟩

def StepWithin (limit : Nat) (c c' : Config) : Prop := Step c c' ∧ c'.progress.opened ≤ limit

abbrev Run : Config → Config → Prop := Relation.ReflTransGen Step

abbrev RunWithin (limit : Nat) : Config → Config → Prop :=
  Relation.ReflTransGen (StepWithin limit)

theorem RunWithin.run (h : RunWithin limit c c') : Run c c' :=
  Relation.ReflTransGen.mono (fun _ _ (hstep : StepWithin limit _ _) => hstep.1) _ _ h

namespace Config

variable {c c₁ c₂ : Config}

/-- Where a parse of some tokens begins with expressions: after the name and the equals sign, if
the tokens begin as an assignment does. -/
def start (tokens : List Token) : Config :=
  let s : State := ⟨tokens, [], false⟩
  if s.assignmentNext then ⟨.operand 0, s.take.take, tokens.take 2, false⟩
  else ⟨.operand 0, s, [], false⟩

/-- A statement has been read: no group is open and no operator goes on with it. -/
def Done (c : Config) : Prop := c.progress = .operator 0 ∧ c.state.Past (.chain .sum)

def TooDeep (limit : Nat) (deep : Token) (c : Config) : Prop :=
  c.progress = .operand limit ∧ deep.kind = .openParen ∧ ∃ rest, c.state.rest = deep :: rest

end Config

-- ---------------------------------------------------------------------------
-- One run
-- ---------------------------------------------------------------------------

theorem Step.deterministic (h : Step c c₁) (h' : Step c c₂) : c₁ = c₂ := by
  cases h <;> cases h' <;> simp_all [Progress.StuckAt, State.kindAfter?]

theorem Step.rightUnique : Relator.RightUnique Step := fun _ _ _ => Step.deterministic

theorem Config.Done.not_step (h : Config.Done c) : ¬ Step c c' := by
  obtain ⟨hp, hpast⟩ := h
  rintro (⟨hs, hq⟩ | _)
  · cases hp
    simp [after_operator_of_past hpast hs] at hq
  all_goals cases hp

theorem Config.TooDeep.not_stepWithin (h : Config.TooDeep limit deep c) :
    ¬ StepWithin limit c c' := by
  obtain ⟨hp, hk, rest, hs⟩ := h
  rintro ⟨hstep, hlimit⟩
  cases hstep with
  | take hs' hq =>
    cases hp
    cases hs.symm.trans hs'
    rw [hk] at hq
    cases hq
    exact absurd hlimit (Nat.not_succ_le_self limit)
  | stray hstuck | empty hstuck =>
    dsimp only at hs
    rw [hs, Progress.StuckAt, hk] at hstuck
    cases hstuck
  | junk | assumed => cases hp

/-- Of two runs from one place, the one that has ended is the longer one. -/
theorem Run.of_halted (h : Run c c₁) (h₁ : ∀ c', ¬ Step c₁ c') (h' : Run c c₂) : Run c₂ c₁ := by
  rcases Relation.ReflTransGen.total_of_right_unique Step.rightUnique h h' with h | h
  · rcases Relation.ReflTransGen.cases_head h with rfl | ⟨_, hstep, -⟩
    · exact .refl
    · exact absurd hstep (h₁ _)
  · exact h

theorem eq_of_halted {step : α → α → Prop} (hunique : Relator.RightUnique step)
    (h : Relation.ReflTransGen step a b) (hb : ∀ x, ¬ step b x)
    (h' : Relation.ReflTransGen step a c) (hc : ∀ x, ¬ step c x) : b = c := by
  rcases Relation.ReflTransGen.total_of_right_unique hunique h h' with h | h
  · rcases Relation.ReflTransGen.cases_head h with rfl | ⟨_, hstep, -⟩
    · rfl
    · exact absurd hstep (hb _)
  · rcases Relation.ReflTransGen.cases_head h with rfl | ⟨_, hstep, -⟩
    · rfl
    · exact absurd hstep (hc _)

theorem Run.eq_of_done (h : Run c c₁) (h₁ : c₁.Done) (h' : Run c c₂) (h₂ : c₂.Done) :
    c₁ = c₂ :=
  eq_of_halted Step.rightUnique h (fun _ => h₁.not_step) h' fun _ => h₂.not_step

theorem StepWithin.rightUnique (limit : Nat) : Relator.RightUnique (StepWithin limit) :=
  fun _ _ _ hstep hstep' => hstep.1.deterministic hstep'.1

theorem RunWithin.not_tooDeep (h : RunWithin limit c c₁) (h₁ : c₁.Done)
    (h' : RunWithin limit c c₂) : ¬ c₂.TooDeep limit deep := by
  intro h₂
  have heq : c₁ = c₂ := eq_of_halted (StepWithin.rightUnique limit) h
    (fun _ hstep => h₁.not_step hstep.1) h' fun _ => h₂.not_stepWithin
  cases heq
  cases h₁.1.symm.trans h₂.1

theorem RunWithin.tooDeep_unique (h : RunWithin limit c c₁) (h₁ : c₁.TooDeep limit deep)
    (h' : RunWithin limit c c₂) (h₂ : c₂.TooDeep limit deep') : deep = deep' := by
  have heq : c₁ = c₂ := eq_of_halted (StepWithin.rightUnique limit) h
    (fun _ => h₁.not_stepWithin) h' fun _ => h₂.not_stepWithin
  cases heq
  obtain ⟨-, -, rest, hrest⟩ := h₁
  obtain ⟨-, -, rest', hrest'⟩ := h₂
  cases hrest.symm.trans hrest'
  rfl

-- ---------------------------------------------------------------------------
-- Every run ends
-- ---------------------------------------------------------------------------

/-- Where the parse is stuck it repairs, and what stands in its way is reported. -/
theorem exists_step_of_stuckAt (h : p.StuckAt s.rest) (hp : p ≠ .operator 0) :
    ∃ c, Step ⟨p, s, kept, r⟩ c ∧ c.state.faults = s.report.faults := by
  rcases p with m | _ | m
  · cases hstray : s.strayNext with
    | true => exact ⟨_, .stray h hstray, rfl⟩
    | false => exact ⟨_, .empty h hstray, rfl⟩
  · exact absurd rfl hp
  · by_cases hafter : s.kindAfter? = some .closeParen
    · rcases hs : s.rest with _ | ⟨stray, _ | ⟨closing, rest⟩⟩
      · simp [State.kindAfter?, hs] at hafter
      · simp [State.kindAfter?, hs] at hafter
      · exact ⟨_, .junk h hs (by simpa [State.kindAfter?, hs] using hafter), rfl⟩
    · exact ⟨_, .assumed h hafter, rfl⟩

theorem Config.done_or_step (c : Config) : c.Done ∨ ∃ c', Step c c' := by
  obtain ⟨p, s, kept, r⟩ := c
  by_cases htake : ∃ t rest q, s.rest = t :: rest ∧ p.after t.kind = some q
  · obtain ⟨t, rest, q, hs, hq⟩ := htake
    exact .inr ⟨_, .take hs hq⟩
  have hnone : ∀ t rest, s.rest = t :: rest → p.after t.kind = none := by
    intro t rest hs
    rw [Option.eq_none_iff_forall_ne_some]
    exact fun q hq => htake ⟨t, rest, q, hs, hq⟩
  by_cases hp : p = .operator 0
  · subst hp
    refine .inl ⟨rfl, ?_⟩
    cases hs : s.rest with
    | nil => exact State.past_of_nil hs _
    | cons t rest =>
      refine State.past_of_cons hs ?_
      rw [← Bool.not_eq_true]
      intro hop
      cases (hnone t rest hs).symm.trans (Progress.after_operator hop)
  · have hstuck : p.StuckAt s.rest := by
      cases hs : s.rest with
      | nil => exact hp
      | cons t rest => exact hnone t rest hs
    obtain ⟨c, hstep, -⟩ := exists_step_of_stuckAt hstuck hp
    exact .inr ⟨c, hstep⟩

/-- Bounds the number of steps that are left: each uses up a token, ends a group, or goes from an
operand to an operator. -/
def Config.stepsLeft (c : Config) : Nat :=
  3 * c.state.rest.length +
    match c.progress with
    | .operand m => 2 * m + 1
    | .operator m => 2 * m

theorem Step.stepsLeft_lt (h : Step c c') : c'.stepsLeft < c.stepsLeft := by
  cases h with
  | take hs hq =>
    rcases Progress.after_cases hq with ⟨n, rfl, -, rfl⟩ | ⟨n, rfl, -, rfl⟩ | ⟨n, rfl, -, rfl⟩ |
      ⟨n, rfl, -, rfl⟩ <;>
    · simp [Config.stepsLeft, hs]
      omega
  | stray _ hstray =>
    obtain ⟨t, next, rest, hs, -⟩ := State.strayNext_iff.mp hstray
    simp [Config.stepsLeft, hs]
  | empty => simp [Config.stepsLeft]
  | junk _ hs =>
    simp [Config.stepsLeft, hs]
    omega
  | assumed =>
    simp [Config.stepsLeft]

theorem Config.exists_done (c : Config) : ∃ c', Run c c' ∧ c'.Done := by
  rcases c.done_or_step with hdone | ⟨c₁, hstep⟩
  · exact ⟨c, .refl, hdone⟩
  · obtain ⟨c', hrun, hdone⟩ := c₁.exists_done
    exact ⟨c', .head hstep hrun, hdone⟩
termination_by c.stepsLeft
decreasing_by exact hstep.stepsLeft_lt

theorem Step.faults_suffix (h : Step c c') : c.state.faults <:+ c'.state.faults := by
  cases h with
  | take => exact List.suffix_rfl
  | stray | empty | junk | assumed => exact State.faults_suffix_report _

theorem Run.faults_suffix (h : Run c c') : c.state.faults <:+ c'.state.faults := by
  induction h with
  | refl => exact List.suffix_rfl
  | tail _ hstep ih => exact ih.trans hstep.faults_suffix

-- ---------------------------------------------------------------------------
-- Readings are runs
-- ---------------------------------------------------------------------------

attribute [local simp] Tree.leaves Tree.forestLeaves Tree.isRepaired Tree.forestIsRepaired

theorem stuckAt_group (hpast : State.Past s (.chain .sum)) (hk : s.kind? ≠ some .closeParen) :
    (Progress.operator (m + 1)).StuckAt s.rest := by
  cases hrest : s.rest with
  | nil => simp [Progress.StuckAt]
  | cons t rest => exact after_operator_of_past hpast hrest (by simp_all [State.kind?])

theorem Closes.step (h : Closes opening content s d s') (hpast : s.Past (.chain .sum)) (m : Nat)
    (kept : List Token) (r : Bool) :
    Step ⟨.operator (m + 1), s, kept ++ opening :: content.leaves, r || content.isRepaired⟩
      ⟨.operator m, s', kept ++ d.leaves, r || d.isRepaired⟩ := by
  cases h with
  | @closed closing _ hs hk =>
    have hafter : (Progress.operator (m + 1)).after closing.kind = some (.operator m) := by
      rw [hk]
      rfl
    have hstep : Step
        ⟨.operator (m + 1), s, kept ++ opening :: content.leaves, r || content.isRepaired⟩
        ⟨.operator m, s.take, kept ++ opening :: content.leaves ++ [closing],
          r || content.isRepaired⟩ := .take hs hafter
    simpa using hstep
  | @junk _ closing _ hs hne hk =>
    have hstuck : (Progress.operator (m + 1)).StuckAt s.rest :=
      stuckAt_group hpast (by simpa [State.kind?, hs] using hne)
    have hstep : Step
        ⟨.operator (m + 1), s, kept ++ opening :: content.leaves, r || content.isRepaired⟩
        ⟨.operator m, s.report.skip.take, kept ++ opening :: content.leaves ++ [closing],
          r || content.isRepaired⟩ := .junk hstuck hs hk
    simpa using hstep
  | assumed hk hafter => simpa using Step.assumed (stuckAt_group hpast hk) hafter

theorem RunWithin.single (h : Step c c') (hlimit : c'.progress.opened ≤ limit) :
    RunWithin limit c c' :=
  Relation.ReflTransGen.single ⟨h, hlimit⟩

theorem RunWithin.head (h : Step c c₁) (hlimit : c₁.progress.opened ≤ limit)
    (h' : RunWithin limit c₁ c₂) : RunWithin limit c c₂ :=
  Relation.ReflTransGen.head ⟨h, hlimit⟩ h'

theorem step_operator {layer : Layer} (hs : State.rest s = op :: rest)
    (hop : layer.isOperator op.kind = true) :
    Step ⟨.operator m, s, kept, r⟩ ⟨.operand m, s.take, kept ++ [op], r⟩ :=
  .take hs (Progress.after_operator (isOperator_of_layer hop))

theorem step_opening (hs : State.rest s = opening :: rest) (hk : opening.kind = .openParen) :
    Step ⟨.operand m, s, kept, r⟩ ⟨.operand (m + 1), s.take, kept ++ [opening], r⟩ :=
  .take hs (by rw [hk]; rfl)

theorem step_symbol (hs : State.rest s = t :: rest) (hk : t.kind.isSymbol = true) :
    Step ⟨.operand m, s, kept, r⟩ ⟨.operator m, s.take, kept ++ [t], r⟩ := by
  refine .take hs ?_
  cases h : t.kind with
  | number | name => rfl
  | _ => simp [h, Token.Kind.isSymbol] at hk

/-- What has been kept grows by the tokens of the tree. -/
theorem Reads.run (h : Reads n part s d s') (hs : s.Fits part) (m : Nat) (kept : List Token)
    (r : Bool) : RunWithin (n + m) ⟨part.progress m, s, kept, r⟩
      ⟨.operator m, s', kept ++ d.leaves, r || d.isRepaired⟩ := by
  induction h generalizing m kept r with
  | chain hfirst _ ihFirst ihMore =>
    have hrun := ihFirst (State.fits_operand ..) m kept r
    rw [progress_operand] at hrun
    have hall := hrun.trans (ihMore (hfirst.past (State.fits_operand ..)) m _ _)
    simpa [Part.progress, Bool.or_assoc] using hall
  | tailEnd =>
    simpa [Part.progress] using Relation.ReflTransGen.refl
  | @tailMore op _ _ _ _ _ _ _ _ hrest hop hoperand _ ihOperand ihMore =>
    have hrun := ihOperand (State.fits_operand ..) m (kept ++ [op]) r
    rw [progress_operand] at hrun
    have hall := hrun.trans (ihMore (hoperand.past (State.fits_operand ..)) m _ _)
    have hop := RunWithin.head (step_operator hrest hop) (Nat.le_add_left m _) hall
    simpa [Part.progress, Bool.or_assoc] using hop
  | @symbol t _ n s hrest hk =>
    have hstep : RunWithin (n + m) ⟨.operand m, s, kept, r⟩
        ⟨.operator m, s.take, kept ++ [t], r⟩ :=
      .single (step_symbol hrest hk) (Nat.le_add_left m n)
    simpa [Part.progress] using hstep
  | @group opening _ n _ _ _ _ _ hrest hk hinner hclose ih =>
    have hrun := ih trivial (m + 1) (kept ++ [opening]) r
    rw [← Nat.add_assoc, Nat.add_right_comm] at hrun
    have hclosing := RunWithin.single (hclose.step (hinner.past trivial) m kept r)
      (Nat.le_add_left m (n + 1))
    rw [List.append_assoc, List.singleton_append] at hrun
    exact .head (step_opening hrest hk) (show m + 1 ≤ n + 1 + m by omega) (hrun.trans hclosing)
  | stray hfactor hstray _ ih =>
    exact .head (.stray (stuckAt_operand hfactor) hstray) (Nat.le_add_left m _)
      (ih trivial m kept r)
  | @empty n s hfactor hstray =>
    have hstep : RunWithin (n + m) ⟨.operand m, s, kept, r⟩ ⟨.operator m, s.report, kept, true⟩ :=
      .single (.empty (stuckAt_operand hfactor) hstray) (Nat.le_add_left m n)
    simpa [Part.progress] using hstep

theorem Reads.derivation_leaves (h : Reads n part s d s') (hd : d.isRepaired = false) :
    Derivation part.rule d.leaves d := by
  induction h with
  | @chain _ layer _ _ _ _ _ _ _ ihFirst ihMore =>
    simp at hd
    have hall := (ihFirst hd.1).chain (ihMore hd.2)
    simpa [Part.rule] using hall
  | tailEnd => exact .tailEnd _
  | tailMore _ hop _ _ ihOperand ihMore =>
    simp only [Tree.isRepaired, Tree.forestIsRepaired, Bool.or_eq_false_iff] at hd
    have hmore := ihMore (by simpa [Tree.isRepaired] using hd.2.2.2)
    have hall := (ihOperand hd.2.2.1).tailMore hop hmore
    simpa [Part.rule] using hall
  | symbol _ hk => exact .symbol hk
  | group _ hk _ hclose ih =>
    cases hclose with
    | closed _ hc | junk _ _ hc =>
      simp only [Tree.isRepaired, Tree.forestIsRepaired, Bool.or_eq_false_iff] at hd
      have hall := Derivation.group hk hc (ih hd.2.2.1)
      simpa [Part.rule] using hall
    | assumed => simp [Tree.isRepaired] at hd
  | stray _ _ _ ih => exact ih hd
  | empty => simp [Tree.isRepaired] at hd

-- ---------------------------------------------------------------------------
-- Parses that are given up
-- ---------------------------------------------------------------------------

theorem Reader.seq_error {first : Reader α} {second : Reader β}
    (h : (first.seq second).run s = .error deep) : first.run s = .error deep ∨
      ∃ a s₁, first.run s = .ok (a, s₁) ∧ second.run s₁ = .error deep := by
  simp only [Reader.seq] at h
  split at h
  · next h₁ => cases h; exact .inl h₁
  · next a s₁ h₁ =>
    split at h
    · next h₂ => cases h; exact .inr ⟨a, s₁, h₁, h₂⟩
    · cases h

theorem Reader.map_error {r : Reader α} {f : α → β} (h : (r.map f).run s = .error deep) :
    r.run s = .error deep := by
  simp only [Reader.map] at h
  cases hr : r.run s with
  | error => simpa [hr, Except.map] using h
  | ok => simp [hr, Except.map] at h

/-- Wherever the reader for the part gives up, the run gets to the parenthesis that is too deep. -/
def Part.StopsDeep (n : Nat) (part : Part) : Prop :=
  ∀ s deep m kept r, (part.reader n).run s = .error deep → s.Fits part →
    ∃ c, RunWithin (n + m) ⟨part.progress m, s, kept, r⟩ c ∧ c.TooDeep (n + m) deep

theorem exists_tooDeep_of_alternate {layer : Layer} (hoperand : layer.operand.StopsDeep n)
    (h : alternate layer.isOperator (layer.operand.reader n) s = .error deep)
    (hs : s.Past layer.operand) (m : Nat) (kept : List Token) (r : Bool) :
    ∃ c, RunWithin (n + m) ⟨.operator m, s, kept, r⟩ c ∧ c.TooDeep (n + m) deep := by
  generalize hr : layer.operand.reader n = operand at h
  fun_induction alternate layer.isOperator operand s generalizing kept r with
  | case1 => cases h
  | case2 s op rest hrest hop deep' ho =>
    cases h
    subst hr
    obtain ⟨c, hrun, hc⟩ := hoperand _ _ m (kept ++ [op]) r ho (State.fits_operand ..)
    rw [progress_operand] at hrun
    exact ⟨c, .head (step_operator hrest hop) (Nat.le_add_left m n) hrun, hc⟩
  | case3 s op rest hrest hop t s₁ ho deep' ha ih =>
    cases h
    subst hr
    obtain ⟨d, -, hd⟩ := reads_iff.mp ho
    have hfirst := hd.run (State.fits_operand ..) m (kept ++ [op]) r
    rw [progress_operand] at hfirst
    obtain ⟨c, hrun, hc⟩ := ih (hd.past (State.fits_operand ..)) _ _ ha
    exact ⟨c, .head (step_operator hrest hop) (Nat.le_add_left m n) (hfirst.trans hrun), hc⟩
  | case4 => cases h
  | case5 => cases h

theorem stopsDeep_tail (hoperand : layer.operand.StopsDeep n) :
    (Part.tail layer).StopsDeep n := by
  intro s deep m kept r h hs
  rw [reader_tail, Parse.tail] at h
  exact exists_tooDeep_of_alternate hoperand (Reader.map_error h) hs m kept r

theorem stopsDeep_chain (hoperand : layer.operand.StopsDeep n) :
    (Part.chain layer).StopsDeep n := by
  intro s deep m kept r h _
  rw [reader_chain] at h
  rcases Reader.seq_error (Reader.map_error h) with h | ⟨t, s₁, hfirst, h⟩
  · have hrun := hoperand s deep m kept r h (State.fits_operand ..)
    rwa [progress_operand] at hrun
  · obtain ⟨d, -, hd⟩ := reads_iff.mp hfirst
    have hfirst := hd.run (State.fits_operand ..) m kept r
    rw [progress_operand] at hfirst
    obtain ⟨c, hrun, hc⟩ := stopsDeep_tail hoperand s₁ deep m _ _ h
      (hd.past (State.fits_operand ..))
    exact ⟨c, hfirst.trans hrun, hc⟩

theorem exists_tooDeep_of_factorNext
    (hinner : ∀ levels, n = levels + 1 → (Part.chain .sum).StopsDeep levels)
    (hf : s.factorNext = true) (h : factorFrom (deeper n) s = .error deep) (m : Nat)
    (kept : List Token) (r : Bool) :
    ∃ c, RunWithin (n + m) ⟨.operand m, s, kept, r⟩ c ∧ c.TooDeep (n + m) deep := by
  obtain ⟨opening, rest, hs, hstart⟩ := State.factorNext_iff.mp hf
  rcases Token.Kind.startsFactor_iff.mp hstart with hk | hk
  · simp [factorFrom_symbol hs hk] at h
  · rw [factorFrom_group hs hk] at h
    cases n with
    | zero =>
      cases h
      exact ⟨_, .refl, by simp, hk, rest, hs⟩
    | succ levels =>
      simp only [group, deeper, expression_eq] at h
      split at h
      · next hi =>
        cases h
        obtain ⟨c, hrun, hc⟩ := hinner levels rfl _ _ (m + 1) (kept ++ [opening]) r hi trivial
        rw [← Nat.add_assoc, Nat.add_right_comm] at hrun hc
        exact ⟨c, .head (step_opening hs hk) (show m + 1 ≤ levels + 1 + m by omega) hrun, hc⟩
      · cases h

theorem stopsDeep_factor
    (hinner : ∀ levels, n = levels + 1 → (Part.chain .sum).StopsDeep levels) :
    Part.factor.StopsDeep n := by
  intro s deep m kept r h _
  cases hf : s.factorNext with
  | true => exact exists_tooDeep_of_factorNext hinner hf h m kept r
  | false =>
    cases hstray : s.strayNext with
    | true =>
      obtain ⟨stray, next, rest, hs, -, hnext⟩ := State.strayNext_iff.mp hstray
      have hskip : s.report.skip.factorNext = true :=
        State.factorNext_iff.mpr ⟨next, rest, by simp [hs], hnext⟩
      obtain ⟨c, hrun, hc⟩ := exists_tooDeep_of_factorNext hinner hskip
        ((factorFrom_stray hf hstray).symm.trans h) m kept r
      exact ⟨c, .head (.stray (stuckAt_operand hf) hstray) (Nat.le_add_left m n) hrun, hc⟩
    | false => cases (factorFrom_empty hf hstray).symm.trans h

theorem stopsDeep_expression (n : Nat) : (Part.chain .sum).StopsDeep n := by
  have hexpression : ∀ levels, Part.factor.StopsDeep levels →
      (Part.chain .sum).StopsDeep levels := by
    intro levels hfactor
    have hterm : (Part.chain .product).StopsDeep levels := stopsDeep_chain hfactor
    exact stopsDeep_chain hterm
  induction n with
  | zero => exact hexpression 0 (stopsDeep_factor (by simp))
  | succ n ih =>
    refine hexpression _ (stopsDeep_factor ?_)
    rintro _ ⟨⟩
    exact ih

-- ---------------------------------------------------------------------------
-- Whole parses
-- ---------------------------------------------------------------------------

theorem Config.start_assigned (ht : target.kind = .name) (he : equals.kind = .equals)
    (rest : List Token) : Config.start (target :: equals :: rest) =
      ⟨.operand 0, State.take (State.take ⟨target :: equals :: rest, [], false⟩),
        [target, equals], false⟩ := by
  have hnext : State.assignmentNext ⟨target :: equals :: rest, [], false⟩ = true :=
    State.assignmentNext_iff.mpr ⟨target, equals, rest, rfl, ht, he⟩
  simp [Config.start, hnext]

theorem Config.start_plain (h : State.assignmentNext ⟨tokens, [], false⟩ = false) :
    Config.start tokens = ⟨.operand 0, ⟨tokens, [], false⟩, [], false⟩ := by
  simp [Config.start, h]

theorem ReadsStatement.run (h : ReadsStatement n ⟨tokens, [], false⟩ d s) :
    RunWithin n (.start tokens) ⟨.operator 0, s, d.leaves, d.isRepaired⟩ ∧
      s.Past (.chain .sum) := by
  cases h with
  | @assigned target equals _ _ _ _ _ hs ht he hvalue =>
    dsimp only at hs
    subst hs
    have hrun := hvalue.run trivial 0 [target, equals] false
    rw [Config.start_assigned ht he]
    exact ⟨by simpa [Part.progress] using hrun, hvalue.past trivial⟩
  | plain ha hvalue =>
    have hrun := hvalue.run trivial 0 [] false
    rw [Config.start_plain ha]
    exact ⟨by simpa [Part.progress] using hrun, hvalue.past trivial⟩

theorem ReadsStatement.derivation_leaves (h : ReadsStatement n s d s') (hd : d.isRepaired = false) :
    Derivation .statement d.leaves d := by
  cases h with
  | assigned _ ht he hvalue =>
    have hvalue := hvalue.derivation_leaves (by simpa using hd)
    simpa using Derivation.assigned (.assignment ht he hvalue)
  | plain _ hvalue =>
    have hvalue := hvalue.derivation_leaves (by simpa using hd)
    simpa using Derivation.plain hvalue

theorem exists_tooDeep_of_statement (h : statement n ⟨tokens, [], false⟩ = .error deep) :
    ∃ c, RunWithin n (.start tokens) c ∧ c.TooDeep n deep := by
  cases ha : State.assignmentNext ⟨tokens, [], false⟩ with
  | true =>
    obtain ⟨target, equals, rest, hs, ht, he⟩ := State.assignmentNext_iff.mp ha
    dsimp only at hs
    subst hs
    simp only [statement, ht, he, and_self, ↓reduceIte, expression_eq] at h
    split at h
    · next hvalue =>
      cases h
      rw [Config.start_assigned ht he]
      exact stopsDeep_expression n _ _ 0 _ _ hvalue trivial
    · cases h
  | false =>
    rw [statement_eq_plain ha, statement.plain, expression_eq] at h
    split at h
    · next hvalue =>
      cases h
      rw [Config.start_plain ha]
      exact stopsDeep_expression n _ _ 0 _ _ hvalue trivial
    · cases h

end Parse

open Parse

theorem exists_tooDeep_of_parse (h : parse limit tokens = .error e) :
    ∃ c deep, RunWithin limit (.start tokens) c ∧ c.TooDeep limit deep ∧
      e = ⟨limit, deep.start⟩ := by
  unfold parse at h
  split at h
  · next deep hdeep =>
    cases h
    obtain ⟨c, hrun, hc⟩ := exists_tooDeep_of_statement hdeep
    exact ⟨c, deep, hrun, hc, rfl⟩
  · cases h

/-- A parse that gives a tree has run to the end of the statement. The tree derives the tokens in
it if no part is missing. -/
theorem exists_done_of_parse (h : parse limit tokens = .ok p) :
    ∃ c, RunWithin limit (.start tokens) c ∧ c.Done ∧
      p.faults = c.state.finish.faults.reverse ∧
      (c.repaired = false → ∃ d, Derivation .statement c.kept d ∧ p.tree = d.arranged) := by
  obtain ⟨tree, faults⟩ := p
  obtain ⟨d, s, hreads, rfl, rfl⟩ := parse_ok_iff.mp h
  obtain ⟨hrun, hpast⟩ := hreads.run
  exact ⟨_, hrun, ⟨rfl, hpast⟩, rfl, fun hd => ⟨d, hreads.derivation_leaves hd, rfl⟩⟩

theorem parse_eq_of_runWithin (h : RunWithin limit (.start tokens) c) (hc : c.Done) :
    ∃ tree, parse limit tokens = .ok ⟨tree, c.state.finish.faults.reverse⟩ ∧
      (c.repaired = false → ∃ d, Derivation .statement c.kept d ∧ tree = d.arranged) := by
  cases hparse : parse limit tokens with
  | error e =>
    obtain ⟨c', deep, hrun, hc', -⟩ := exists_tooDeep_of_parse hparse
    exact absurd hc' (h.not_tooDeep hc hrun)
  | ok p =>
    obtain ⟨c', hrun, hc', hfaults, htree⟩ := exists_done_of_parse hparse
    obtain rfl := h.run.eq_of_done hc hrun.run hc'
    exact ⟨p.tree, by rw [← hfaults], htree⟩

theorem parse_eq_error_of_runWithin (h : RunWithin limit (.start tokens) c)
    (hc : c.TooDeep limit deep) : parse limit tokens = .error ⟨limit, deep.start⟩ := by
  cases hparse : parse limit tokens with
  | error e =>
    obtain ⟨c', deep', hrun, hc', rfl⟩ := exists_tooDeep_of_parse hparse
    rw [h.tooDeep_unique hc hrun hc']
  | ok p =>
    obtain ⟨c', hrun, hdone, -⟩ := exists_done_of_parse hparse
    exact absurd hc (hrun.not_tooDeep hdone h)

/-- What is recorded on the way are the first faults of the parse. -/
theorem faults_prefix_of_run (h : parse limit tokens = .ok p) (hrun : Run (.start tokens) c) :
    c.state.faults.reverse <+: p.faults := by
  obtain ⟨c', hrun', hdone, hfaults, -⟩ := exists_done_of_parse h
  have hend : Run c c' := hrun'.run.of_halted (fun _ => hdone.not_step) hrun
  rw [hfaults]
  exact List.reverse_prefix.mpr (hend.faults_suffix.trans c'.state.faults_suffix_finish)

theorem mem_faults_of_run (h : parse limit tokens = .ok p) (hrun : Run (.start tokens) c)
    (hf : f ∈ c.state.faults) : f ∈ p.faults :=
  (faults_prefix_of_run h hrun).subset (List.mem_reverse.mpr hf)

theorem parse_faults_of_run (h : parse limit tokens = .ok p) (hrun : Run (.start tokens) c)
    (hc : c.Done) : p.faults = c.state.finish.faults.reverse := by
  obtain ⟨c', hrun', hc', hfaults, -⟩ := exists_done_of_parse h
  obtain rfl := hrun.eq_of_done hc hrun'.run hc'
  exact hfaults

namespace Parse

def countOpening (tokens : List Token) : Nat := (tokens.map Token.kind).count .openParen

theorem countOpening_le_length (tokens : List Token) : countOpening tokens ≤ tokens.length :=
  Nat.le_trans List.count_le_length (Nat.le_of_eq (List.length_map _))

end Parse

end FormulaCheck
