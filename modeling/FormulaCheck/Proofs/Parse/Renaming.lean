import FormulaCheck.Proofs.Parse.Reported
import Mathlib.Data.List.Nodup
import Mathlib.Data.Set.Function

/-!
# Other tokens of the same kinds

What a parse does depends on the kinds of its tokens. If each token is replaced by one of the same
kind, every reading is the reading of the new tokens with the same replacement in its tree
(`Parse.Reads.mapped`), and every step of a run is a step of the run over the new tokens
(`Parse.Step.mapped`). So a parse gives the same tree, or it is given up at the same parenthesis
(`parse_of_same_kinds`).

Faults are compared with each other when they are recorded, so that they are replaced only if the
replacement keeps the tokens apart: two different tokens must not become one. `State.Mapped` carries
the faults under this condition along with the tokens that are left.
-/

namespace FormulaCheck

-- ---------------------------------------------------------------------------
-- Trees and faults
-- ---------------------------------------------------------------------------

namespace Tree

mutual

def mapTokens (f : Token → Token) : Tree → Tree
  | .leaf token => .leaf (f token)
  | .node rule children repaired => .node rule (mapForest f children) repaired

def mapForest (f : Token → Token) : Forest → Forest
  | [] => []
  | t :: ts => mapTokens f t :: mapForest f ts

end

theorem mapForest_eq_map (f : Token → Token) (ts : Forest) :
    mapForest f ts = ts.map (mapTokens f) := by
  induction ts with
  | nil => rfl
  | cons t ts ih => simp [mapForest, ih]

end Tree

def Fault.mapToken (f : Token → Token) : Fault → Fault
  | .unexpected token => .unexpected (f token)
  | .endOfInput => .endOfInput

theorem Fault.ofNext?_map (f : Token → Token) (next? : Option Token) :
    ofNext? (next?.map f) = (ofNext? next?).mapToken f := by
  cases next? <;> rfl

section

variable {f : Token → Token} {tokens : List Token}

theorem Tree.slot_mapTokens (hf : ∀ t, (f t).kind = t.kind) (t : Tree) :
    (t.mapTokens f).slot = t.slot := by
  cases t with
  | leaf token => exact congrArg Slot.token (hf token)
  | node => rfl

mutual

theorem Tree.arranged_mapTokens (hf : ∀ t, (f t).kind = t.kind) :
    (t : Tree) → (t.mapTokens f).arranged = t.arranged.mapTokens f
  | .leaf _ => rfl
  | .node rule parts repaired => by
    rw [mapTokens, arranged, arrangedForest_mapForest hf parts, mapForest_eq_map, ofChildren,
      Forest.arrange_map (slot_mapTokens hf), ← mapForest_eq_map]
    rfl

theorem Tree.arrangedForest_mapForest (hf : ∀ t, (f t).kind = t.kind) :
    (ts : Forest) → arrangedForest (mapForest f ts) = mapForest f (arrangedForest ts)
  | [] => rfl
  | t :: ts => by
    simp only [mapForest, arrangedForest, arranged_mapTokens hf t, arrangedForest_mapForest hf ts]

end

-- ---------------------------------------------------------------------------
-- States
-- ---------------------------------------------------------------------------

theorem Fault.mapToken_eq_iff (hf : Set.InjOn f {t | t ∈ tokens}) {x y : Fault}
    (hx : ∀ t, x = .unexpected t → t ∈ tokens) (hy : ∀ t, y = .unexpected t → t ∈ tokens) :
    x.mapToken f = y.mapToken f ↔ x = y := by
  refine ⟨fun h => ?_, congrArg _⟩
  cases x with
  | unexpected t =>
    cases y with
    | unexpected u => rw [hf (hx t rfl) (hy u rfl) (Fault.unexpected.inj h)]
    | endOfInput => cases h
  | endOfInput =>
    cases y with
    | unexpected u => cases h
    | endOfInput => rfl

namespace Parse

/-- A state of a parse of some tokens, and a state of the parse with other tokens in their place.
If no two of the tokens become one, the faults correspond too. -/
structure State.Mapped (f : Token → Token) (tokens : List Token) (s s' : State) : Prop where
  rest_eq : s'.rest = s.rest.map f
  rest_subset : s.rest ⊆ tokens
  mem_of_fault : ∀ t, .unexpected t ∈ s.faults → t ∈ tokens
  faults_eq : Set.InjOn f {t | t ∈ tokens} →
    s'.faults = s.faults.map (Fault.mapToken f) ∧ s'.recovering = s.recovering

namespace State.Mapped

variable {s s' : State} {t : Token} {more : List Token}

theorem start (f : Token → Token) (tokens : List Token) :
    State.Mapped f tokens ⟨tokens, [], false⟩ ⟨tokens.map f, [], false⟩ :=
  ⟨rfl, List.Subset.refl _, by simp, fun _ => ⟨rfl, rfl⟩⟩

theorem rest_cons (h : s.Mapped f tokens s') (hs : s.rest = t :: more) :
    s'.rest = f t :: more.map f := by
  rw [h.rest_eq, hs, List.map_cons]

theorem take (h : s.Mapped f tokens s') : s.take.Mapped f tokens s'.take :=
  ⟨by simp [h.rest_eq], List.Subset.trans (List.tail_suffix _).subset h.rest_subset, h.mem_of_fault,
    fun hf => ⟨(h.faults_eq hf).1, rfl⟩⟩

theorem skip (h : s.Mapped f tokens s') : s.skip.Mapped f tokens s'.skip :=
  ⟨by simp [h.rest_eq], List.Subset.trans (List.tail_suffix _).subset h.rest_subset, h.mem_of_fault,
    h.faults_eq⟩

theorem mem_of_next (h : s.Mapped f tokens s') (ht : Fault.ofNext? s.rest.head? = .unexpected t) :
    t ∈ tokens := by
  obtain ⟨more, hs⟩ := exists_cons_of_ofNext? ht.symm
  exact h.rest_subset (by simp [hs])

theorem faults_report (h : s.Mapped f tokens s') (hf : Set.InjOn f {t | t ∈ tokens}) :
    s'.report.faults = s.report.faults.map (Fault.mapToken f) ∧
      s'.report.recovering = s.report.recovering := by
  obtain ⟨hfaults, hrecovering⟩ := h.faults_eq hf
  have hnext : Fault.ofNext? s'.rest.head? = (Fault.ofNext? s.rest.head?).mapToken f := by
    rw [h.rest_eq, List.head?_map, Fault.ofNext?_map]
  -- the latest fault is the next one here just if it is there
  have hlatest : (s'.faults.head? == some (Fault.ofNext? s'.rest.head?)) =
      (s.faults.head? == some (Fault.ofNext? s.rest.head?)) := by
    rw [hnext, hfaults, List.head?_map, Bool.eq_iff_iff, beq_iff_eq, beq_iff_eq]
    cases hhead : s.faults.head? with
    | none => simp
    | some x =>
      have hx : ∀ t, x = .unexpected t → t ∈ tokens := fun t ht =>
        h.mem_of_fault t (ht ▸ List.mem_of_head? hhead)
      simpa using Fault.mapToken_eq_iff hf hx fun t => h.mem_of_next
  unfold State.report
  dsimp only
  rw [hlatest, hrecovering]
  split
  · exact ⟨hfaults, hrecovering⟩
  · exact ⟨by rw [hnext, hfaults, List.map_cons], rfl⟩

theorem report (h : s.Mapped f tokens s') : s.report.Mapped f tokens s'.report := by
  refine ⟨by simp [h.rest_eq], by simpa using h.rest_subset, fun t ht => ?_, h.faults_report⟩
  rcases State.mem_faults_report ht with ht | ht
  · exact h.mem_of_fault t ht
  · exact h.mem_of_next ht.symm

theorem finish (h : s.Mapped f tokens s') : s.finish.Mapped f tokens s'.finish := by
  unfold State.finish
  rw [h.rest_eq, List.isEmpty_map]
  split
  · exact h
  · exact h.report

-- The tests of the reader look at kinds only.

theorem kind?_eq (hf : ∀ t, (f t).kind = t.kind) (h : s.Mapped f tokens s') :
    s'.kind? = s.kind? := by
  rw [State.kind?, h.rest_eq, List.head?_map, Option.map_map, State.kind?]
  exact congrArg (Option.map · s.rest.head?) (funext hf)

theorem kindAfter?_eq (hf : ∀ t, (f t).kind = t.kind) (h : s.Mapped f tokens s') :
    s'.kindAfter? = s.kindAfter? :=
  kind?_eq hf h.skip

theorem factorNext_eq (hf : ∀ t, (f t).kind = t.kind) (h : s.Mapped f tokens s') :
    s'.factorNext = s.factorNext := by
  rw [State.factorNext, h.kind?_eq hf, State.factorNext]

theorem strayNext_eq (hf : ∀ t, (f t).kind = t.kind) (h : s.Mapped f tokens s') :
    s'.strayNext = s.strayNext := by
  rw [State.strayNext, h.kind?_eq hf, h.kindAfter?_eq hf, State.strayNext]

theorem assignmentNext_eq (hf : ∀ t, (f t).kind = t.kind) (h : s.Mapped f tokens s') :
    s'.assignmentNext = s.assignmentNext := by
  rw [State.assignmentNext, h.kind?_eq hf, h.kindAfter?_eq hf, State.assignmentNext]

end State.Mapped

-- ---------------------------------------------------------------------------
-- Readings
-- ---------------------------------------------------------------------------

theorem Closes.mapped (hf : ∀ t, (f t).kind = t.kind) (h : Closes opening content s d s₁)
    (hs : s.Mapped f tokens s') :
    ∃ s₁', Closes (f opening) (content.mapTokens f) s' (d.mapTokens f) s₁' ∧
      s₁.Mapped f tokens s₁' := by
  cases h with
  | closed hrest hk => exact ⟨_, .closed (hs.rest_cons hrest) (by rw [hf, hk]), hs.take⟩
  | junk hrest hstray hk =>
    exact ⟨_, .junk (hs.rest_cons hrest) (by rwa [hf]) (by rw [hf, hk]), hs.report.skip.take⟩
  | assumed hk hafter =>
    exact ⟨_, .assumed (by rwa [hs.kind?_eq hf]) (by rwa [hs.kindAfter?_eq hf]), hs.report⟩

theorem Reads.mapped (hf : ∀ t, (f t).kind = t.kind) (h : Reads n part s d s₁)
    (hs : s.Mapped f tokens s') :
    ∃ s₁', Reads n part s' (d.mapTokens f) s₁' ∧ s₁.Mapped f tokens s₁' := by
  induction h generalizing s' with
  | chain _ _ ihFirst ihMore =>
    obtain ⟨_, hfirst, hs₁⟩ := ihFirst hs
    obtain ⟨_, hmore, hs₂⟩ := ihMore hs₁
    exact ⟨_, .chain hfirst hmore, hs₂⟩
  | tailEnd hk => exact ⟨_, .tailEnd (by rwa [hs.kind?_eq hf]), hs⟩
  | tailMore hrest hop _ _ ihOperand ihMore =>
    obtain ⟨_, hoperand, hs₁⟩ := ihOperand hs.take
    obtain ⟨_, hmore, hs₂⟩ := ihMore hs₁
    exact ⟨_, .tailMore (hs.rest_cons hrest) (by rwa [hf]) hoperand hmore, hs₂⟩
  | symbol hrest hk => exact ⟨_, .symbol (hs.rest_cons hrest) (by rwa [hf]), hs.take⟩
  | group hrest hk _ hclose ih =>
    obtain ⟨_, hcontent, hs₁⟩ := ih hs.take
    obtain ⟨_, hclose', hs₂⟩ := hclose.mapped hf hs₁
    exact ⟨_, .group (hs.rest_cons hrest) (by rw [hf, hk]) hcontent hclose', hs₂⟩
  | stray hfactor hstray _ ih =>
    obtain ⟨_, hreads, hs₁⟩ := ih hs.report.skip
    exact ⟨_, .stray (by rwa [hs.factorNext_eq hf]) (by rwa [hs.strayNext_eq hf]) hreads, hs₁⟩
  | empty hfactor hstray =>
    exact ⟨_, .empty (by rwa [hs.factorNext_eq hf]) (by rwa [hs.strayNext_eq hf]), hs.report⟩

theorem ReadsStatement.mapped (hf : ∀ t, (f t).kind = t.kind) (h : ReadsStatement n s d s₁)
    (hs : s.Mapped f tokens s') :
    ∃ s₁', ReadsStatement n s' (d.mapTokens f) s₁' ∧ s₁.Mapped f tokens s₁' := by
  cases h with
  | assigned hrest ht he hvalue =>
    obtain ⟨_, hvalue', hs₁⟩ := hvalue.mapped hf hs.take.take
    exact ⟨_, .assigned (hs.rest_cons hrest) (by rw [hf, ht]) (by rw [hf, he]) hvalue', hs₁⟩
  | plain ha hvalue =>
    obtain ⟨_, hvalue', hs₁⟩ := hvalue.mapped hf hs
    exact ⟨_, .plain (by rwa [hs.assignmentNext_eq hf]) hvalue', hs₁⟩

-- ---------------------------------------------------------------------------
-- Runs
-- ---------------------------------------------------------------------------

theorem State.Mapped.stuckAt (hf : ∀ t, (f t).kind = t.kind) (h : State.Mapped f tokens s s')
    (hstuck : Progress.StuckAt p s.rest) :
    p.StuckAt s'.rest := by
  cases hs : s.rest with
  | nil => simpa [h.rest_eq, hs] using hstuck
  | cons t more => simpa [h.rest_cons hs, hs, Progress.StuckAt, hf] using hstuck

structure Config.Mapped (f : Token → Token) (tokens : List Token) (c c' : Config) : Prop where
  progress_eq : c'.progress = c.progress
  state : c.state.Mapped f tokens c'.state

theorem Step.mapped (hf : ∀ t, (f t).kind = t.kind) (h : Step c d) (hc : c.Mapped f tokens c') :
    ∃ d', Step c' d' ∧ d.Mapped f tokens d' := by
  obtain ⟨p', s', kept', r'⟩ := c'
  obtain ⟨hp, hs⟩ := hc
  dsimp only at hp hs
  subst hp
  cases h with
  | take hrest hq => exact ⟨_, .take (hs.rest_cons hrest) (by rwa [hf]), rfl, hs.take⟩
  | stray hstuck hstray =>
    exact ⟨_, .stray (hs.stuckAt hf hstuck) (by rwa [hs.strayNext_eq hf]), rfl, hs.report.skip⟩
  | empty hstuck hstray =>
    exact ⟨_, .empty (hs.stuckAt hf hstuck) (by rwa [hs.strayNext_eq hf]), rfl, hs.report⟩
  | junk hstuck hrest hk =>
    exact ⟨_, .junk (hs.stuckAt hf hstuck) (hs.rest_cons hrest) (by rwa [hf]), rfl,
      hs.report.skip.take⟩
  | assumed hstuck hafter =>
    exact ⟨_, .assumed (hs.stuckAt hf hstuck) (by rwa [hs.kindAfter?_eq hf]), rfl, hs.report⟩

theorem RunWithin.mapped (hf : ∀ t, (f t).kind = t.kind) (h : RunWithin limit c d)
    (hc : c.Mapped f tokens c') : ∃ d', RunWithin limit c' d' ∧ d.Mapped f tokens d' := by
  induction h with
  | refl => exact ⟨c', .refl, hc⟩
  | tail _ hstep ih =>
    obtain ⟨_, hrun, hd⟩ := ih
    obtain ⟨e', hstep', he⟩ := hstep.1.mapped hf hd
    exact ⟨e', hrun.tail ⟨hstep', he.progress_eq ▸ hstep.2⟩, he⟩

theorem Config.mapped_start (hf : ∀ t, (f t).kind = t.kind) (tokens : List Token) :
    (start tokens).Mapped f tokens (start (tokens.map f)) := by
  have hs := State.Mapped.start f tokens
  unfold start
  dsimp only
  rw [hs.assignmentNext_eq hf]
  split
  · exact ⟨rfl, hs.take.take⟩
  · exact ⟨rfl, hs⟩

theorem Config.TooDeep.mapped (hf : ∀ t, (f t).kind = t.kind) (h : TooDeep limit deep c)
    (hc : c.Mapped f tokens c') : c'.TooDeep limit (f deep) := by
  obtain ⟨hp, hk, rest, hs⟩ := h
  exact ⟨hc.progress_eq.trans hp, (hf deep).trans hk, _, hc.state.rest_cons hs⟩

end Parse

-- ---------------------------------------------------------------------------
-- Parses
-- ---------------------------------------------------------------------------

theorem mem_of_unexpected (h : parse limit tokens = .ok p) (hmem : .unexpected t ∈ p.faults) :
    t ∈ tokens := by
  obtain ⟨d, s, hreads, -, hfaults⟩ := Parse.parse_ok_iff.mp h
  obtain ⟨_, -, hs⟩ := hreads.mapped (fun _ => rfl) (.start id tokens)
  exact hs.finish.mem_of_fault t (List.mem_reverse.mp (hfaults ▸ hmem))

/-- With other tokens of the same kinds a parse builds the same tree of those. If the tokens are
kept apart, it finds the same faults. -/
theorem parse_map (hf : ∀ t, (f t).kind = t.kind) (h : parse limit tokens = .ok p) :
    ∃ q, parse limit (tokens.map f) = .ok q ∧ q.tree = p.tree.mapTokens f ∧
      (Set.InjOn f {t | t ∈ tokens} → q.faults = p.faults.map (Fault.mapToken f)) := by
  obtain ⟨d, s, hreads, hd, hfaults⟩ := Parse.parse_ok_iff.mp h
  obtain ⟨s', hreads', hs⟩ := hreads.mapped hf (.start f tokens)
  refine ⟨_, Parse.parse_ok_iff.mpr ⟨_, _, hreads', rfl, rfl⟩, ?_, fun hinj => ?_⟩
  · rw [Tree.arranged_mapTokens hf, hd]
  · rw [(hs.finish.faults_eq hinj).1, ← List.map_reverse, hfaults]

open Parse in
theorem parse_map_error (hf : ∀ t, (f t).kind = t.kind) (h : parse limit tokens = .error e) :
    ∃ (i : Nat) (opening : Token), tokens[i]? = some opening ∧ opening.kind = .openParen ∧
      e = ⟨limit, opening.start⟩ ∧
      parse limit (tokens.map f) = .error ⟨limit, (f opening).start⟩ := by
  obtain ⟨c, deep, hrun, hdeep, rfl⟩ := exists_tooDeep_of_parse h
  obtain ⟨c', hrun', hc⟩ := hrun.mapped hf (Config.mapped_start hf tokens)
  obtain ⟨used, -, htokens, -⟩ := hrun.run.exists_used_start
  obtain ⟨-, hk, rest, hs⟩ := id hdeep
  refine ⟨used.length, deep, ?_, hk, rfl, parse_eq_error_of_runWithin hrun' (hdeep.mapped hf hc)⟩
  simp [htokens, hs]

/-- With other tokens of the same kinds a parse gives a tree exactly if it gives one with these. The
tree is the same one of those tokens, and if the tokens differ from each other, so are the faults.
Otherwise both are given up at the parenthesis with the same index. -/
theorem parse_of_same_kinds (hf : ∀ t, (f t).kind = t.kind) (limit : Nat) (tokens : List Token) :
    ((∃ q, parse limit (tokens.map f) = .ok q) ↔ ∃ p, parse limit tokens = .ok p) ∧
    (∀ p q, parse limit tokens = .ok p → parse limit (tokens.map f) = .ok q →
      q.tree = p.tree.mapTokens f ∧
        (tokens.Nodup → (tokens.map f).Nodup → q.faults = p.faults.map (Fault.mapToken f))) ∧
    ∀ e e', parse limit tokens = .error e → parse limit (tokens.map f) = .error e' →
      ∃ (i : Nat) (opening : Token), tokens[i]? = some opening ∧ opening.kind = .openParen ∧
        e = ⟨limit, opening.start⟩ ∧ e' = ⟨limit, (f opening).start⟩ := by
  refine ⟨⟨?_, ?_⟩, ?_, ?_⟩
  · rintro ⟨q, hq⟩
    cases hparse : parse limit tokens with
    | ok p => exact ⟨p, rfl⟩
    | error e =>
      obtain ⟨_, _, -, -, -, herror⟩ := parse_map_error hf hparse
      cases hq.symm.trans herror
  · rintro ⟨p, hp⟩
    obtain ⟨q, hq, -⟩ := parse_map hf hp
    exact ⟨q, hq⟩
  · intro p q hp hq
    obtain ⟨_, hq', htree, hfaults⟩ := parse_map hf hp
    cases hq.symm.trans hq'
    exact ⟨htree, fun _ hnodup => hfaults (List.inj_on_of_nodup_map hnodup)⟩
  · intro e e' he he'
    obtain ⟨i, opening, hi, hk, rfl, herror⟩ := parse_map_error hf he
    cases he'.symm.trans herror
    exact ⟨i, opening, hi, hk, rfl, rfl⟩

end

def Token.oneFurther (t : Token) : Token :=
  { t with startColumn := t.startColumn + 1, endColumn := t.endColumn + 1 }

/-- The tokens of `(+a`, and the same ones one column further on. -/
theorem parse_of_same_kinds_oneFurther :
    let tokens : List Token := [.ofLexeme .openParen ['('] ⟨1, 1⟩, .ofLexeme .plus ['+'] ⟨1, 2⟩,
      .ofLexeme .name ['a'] ⟨1, 3⟩]
    (∀ t : Token, t.oneFurther.kind = t.kind) ∧
      (parse 0 tokens = .error ⟨0, ⟨1, 1⟩⟩ ∧
        parse 0 (tokens.map Token.oneFurther) = .error ⟨0, ⟨1, 2⟩⟩) ∧
      ∃ p q, parse 256 tokens = .ok p ∧ parse 256 (tokens.map Token.oneFurther) = .ok q ∧
        q.tree = p.tree.mapTokens Token.oneFurther ∧
        q.faults = [.unexpected (.ofLexeme .plus ['+'] ⟨1, 3⟩), .endOfInput] := by
  intro tokens
  have hkind : ∀ t : Token, t.oneFurther.kind = t.kind := fun _ => rfl
  have hdeep : parse 0 tokens = .error ⟨0, ⟨1, 1⟩⟩ := rfl
  have hreads : Parse.ReadsStatement 256 ⟨tokens, [], false⟩ _ _ :=
    have hinner := .chain (.chain (.stray rfl rfl (.symbol rfl rfl)) (.tailEnd rfl)) (.tailEnd rfl)
    have hgroup := .group rfl rfl hinner (.assumed (by decide) (by decide))
    .plain rfl (.chain (.chain hgroup (.tailEnd rfl)) (.tailEnd rfl))
  have hp := Parse.parse_ok_iff.mpr ⟨_, _, hreads, rfl, rfl⟩
  obtain ⟨q, hq⟩ := (parse_of_same_kinds hkind 256 tokens).1.mpr ⟨_, hp⟩
  obtain ⟨htree, hfaults⟩ := (parse_of_same_kinds hkind 256 tokens).2.1 _ _ hp hq
  exact ⟨hkind, ⟨hdeep, rfl⟩, _, q, hp, hq, htree, hfaults (by decide) (by decide)⟩

end FormulaCheck
