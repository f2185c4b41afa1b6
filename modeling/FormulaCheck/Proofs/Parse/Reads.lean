import FormulaCheck.Proofs.Arrangement
import FormulaCheck.Proofs.Parse.State

/-!
# What reading does, step by step

`Reads` says what the reader for a part of a statement does from one state to another: which rules
it uses, where it repairs and what tree it builds. The tree has the parts of every node in text
order; the reader's own tree is that one arranged in slots.

* `reads_iff`: the relation and the reader agree.
* `readsStatement_iff`, `parse_ok_iff`: the same for whole statements and for a parse.
* `Reads.unique`: the state determines the reading.
-/

namespace FormulaCheck.Parse

-- ---------------------------------------------------------------------------
-- Parts of a statement
-- ---------------------------------------------------------------------------

inductive Layer
  | sum
  | product
deriving Repr, DecidableEq

inductive Part
  | factor
  | chain (layer : Layer)
  | tail (layer : Layer)
deriving Repr, DecidableEq

namespace Layer

def rule : Layer → Rule
  | .sum => .expression
  | .product => .term

def tailRule : Layer → Rule
  | .sum => .expressionTail
  | .product => .termTail

def isOperator : Layer → Token.Kind → Bool
  | .sum => isTermOperator
  | .product => isFactorOperator

def operand : Layer → Part
  | .sum => .chain .product
  | .product => .factor

end Layer

def Part.rule : Part → Rule
  | .factor => .factor
  | .chain layer => layer.rule
  | .tail layer => layer.tailRule

def deeper : Nat → Deeper
  | 0 => none
  | levels + 1 => some fun _ => expression levels

def Part.reader (levels : Nat) : Part → Reader Tree
  | .factor => Parse.factor (deeper levels)
  | .chain .product => term (deeper levels)
  | .chain .sum => expressionOver (deeper levels)
  | .tail .product => Parse.tail .termTail isFactorOperator (Parse.factor (deeper levels))
  | .tail .sum => Parse.tail .expressionTail isTermOperator (term (deeper levels))

theorem expression_eq (levels : Nat) : expression levels = (Part.chain .sum).reader levels := by
  cases levels <;> rfl

-- ---------------------------------------------------------------------------
-- The relation
-- ---------------------------------------------------------------------------

inductive Closes (opening : Token) (content : Tree) (s : State) : Tree → State → Prop
  | closed : s.rest = closing :: rest → closing.kind = .closeParen →
      Closes opening content s (.node .factor [.leaf opening, content, .leaf closing] false) s.take
  | junk : s.rest = stray :: closing :: rest → stray.kind ≠ .closeParen →
      closing.kind = .closeParen →
      Closes opening content s (.node .factor [.leaf opening, content, .leaf closing] false)
        s.report.skip.take
  | assumed : s.kind? ≠ some .closeParen → s.kindAfter? ≠ some .closeParen →
      Closes opening content s (.node .factor [.leaf opening, content] true) s.report

/-- `Reads levels part s d s'`: from `s` the reader for the part builds `d` and stops in `s'`. -/
inductive Reads : Nat → Part → State → Tree → State → Prop
  | chain : Reads n layer.operand s first s₁ → Reads n (.tail layer) s₁ more s₂ →
      Reads n (.chain layer) s (.node layer.rule [first, more] false) s₂
  | tailEnd : s.kind?.any layer.isOperator = false →
      Reads n (.tail layer) s (.node layer.tailRule [] false) s
  | tailMore : s.rest = op :: rest → layer.isOperator op.kind = true →
      Reads n layer.operand s.take operand s₁ →
      Reads n (.tail layer) s₁ (.node layer.tailRule more false) s₂ →
      Reads n (.tail layer) s (.node layer.tailRule (.leaf op :: operand :: more) false) s₂
  | symbol : s.rest = t :: rest → t.kind.isSymbol = true →
      Reads n .factor s (.node .factor [.leaf t] false) s.take
  | group : s.rest = opening :: rest → opening.kind = .openParen →
      Reads n (.chain .sum) s.take content s₁ → Closes opening content s₁ d s₂ →
      Reads (n + 1) .factor s d s₂
  | stray : s.factorNext = false → s.strayNext = true → Reads n .factor s.report.skip d s' →
      Reads n .factor s d s'
  | empty : s.factorNext = false → s.strayNext = false →
      Reads n .factor s (.node .factor [] true) s.report

inductive ReadsStatement : Nat → State → Tree → State → Prop
  | assigned : s.rest = target :: equals :: rest → target.kind = .name → equals.kind = .equals →
      Reads n (.chain .sum) s.take.take value s' →
      ReadsStatement n s
        (.node .statement [.node .assignment [.leaf target, .leaf equals, value] false] false) s'
  | plain : s.assignmentNext = false → Reads n (.chain .sum) s value s' →
      ReadsStatement n s (.node .statement [value] false) s'

-- ---------------------------------------------------------------------------
-- Readers that succeed
-- ---------------------------------------------------------------------------

theorem Reader.seq_ok {first : Reader α} {second : Reader β} :
    (first.seq second).run s = .ok ((a, b), s₂) ↔
      ∃ s₁, first.run s = .ok (a, s₁) ∧ second.run s₁ = .ok (b, s₂) := by
  constructor
  · intro h
    simp only [Reader.seq] at h
    split at h
    · cases h
    · next a s₁ h₁ =>
      split at h
      · cases h
      · next b s₂ h₂ => cases h; exact ⟨s₁, h₁, h₂⟩
  · rintro ⟨s₁, h₁, h₂⟩
    simp [Reader.seq, h₁, h₂]

theorem Reader.map_ok {r : Reader α} {f : α → β} :
    (r.map f).run s = .ok (b, s') ↔ ∃ a, r.run s = .ok (a, s') ∧ f a = b := by
  simp only [Reader.map]
  cases r.run s with
  | error => simp [Except.map]
  | ok =>
    simp [Except.map]
    grind

theorem reader_tail (layer : Layer) (n : Nat) : (Part.tail layer).reader n =
    Parse.tail layer.tailRule layer.isOperator (layer.operand.reader n) := by
  cases layer <;> rfl

theorem reader_chain (layer : Layer) (n : Nat) : (Part.chain layer).reader n =
    ((layer.operand.reader n).seq ((Part.tail layer).reader n)).map
      fun parts => Tree.ofChildren layer.rule [parts.1, parts.2] false := by
  cases layer <;> rfl

theorem chain_ok : ((Part.chain layer).reader n).run s = .ok (t, s₂) ↔
    ∃ first s₁ more, (layer.operand.reader n).run s = .ok (first, s₁) ∧
      ((Part.tail layer).reader n).run s₁ = .ok (more, s₂) ∧
      Tree.ofChildren layer.rule [first, more] false = t := by
  rw [reader_chain, Reader.map_ok]
  constructor
  · rintro ⟨⟨first, more⟩, h, ht⟩
    obtain ⟨s₁, h₁, h₂⟩ := Reader.seq_ok.mp h
    exact ⟨first, s₁, more, h₁, h₂, ht⟩
  · rintro ⟨first, s₁, more, h₁, h₂, ht⟩
    exact ⟨(first, more), Reader.seq_ok.mpr ⟨s₁, h₁, h₂⟩, ht⟩

theorem tail_ok : ((Part.tail layer).reader n).run s = .ok (t, s') ↔
    ∃ ts, alternate layer.isOperator (layer.operand.reader n) s = .ok (ts, s') ∧
      Tree.ofChildren layer.tailRule ts false = t := by
  rw [reader_tail, Parse.tail, Reader.map_ok]

theorem alternate_end {operand : Reader Tree} (h : s.kind?.any isOperator = false) :
    alternate isOperator operand s = .ok ([], s) := by
  unfold alternate
  split
  · rfl
  · next op rest hs => simp_all [State.kind?]

theorem alternate_cons {operand : Reader Tree} (hs : s.rest = op :: rest)
    (hop : isOperator op.kind = true) : alternate isOperator operand s =
      match operand.run s.take with
      | .error deep => .error deep
      | .ok (t, s₁) =>
        match alternate isOperator operand s₁ with
        | .error deep => .error deep
        | .ok (ts, s₂) => .ok (.leaf op :: t :: ts, s₂) := by
  rw [alternate]
  split
  · simp_all
  · next op' rest' hs' =>
    obtain ⟨rfl, rfl⟩ := List.cons.inj (hs.symm.trans hs')
    rw [if_pos hop]
    split
    · next ho => rw [ho]
    · next s₁ ho => cases halt : alternate isOperator operand s₁ <;> simp only [ho, halt]

theorem alternate_more {operand : Reader Tree} (hs : s.rest = op :: rest)
    (hop : isOperator op.kind = true) (h₁ : operand.run s.take = .ok (t, s₁))
    (h₂ : alternate isOperator operand s₁ = .ok (ts, s₂)) :
    alternate isOperator operand s = .ok (.leaf op :: t :: ts, s₂) := by
  simp [alternate_cons hs hop, h₁, h₂]

theorem group_ok : group (deeper n) opening s = .ok (t, s') ↔
    ∃ levels content s₁, n = levels + 1 ∧
      ((Part.chain .sum).reader levels).run s.take = .ok (content, s₁) ∧
      closeGroup opening content s₁ = (t, s') := by
  cases n with
  | zero => simp [group, deeper]
  | succ levels =>
    simp only [group, deeper, expression_eq]
    constructor
    · intro h
      split at h
      · cases h
      · next content s₁ hi => exact ⟨levels, content, s₁, rfl, hi, Except.ok.inj h⟩
    · rintro ⟨_, content, s₁, hn, hi, hclose⟩
      cases hn
      rw [hi]
      exact congrArg _ hclose

theorem closeGroup_eq (h : Closes opening content s d s') :
    closeGroup opening content.arranged s = (d.arranged, s') := by
  cases h with
  | closed hs hk => simp [closeGroup, hs, hk, Tree.arranged, Tree.arrangedForest]
  | junk hs hne hk => simp [closeGroup, hs, hne, hk, Tree.arranged, Tree.arrangedForest]
  | assumed hk hafter =>
    rcases hs : s.rest with _ | ⟨t, _ | ⟨next, rest⟩⟩
    · simp [closeGroup, hs, Tree.arranged, Tree.arrangedForest]
    · have ht : t.kind ≠ .closeParen := by simpa [State.kind?, hs] using hk
      simp [closeGroup, hs, ht, Tree.arranged, Tree.arrangedForest]
    · have ht : t.kind ≠ .closeParen := by simpa [State.kind?, hs] using hk
      have hnext : next.kind ≠ .closeParen := by simpa [State.kindAfter?, hs] using hafter
      simp [closeGroup, hs, ht, hnext, Tree.arranged, Tree.arrangedForest]

theorem exists_closes (opening : Token) (content : Tree) (s : State) :
    ∃ d s', Closes opening content s d s' := by
  by_cases hk : s.kind? = some .closeParen
  · obtain ⟨closing, hc, hkind⟩ := Option.map_eq_some_iff.mp hk
    obtain ⟨rest, hs⟩ := List.head?_eq_some_iff.mp hc
    exact ⟨_, _, .closed hs hkind⟩
  · by_cases hafter : s.kindAfter? = some .closeParen
    · obtain ⟨closing, hc, hkind⟩ := Option.map_eq_some_iff.mp hafter
      obtain ⟨rest, hs⟩ := List.head?_eq_some_iff.mp hc
      cases hrest : s.rest with
      | nil => simp [hrest] at hs
      | cons stray more =>
        obtain rfl : more = closing :: rest := by simpa [hrest] using hs
        exact ⟨_, _, .junk hrest (by simpa [State.kind?, hrest] using hk) hkind⟩
    · exact ⟨_, _, .assumed hk hafter⟩

-- ---------------------------------------------------------------------------
-- The ways to read a factor
-- ---------------------------------------------------------------------------

theorem factorFrom_symbol (hs : s.rest = t :: rest) (hk : t.kind.isSymbol = true) :
    factorFrom deeper? s = .ok (Tree.ofChildren .factor [.leaf t] false, s.take) := by
  have hstart : t.kind.startsFactor = true := Token.Kind.startsFactor_iff.mpr (.inl hk)
  simp [factorFrom, factorAt, hs, hstart, (Token.Kind.ne_paren_of_isSymbol hk).1]

theorem factorFrom_group (hs : s.rest = opening :: rest) (hk : opening.kind = .openParen) :
    factorFrom deeper? s = group deeper? opening s := by
  simp [factorFrom, factorAt, hs, hk, Token.Kind.startsFactor]

theorem factorFrom_stray (hf : s.factorNext = false) (hstray : s.strayNext = true) :
    factorFrom deeper? s = factorFrom deeper? s.report.skip := by
  obtain ⟨t, next, rest, hs, ht, hnext⟩ := State.strayNext_iff.mp hstray
  simp_all [State.factorNext, State.kind?, factorFrom]

theorem factorFrom_empty (hf : s.factorNext = false) (hstray : s.strayNext = false) :
    factorFrom deeper? s = .ok (Tree.ofChildren .factor [] true, s.report) := by
  rcases hs : s.rest with _ | ⟨t, _ | ⟨next, rest⟩⟩
  · simp [factorFrom, hs]
  · simp_all [State.factorNext, State.kind?, factorFrom]
  · simp_all [State.factorNext, State.strayNext, State.kind?, State.kindAfter?, factorFrom]

-- ---------------------------------------------------------------------------
-- The relation and the readers agree
-- ---------------------------------------------------------------------------

/-- A tail rule's parts are what `alternate` reads, so the induction keeps track of both. -/
theorem Reads.run_eq_and_alternate_eq (h : Reads n part s d s') :
    (part.reader n).run s = .ok (d.arranged, s') ∧
      ∀ layer, part = .tail layer →
        alternate layer.isOperator (layer.operand.reader n) s =
          .ok (Tree.arrangedForest d.children, s') := by
  induction h with
  | chain _ _ ihFirst ihMore => exact ⟨chain_ok.mpr ⟨_, _, _, ihFirst.1, ihMore.1, rfl⟩, by simp⟩
  | tailEnd hk =>
    exact ⟨tail_ok.mpr ⟨_, alternate_end hk, rfl⟩, by rintro _ ⟨⟩; exact alternate_end hk⟩
  | tailMore hs hop _ _ ihOperand ihMore =>
    have halt := alternate_more hs hop ihOperand.1 (ihMore.2 _ rfl)
    exact ⟨tail_ok.mpr ⟨_, halt, rfl⟩, by rintro _ ⟨⟩; exact halt⟩
  | symbol hs hk => exact ⟨factorFrom_symbol hs hk, by simp⟩
  | group hs hk _ hclose ih =>
    refine ⟨(factorFrom_group hs hk).trans (group_ok.mpr ?_), by simp⟩
    exact ⟨_, _, _, rfl, ih.1, closeGroup_eq hclose⟩
  | stray hf hstray _ ih => exact ⟨(factorFrom_stray hf hstray).trans ih.1, by simp⟩
  | empty hf hstray => exact ⟨factorFrom_empty hf hstray, by simp⟩

theorem Reads.run_eq (h : Reads n part s d s') : (part.reader n).run s = .ok (d.arranged, s') :=
  h.run_eq_and_alternate_eq.1

def Part.Complete (n : Nat) (part : Part) : Prop :=
  ∀ s t s', (part.reader n).run s = .ok (t, s') → ∃ d, d.arranged = t ∧ Reads n part s d s'

theorem exists_reads_of_alternate (hoperand : layer.operand.Complete n)
    (h : alternate layer.isOperator (layer.operand.reader n) s = .ok (ts, s')) :
    ∃ ds, Tree.arrangedForest ds = ts ∧
      Reads n (.tail layer) s (.node layer.tailRule ds false) s' := by
  generalize hr : layer.operand.reader n = operand at h
  fun_induction alternate layer.isOperator operand s generalizing ts with
  | case1 s hs =>
    cases h
    exact ⟨[], rfl, .tailEnd (by simp [State.kind?, hs])⟩
  | case2 => cases h
  | case3 => cases h
  | case4 s op rest hs hop t s₁ ho ts₁ s₂ ha ih =>
    cases h
    subst hr
    obtain ⟨d, rfl, hd⟩ := hoperand _ _ _ ho
    obtain ⟨ds, rfl, hds⟩ := ih ha
    exact ⟨.leaf op :: d :: ds, rfl, .tailMore hs hop hd hds⟩
  | case5 s op rest hs hop =>
    cases h
    exact ⟨[], rfl, .tailEnd (by simpa [State.kind?, hs] using hop)⟩

theorem complete_tail (hoperand : layer.operand.Complete n) : (Part.tail layer).Complete n := by
  intro s t s' h
  obtain ⟨ts, halt, rfl⟩ := tail_ok.mp h
  obtain ⟨ds, rfl, hds⟩ := exists_reads_of_alternate hoperand halt
  exact ⟨_, rfl, hds⟩

theorem complete_chain (hoperand : layer.operand.Complete n) : (Part.chain layer).Complete n := by
  intro s t s' h
  obtain ⟨first, s₁, more, hfirst, hmore, rfl⟩ := chain_ok.mp h
  obtain ⟨d, rfl, hd⟩ := hoperand _ _ _ hfirst
  obtain ⟨e, rfl, he⟩ := complete_tail hoperand _ _ _ hmore
  exact ⟨_, rfl, .chain hd he⟩

theorem exists_reads_of_factorNext
    (hinner : ∀ levels, n = levels + 1 → (Part.chain .sum).Complete levels)
    (hf : s.factorNext = true) (h : factorFrom (deeper n) s = .ok (t, s')) :
    ∃ d, d.arranged = t ∧ Reads n .factor s d s' := by
  obtain ⟨start, rest, hs, hstart⟩ := State.factorNext_iff.mp hf
  by_cases hk : start.kind = .openParen
  · rw [factorFrom_group hs hk] at h
    obtain ⟨levels, content, s₁, hn, hi, hclose⟩ := group_ok.mp h
    obtain ⟨content, rfl, hreads⟩ := hinner levels hn _ _ _ hi
    obtain ⟨d, s₂, hd⟩ := exists_closes start content s₁
    cases (closeGroup_eq hd).symm.trans hclose
    exact ⟨d, rfl, hn ▸ .group hs hk hreads hd⟩
  · have hsymbol : start.kind.isSymbol = true :=
      (Token.Kind.startsFactor_iff.mp hstart).resolve_right hk
    cases (factorFrom_symbol hs hsymbol).symm.trans h
    exact ⟨_, rfl, .symbol hs hsymbol⟩

theorem complete_factor
    (hinner : ∀ levels, n = levels + 1 → (Part.chain .sum).Complete levels) :
    Part.factor.Complete n := by
  intro s t s' h
  cases hf : s.factorNext with
  | true => exact exists_reads_of_factorNext hinner hf h
  | false =>
    cases hstray : s.strayNext with
    | true =>
      obtain ⟨stray, next, rest, hs, -, hnext⟩ := State.strayNext_iff.mp hstray
      have hskip : s.report.skip.factorNext = true :=
        State.factorNext_iff.mpr ⟨next, rest, by simp [hs], hnext⟩
      obtain ⟨d, hd, hreads⟩ := exists_reads_of_factorNext hinner hskip
        ((factorFrom_stray hf hstray).symm.trans h)
      exact ⟨d, hd, .stray hf hstray hreads⟩
    | false =>
      cases (factorFrom_empty hf hstray).symm.trans h
      exact ⟨_, rfl, .empty hf hstray⟩

theorem complete_of_factor (hfactor : Part.factor.Complete n) (part : Part) :
    part.Complete n := by
  have hterm : (Part.chain .product).Complete n := complete_chain hfactor
  match part with
  | .factor => exact hfactor
  | .chain .product => exact hterm
  | .tail .product => exact complete_tail hfactor
  | .chain .sum => exact complete_chain hterm
  | .tail .sum => exact complete_tail hterm

theorem complete (n : Nat) (part : Part) : part.Complete n := by
  induction n generalizing part with
  | zero => exact complete_of_factor (complete_factor (by simp)) part
  | succ n ih =>
    refine complete_of_factor (complete_factor ?_) part
    rintro levels ⟨⟩
    exact ih _

theorem reads_iff : (part.reader n).run s = .ok (t, s') ↔
    ∃ d, d.arranged = t ∧ Reads n part s d s' :=
  ⟨fun h => complete n part _ _ _ h, fun ⟨_, hd, h⟩ => hd ▸ h.run_eq⟩

theorem statement_assigned (hs : s.rest = target :: equals :: rest) (ht : target.kind = .name)
    (he : equals.kind = .equals) : statement n s = .ok (t, s') ↔
      ∃ value, (expression n).run s.take.take = .ok (value, s') ∧
        Tree.ofChildren .statement
          [Tree.ofChildren .assignment [.leaf target, .leaf equals, value] false] false = t := by
  simp only [statement, hs, ht, he, and_self, ↓reduceIte]
  cases (expression n).run s.take.take with
  | error => simp
  | ok =>
    simp
    grind

theorem statement_eq_plain (h : s.assignmentNext = false) :
    statement n s = statement.plain n s := by
  rcases hs : s.rest with _ | ⟨target, _ | ⟨equals, rest⟩⟩
  · simp [statement, hs]
  · simp [statement, hs]
  · have hkinds : ¬ (target.kind = .name ∧ equals.kind = .equals) := by
      rw [← Bool.not_eq_true, State.assignmentNext_iff] at h
      exact fun hk => h ⟨_, _, _, hs, hk⟩
    simp [statement, hs, hkinds]

theorem statement_plain (h : s.assignmentNext = false) : statement n s = .ok (t, s') ↔
    ∃ value, (expression n).run s = .ok (value, s') ∧
      Tree.ofChildren .statement [value] false = t := by
  rw [statement_eq_plain h, statement.plain]
  cases (expression n).run s with
  | error => simp
  | ok =>
    simp
    grind

theorem readsStatement_iff : statement n s = .ok (t, s') ↔
    ∃ d, d.arranged = t ∧ ReadsStatement n s d s' := by
  constructor
  · intro h
    cases ha : s.assignmentNext with
    | true =>
      obtain ⟨target, equals, rest, hs, ht, he⟩ := State.assignmentNext_iff.mp ha
      obtain ⟨value, hv, rfl⟩ := (statement_assigned hs ht he).mp h
      rw [expression_eq] at hv
      obtain ⟨d, rfl, hd⟩ := reads_iff.mp hv
      exact ⟨_, rfl, .assigned hs ht he hd⟩
    | false =>
      obtain ⟨value, hv, rfl⟩ := (statement_plain ha).mp h
      rw [expression_eq] at hv
      obtain ⟨d, rfl, hd⟩ := reads_iff.mp hv
      exact ⟨_, rfl, .plain ha hd⟩
  · rintro ⟨d, rfl, h⟩
    cases h with
    | assigned hs ht he hd =>
      exact (statement_assigned hs ht he).mpr ⟨_, by rw [expression_eq]; exact hd.run_eq, rfl⟩
    | plain ha hd =>
      exact (statement_plain ha).mpr ⟨_, by rw [expression_eq]; exact hd.run_eq, rfl⟩

def State.finish (s : State) : State := if s.rest.isEmpty then s else s.report

theorem State.faults_suffix_finish (s : State) : s.faults <:+ s.finish.faults := by
  unfold State.finish
  split
  · exact List.suffix_rfl
  · exact s.faults_suffix_report

theorem parse_ok_iff : parse limit tokens = .ok ⟨tree, faults⟩ ↔
    ∃ d s, ReadsStatement limit ⟨tokens, [], false⟩ d s ∧ d.arranged = tree ∧
      s.finish.faults.reverse = faults := by
  have hparse : parse limit tokens = .ok ⟨tree, faults⟩ ↔
      ∃ s, statement limit ⟨tokens, [], false⟩ = .ok (tree, s) ∧
        s.finish.faults.reverse = faults := by
    unfold parse
    cases statement limit ⟨tokens, [], false⟩ with
    | error => simp
    | ok r =>
      simp [State.finish]
      grind
  rw [hparse]
  constructor
  · rintro ⟨s, h, hf⟩
    obtain ⟨d, hd, hreads⟩ := readsStatement_iff.mp h
    exact ⟨d, s, hreads, hd, hf⟩
  · rintro ⟨d, s, hreads, hd, hf⟩
    exact ⟨s, readsStatement_iff.mpr ⟨d, hd, hreads⟩, hf⟩

-- ---------------------------------------------------------------------------
-- The state determines the reading
-- ---------------------------------------------------------------------------

theorem Closes.unique (h : Closes opening content s d s') (h' : Closes opening content s e s'') :
    e = d ∧ s'' = s' := by
  cases h <;> cases h' <;> simp_all [State.kind?, State.kindAfter?]

theorem Reads.unique (h : Reads n part s d s') (h' : Reads n part s e s'') : e = d ∧ s'' = s' := by
  induction h generalizing e s'' with
  | chain _ _ ihFirst ihMore =>
    cases h' with
    | chain hFirst hMore =>
      obtain ⟨rfl, rfl⟩ := ihFirst hFirst
      obtain ⟨rfl, rfl⟩ := ihMore hMore
      exact ⟨rfl, rfl⟩
  | tailEnd hk =>
    cases h' with
    | tailEnd => exact ⟨rfl, rfl⟩
    | tailMore hs hop => simp [State.kind?, hs, hop] at hk
  | tailMore hs hop _ _ ihOperand ihMore =>
    cases h' with
    | tailEnd hk => simp [State.kind?, hs, hop] at hk
    | tailMore hs' _ hOperand hMore =>
      obtain ⟨rfl, rfl⟩ := List.cons.inj (hs.symm.trans hs')
      obtain ⟨rfl, rfl⟩ := ihOperand hOperand
      obtain ⟨heq, rfl⟩ := ihMore hMore
      cases heq
      exact ⟨rfl, rfl⟩
  | symbol hs hk =>
    have hf := State.factorNext_of_isSymbol hs hk
    cases h' with
    | symbol hs' =>
      obtain ⟨rfl, rfl⟩ := List.cons.inj (hs.symm.trans hs')
      exact ⟨rfl, rfl⟩
    | group hs' hk' =>
      obtain ⟨rfl, rfl⟩ := List.cons.inj (hs.symm.trans hs')
      simp [hk', Token.Kind.isSymbol] at hk
    | stray hf' | empty hf' => simp [hf] at hf'
  | group hs hk _ hclose ih =>
    have hf := State.factorNext_of_openParen hs hk
    cases h' with
    | symbol hs' hk' =>
      obtain ⟨rfl, rfl⟩ := List.cons.inj (hs.symm.trans hs')
      simp [hk, Token.Kind.isSymbol] at hk'
    | group hs' _ hinner hclose' =>
      obtain ⟨rfl, rfl⟩ := List.cons.inj (hs.symm.trans hs')
      obtain ⟨rfl, rfl⟩ := ih hinner
      exact hclose.unique hclose'
    | stray hf' | empty hf' => simp [hf] at hf'
  | stray hf hstray _ ih =>
    cases h' with
    | symbol hs' hk' => simp [State.factorNext_of_isSymbol hs' hk'] at hf
    | group hs' hk' => simp [State.factorNext_of_openParen hs' hk'] at hf
    | stray _ _ hreads => exact ih hreads
    | empty _ hstray' => simp [hstray] at hstray'
  | empty hf hstray =>
    cases h' with
    | symbol hs' hk' => simp [State.factorNext_of_isSymbol hs' hk'] at hf
    | group hs' hk' => simp [State.factorNext_of_openParen hs' hk'] at hf
    | stray _ hstray' => simp [hstray] at hstray'
    | empty => exact ⟨rfl, rfl⟩

theorem ReadsStatement.unique (h : ReadsStatement n s d s') (h' : ReadsStatement n s e s'') :
    e = d ∧ s'' = s' := by
  cases h with
  | assigned hs ht he hvalue =>
    cases h' with
    | assigned hs' _ _ hvalue' =>
      cases hs.symm.trans hs'
      obtain ⟨rfl, rfl⟩ := hvalue.unique hvalue'
      exact ⟨rfl, rfl⟩
    | plain ha => simp [State.assignmentNext_iff.mpr ⟨_, _, _, hs, ht, he⟩] at ha
  | plain ha hvalue =>
    cases h' with
    | assigned hs' ht he => simp [State.assignmentNext_iff.mpr ⟨_, _, _, hs', ht, he⟩] at ha
    | plain _ hvalue' =>
      obtain ⟨rfl, rfl⟩ := hvalue.unique hvalue'
      exact ⟨rfl, rfl⟩

end FormulaCheck.Parse
