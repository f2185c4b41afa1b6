import FormulaCheck.Proofs.Grammar.Progress
import FormulaCheck.Proofs.Parse.Reads

/-!
# Parses without faults

A parse finds no fault exactly in what the grammar derives, within the nesting limit, and its tree
is then the derivation tree. One direction reads a derivation off a reading (`Reads.derivation`),
the other reads along a derivation (`Derivation.reads`); that a derivation tree is unique follows
from the second one, since a state determines its reading.
-/

namespace FormulaCheck

namespace Parse

-- ---------------------------------------------------------------------------
-- Faults are kept, and operators are used up
-- ---------------------------------------------------------------------------

theorem Closes.faults_suffix (h : Closes opening content s d s') : s.faults <:+ s'.faults := by
  cases h with
  | closed => exact List.suffix_rfl
  | junk | assumed => exact s.faults_suffix_report

theorem Reads.faults_suffix (h : Reads n part s d s') : s.faults <:+ s'.faults := by
  induction h with
  | chain _ _ ihFirst ihMore => exact ihFirst.trans ihMore
  | tailEnd | symbol => exact List.suffix_rfl
  | tailMore _ _ _ _ ihOperand ihMore => exact ihOperand.trans ihMore
  | group _ _ _ hclose ih => exact ih.trans hclose.faults_suffix
  | stray _ _ _ ih => exact (State.faults_suffix_report _).trans ih
  | empty => exact State.faults_suffix_report _

def Part.continues : Part → Token.Kind → Bool
  | .factor, _ => false
  | .chain .product, k | .tail .product, k => isFactorOperator k
  | .chain .sum, k | .tail .sum, k => k.isOperator

theorem continues_layer (layer : Layer) (k : Token.Kind) :
    (Part.chain layer).continues k = (layer.operand.continues k || layer.isOperator k) := by
  cases layer <;> cases k <;> rfl

theorem isOperator_of_layer {layer : Layer} (h : layer.isOperator k = true) :
    k.isOperator = true := by
  cases layer <;> cases k <;> simp_all [Layer.isOperator, isTermOperator, isFactorOperator,
    Token.Kind.isOperator]

theorem continues_tail (layer : Layer) :
    (Part.tail layer).continues = (Part.chain layer).continues := by
  cases layer <;> rfl

namespace State

/-- The next token is no operator with which the part goes on. -/
def Past (s : State) (part : Part) : Prop := s.kind?.any part.continues = false

/-- The part may begin here: a tail only after an operand. -/
def Fits (s : State) : Part → Prop
  | .tail layer => s.Past layer.operand
  | .factor | .chain _ => True

theorem fits_operand (s : State) (layer : Layer) : s.Fits layer.operand := by
  cases layer <;> trivial

theorem past_factor (s : State) : s.Past .factor := by
  unfold Past
  cases s.kind? <;> rfl

theorem past_chain_iff {s : State} : s.Past (.chain layer) ↔
    s.Past layer.operand ∧ s.kind?.any layer.isOperator = false := by
  unfold Past
  cases s.kind? with
  | none => simp
  | some k => simp [continues_layer]

theorem past_tail_iff {s : State} : s.Past (.tail layer) ↔ s.Past (.chain layer) := by
  rw [Past, Past, continues_tail]

end State

theorem Reads.past (h : Reads n part s d s') (hs : s.Fits part) : s'.Past part := by
  induction h with
  | chain _ _ ihFirst ihMore =>
    exact State.past_tail_iff.mp (ihMore (ihFirst (State.fits_operand ..)))
  | tailEnd hk => exact State.past_tail_iff.mpr (State.past_chain_iff.mpr ⟨hs, hk⟩)
  | tailMore _ _ _ _ ihOperand ihMore => exact ihMore (ihOperand (State.fits_operand ..))
  | symbol | group | stray | empty => exact State.past_factor _

-- ---------------------------------------------------------------------------
-- From a reading to a derivation
-- ---------------------------------------------------------------------------

end Parse

open Parse

namespace Derivation

variable {layer : Layer}

theorem chain (hd : Derivation layer.operand.rule ts d) (he : Derivation layer.tailRule us e) :
    Derivation layer.rule (ts ++ us) (.node layer.rule [d, e] false) := by
  cases layer with
  | sum => exact .expression hd he
  | product => exact .term hd he

theorem tailEnd (layer : Layer) : Derivation layer.tailRule [] (.node layer.tailRule [] false) := by
  cases layer with
  | sum => exact .noTerms
  | product => exact .noFactors

theorem tailMore (hop : layer.isOperator op.kind = true)
    (hd : Derivation layer.operand.rule ts d)
    (he : Derivation layer.tailRule us (.node layer.tailRule ds false)) :
    Derivation layer.tailRule (op :: (ts ++ us))
      (.node layer.tailRule (.leaf op :: d :: ds) false) := by
  cases layer with
  | sum => exact .moreTerms (by simpa [Layer.isOperator, isTermOperator] using hop) hd he
  | product => exact .moreFactors (by simpa [Layer.isOperator, isFactorOperator] using hop) hd he

theorem symbol (hk : t.kind.isSymbol = true) :
    Derivation .factor [t] (.node .factor [.leaf t] false) := by
  cases h : t.kind with
  | number => exact .number h
  | name => exact .name h
  | _ => rw [h] at hk; cases hk

theorem chain_cases (h : Derivation layer.rule ts d) : ∃ first more e es, ts = first ++ more ∧
    d = .node layer.rule [e, .node layer.tailRule es false] false ∧
    Derivation layer.operand.rule first e ∧
    Derivation layer.tailRule more (.node layer.tailRule es false) := by
  cases layer with
  | sum =>
    cases h with
    | expression hd he =>
      obtain ⟨es, rfl⟩ := he.eq_node
      exact ⟨_, _, _, _, rfl, rfl, hd, he⟩
  | product =>
    cases h with
    | term hd he =>
      obtain ⟨es, rfl⟩ := he.eq_node
      exact ⟨_, _, _, _, rfl, rfl, hd, he⟩

theorem tail_cases (h : Derivation layer.tailRule ts (.node layer.tailRule ds false)) :
    (ts = [] ∧ ds = []) ∨ ∃ op first more e es, layer.isOperator op.kind = true ∧
      ts = op :: (first ++ more) ∧ ds = .leaf op :: e :: es ∧
      Derivation layer.operand.rule first e ∧
      Derivation layer.tailRule more (.node layer.tailRule es false) := by
  cases layer with
  | sum =>
    cases h with
    | noTerms => exact .inl ⟨rfl, rfl⟩
    | moreTerms hop hd he =>
      exact .inr ⟨_, _, _, _, _, by simpa [Layer.isOperator, isTermOperator] using hop, rfl, rfl,
        hd, he⟩
  | product =>
    cases h with
    | noFactors => exact .inl ⟨rfl, rfl⟩
    | moreFactors hop hd he =>
      exact .inr ⟨_, _, _, _, _, by simpa [Layer.isOperator, isFactorOperator] using hop, rfl, rfl,
        hd, he⟩

theorem factor_cases (h : Derivation .factor ts d) :
    (∃ t, t.kind.isSymbol = true ∧ ts = [t] ∧ d = .node .factor [.leaf t] false) ∨
      ∃ opening closing inner e, opening.kind = .openParen ∧ closing.kind = .closeParen ∧
        ts = opening :: (inner ++ [closing]) ∧
        d = .node .factor [.leaf opening, e, .leaf closing] false ∧
        Derivation .expression inner e := by
  cases h with
  | number ht | name ht => exact .inl ⟨_, by rw [ht]; rfl, rfl, rfl⟩
  | group ho hc hd => exact .inr ⟨_, _, _, _, ho, hc, rfl, rfl, hd⟩

theorem slot_eq (h : Derivation r ts d) : d.slot = .rule r := by
  obtain ⟨ds, rfl⟩ := h.eq_node
  rfl

theorem count_parens (h : Derivation r ts d) :
    (ts.map Token.kind).count .openParen = (ts.map Token.kind).count .closeParen :=
  h.derives.count_parens

end Derivation

namespace Parse

theorem Closes.closed_of_faultless (h : Closes opening content s d s') (hs : s.Clean)
    (hf : s'.faults = []) : ∃ closing, s.rest = closing :: s'.rest ∧ closing.kind = .closeParen ∧
      s' = s.take ∧ d = .node .factor [.leaf opening, content, .leaf closing] false := by
  cases h with
  | closed hrest hk => exact ⟨_, by simp [hrest], hk, rfl, rfl⟩
  | junk | assumed => simp [hs.faults_report] at hf

theorem Reads.derivation (h : Reads n part s d s') (hs : s.Clean) (hf : s'.faults = []) :
    ∃ used, s.rest = used ++ s'.rest ∧ s' = s.takeAll used ∧ Derivation part.rule used d ∧
      NestsWithin n (used.map Token.kind) := by
  induction h with
  | chain _ hmore ihFirst ihMore =>
    have hf₁ := List.suffix_nil.mp (hf ▸ hmore.faults_suffix)
    obtain ⟨used, hrest, rfl, hd, hn⟩ := ihFirst hs hf₁
    obtain ⟨more, hrest', rfl, he, hm⟩ := ihMore (hs.takeAll used) hf
    refine ⟨used ++ more, by rw [hrest, hrest', List.append_assoc], by simp, hd.chain he, ?_⟩
    rw [List.map_append]
    exact (NestsWithin.append_iff hd.count_parens).mpr ⟨hn, hm⟩
  | tailEnd => exact ⟨[], rfl, rfl, .tailEnd _, .nil⟩
  | tailMore hs' hop _ hmore ihOperand ihMore =>
    have hf₁ := List.suffix_nil.mp (hf ▸ hmore.faults_suffix)
    obtain ⟨used, hrest, rfl, hd, hn⟩ := ihOperand hs.take hf₁
    obtain ⟨more, hrest', rfl, he, hm⟩ := ihMore (hs.take.takeAll used) hf
    simp only [State.rest_take, hs', List.tail_cons] at hrest
    refine ⟨_ :: (used ++ more), by simp [hs', hrest, hrest'], by simp, hd.tailMore hop he, ?_⟩
    obtain ⟨ho, hc⟩ := Token.Kind.ne_paren_of_isOperator (isOperator_of_layer hop)
    rw [List.map_cons, List.map_append, NestsWithin.cons_iff ho hc]
    exact (NestsWithin.append_iff hd.count_parens).mpr ⟨hn, hm⟩
  | symbol hs' hk =>
    refine ⟨[_], by simp [hs'], rfl, .symbol hk, ?_⟩
    obtain ⟨ho, hc⟩ := Token.Kind.ne_paren_of_isSymbol hk
    exact (NestsWithin.cons_iff ho hc).mpr .nil
  | group hs' hk hinner hclose ih =>
    have hf₁ := List.suffix_nil.mp (hf ▸ hclose.faults_suffix)
    obtain ⟨used, hrest, rfl, hd, hn⟩ := ih hs.take hf₁
    obtain ⟨closing, hclosing, hkc, rfl, rfl⟩ :=
      hclose.closed_of_faultless (hs.take.takeAll used) hf
    simp only [State.rest_take, hs', List.tail_cons] at hrest
    refine ⟨_ :: (used ++ [closing]), ?_, by simp, .group hk hkc hd, ?_⟩
    · rw [hs', hrest, hclosing]
      simp
    · simp only [List.map_cons, List.map_append, List.map_nil, hk, hkc]
      exact (NestsWithin.group_iff hd.count_parens).mpr ⟨_, rfl, hn⟩
  | stray _ _ hreads =>
    have hreport := List.suffix_nil.mp (hf ▸ hreads.faults_suffix)
    simp [hs.faults_report] at hreport
  | empty => simp [hs.faults_report] at hf

theorem ReadsStatement.derivation (h : ReadsStatement n s d s') (hs : s.Clean)
    (hf : s'.faults = []) : ∃ used, s.rest = used ++ s'.rest ∧ s'.Clean ∧
      Derivation .statement used d ∧ NestsWithin n (used.map Token.kind) := by
  cases h with
  | assigned hs' ht he hvalue =>
    obtain ⟨used, hrest, rfl, hd, hn⟩ := hvalue.derivation hs.take.take hf
    simp only [State.rest_take, hs', List.tail_cons] at hrest
    refine ⟨_ :: _ :: used, by rw [hs', hrest]; simp, hs.take.take.takeAll used,
      .assigned (.assignment ht he hd), ?_⟩
    simp only [List.map_cons, ht, he]
    rw [NestsWithin.cons_iff (by simp) (by simp), NestsWithin.cons_iff (by simp) (by simp)]
    exact hn
  | plain _ hvalue =>
    obtain ⟨used, hrest, rfl, hd, hn⟩ := hvalue.derivation hs hf
    exact ⟨used, hrest, hs.takeAll used, .plain hd, hn⟩

-- ---------------------------------------------------------------------------
-- From a derivation to a reading
-- ---------------------------------------------------------------------------

def Part.ofRule? : Rule → Option Part
  | .expression => some (.chain .sum)
  | .expressionTail => some (.tail .sum)
  | .term => some (.chain .product)
  | .termTail => some (.tail .product)
  | .factor => some .factor
  | .statement | .assignment => none

theorem State.past_of_nil {s : State} (hs : s.rest = []) (part : Part) : s.Past part := by
  simp [State.Past, State.kind?, hs]

theorem State.past_of_cons {s : State} (hs : s.rest = t :: more)
    (ht : Part.continues part t.kind = false) : s.Past part := by
  simpa [State.Past, State.kind?, hs] using ht

/-- What comes in front of a tail is no operator of the operands. -/
theorem State.past_operand {s : State} {layer : Layer} (h : Derivation layer.tailRule used e)
    (hs : s.rest = used ++ more) (hpast : (s.takeAll used).Past (.chain layer)) :
    s.Past layer.operand := by
  generalize hr : layer.tailRule = r at h
  cases h with
  | noTerms | noFactors => exact (State.past_chain_iff.mp hpast).1
  | moreTerms hop =>
    refine State.past_of_cons (by simpa using hs) ?_
    cases layer with
    | sum => rcases hop with hop | hop <;> rw [hop] <;> rfl
    | product => rfl
  | moreFactors hop =>
    refine State.past_of_cons (by simpa using hs) ?_
    cases layer with
    | sum => cases hr
    | product => rfl
  | _ => cases layer <;> cases hr

/-- Wherever some tokens come next, the reader for the part builds this tree from them. -/
def ReadsAlong (part : Part) (used : List Token) (d : Tree) : Prop :=
  ∀ n s more, NestsWithin n (used.map Token.kind) → State.rest s = used ++ more →
    (s.takeAll used).Past part → Reads n part s d (s.takeAll used)

namespace ReadsAlong

variable {layer : Layer}

theorem chain (hd : Derivation layer.operand.rule ts d) (he : Derivation layer.tailRule us e)
    (ihd : ReadsAlong layer.operand ts d) (ihe : ReadsAlong (.tail layer) us e) :
    ReadsAlong (.chain layer) (ts ++ us) (.node layer.rule [d, e] false) := by
  intro n s more hn hs hpast
  rw [List.map_append, NestsWithin.append_iff hd.count_parens] at hn
  rw [List.append_assoc] at hs
  rw [State.takeAll_append] at hpast ⊢
  have hrest : (s.takeAll ts).rest = us ++ more := State.rest_takeAll hs
  have hfirst := ihd n s _ hn.1 hs (State.past_operand he hrest hpast)
  exact .chain hfirst (ihe n _ _ hn.2 hrest (State.past_tail_iff.mpr hpast))

theorem tailEnd : ReadsAlong (.tail layer) [] (.node layer.tailRule [] false) := by
  intro n s more _ _ hpast
  exact .tailEnd (State.past_chain_iff.mp (State.past_tail_iff.mp hpast)).2

theorem tailMore (hop : layer.isOperator op.kind = true)
    (hd : Derivation layer.operand.rule ts d)
    (he : Derivation layer.tailRule us (.node layer.tailRule ds false))
    (ihd : ReadsAlong layer.operand ts d)
    (ihe : ReadsAlong (.tail layer) us (.node layer.tailRule ds false)) :
    ReadsAlong (.tail layer) (op :: (ts ++ us))
      (.node layer.tailRule (.leaf op :: d :: ds) false) := by
  intro n s more hn hs hpast
  obtain ⟨ho, hc⟩ := Token.Kind.ne_paren_of_isOperator (isOperator_of_layer hop)
  rw [List.map_cons, List.map_append, NestsWithin.cons_iff ho hc,
    NestsWithin.append_iff hd.count_parens] at hn
  rw [List.cons_append, List.append_assoc] at hs
  rw [State.takeAll_cons, State.takeAll_append] at hpast ⊢
  have htake : s.take.rest = ts ++ (us ++ more) := by simp [hs]
  have hrest : (s.take.takeAll ts).rest = us ++ more := State.rest_takeAll htake
  have hoperand := ihd n s.take _ hn.1 htake
    (State.past_operand he hrest (State.past_tail_iff.mp hpast))
  exact .tailMore hs hop hoperand (ihe n _ _ hn.2 hrest hpast)

theorem symbol (hk : t.kind.isSymbol = true) :
    ReadsAlong .factor [t] (.node .factor [.leaf t] false) := by
  intro n s more _ hs _
  exact .symbol hs hk

theorem group (ho : opening.kind = .openParen) (hc : closing.kind = .closeParen)
    (hd : Derivation .expression ts d) (ih : ReadsAlong (.chain .sum) ts d) :
    ReadsAlong .factor (opening :: (ts ++ [closing]))
      (.node .factor [.leaf opening, d, .leaf closing] false) := by
  intro n s more hn hs _
  simp only [List.map_cons, List.map_append, List.map_nil, ho, hc] at hn
  obtain ⟨levels, rfl, hin⟩ := (NestsWithin.group_iff hd.count_parens).mp hn
  have htake : s.take.rest = ts ++ closing :: more := by simp [hs]
  have hrest : (s.take.takeAll ts).rest = closing :: more := State.rest_takeAll htake
  have hinner := ih levels s.take _ hin htake (State.past_of_cons hrest (by rw [hc]; rfl))
  rw [State.takeAll_cons, State.takeAll_append]
  exact .group hs ho hinner (.closed hrest hc)

end ReadsAlong

end Parse

theorem Derivation.readsAlong (h : Derivation r used d) (hp : Part.ofRule? r = some part) :
    ReadsAlong part used d := by
  induction h generalizing part with
  | assigned | plain | assignment => cases hp
  | expression hd he ihd ihe | term hd he ihd ihe =>
    cases hp
    exact .chain hd he (ihd rfl) (ihe rfl)
  | noTerms | noFactors => cases hp; exact .tailEnd
  | moreTerms hop hd he ihd ihe | moreFactors hop hd he ihd ihe =>
    cases hp
    exact .tailMore (by rcases hop with hop | hop <;> rw [hop] <;> rfl) hd he (ihd rfl) (ihe rfl)
  | number ht | name ht => cases hp; exact .symbol (by rw [ht]; rfl)
  | group ho hc hd ih => cases hp; exact .group ho hc hd (ih rfl)

theorem State.assignmentNext_of_derives {s : State}
    (h : Derives .expression (s.rest.map Token.kind)) : s.assignmentNext = false := by
  rw [← Bool.not_eq_true, State.assignmentNext_iff]
  rintro ⟨target, equals, rest, hs, ht, he⟩
  rw [hs, List.map_cons, List.map_cons, ht, he, derives_expression_iff] at h
  cases h

theorem Derivation.readsStatement (h : Derivation .statement used d)
    (hn : NestsWithin n (used.map Token.kind)) :
    ReadsStatement n ⟨used, [], false⟩ d (State.takeAll ⟨used, [], false⟩ used) := by
  have hnil : (State.takeAll ⟨used, [], false⟩ used).rest = [] :=
    State.rest_takeAll (by simp)
  cases h with
  | assigned h =>
    cases h with
    | @assignment target equals value _ ht he hd =>
      simp only [List.map_cons, ht, he] at hn
      rw [NestsWithin.cons_iff (by simp) (by simp), NestsWithin.cons_iff (by simp) (by simp)] at hn
      exact .assigned rfl ht he
        (hd.readsAlong rfl n _ [] hn (by simp) (State.past_of_nil hnil _))
  | plain hd =>
    exact .plain (State.assignmentNext_of_derives hd.derives)
      (hd.readsAlong rfl n _ [] hn (by simp) (State.past_of_nil hnil _))

theorem nestsWithin_length (ks : List Token.Kind) : NestsWithin ks.length ks := by
  intro before hb
  have hcount := List.count_le_length (a := Token.Kind.openParen) (l := before)
  have hlen := hb.length_le
  omega

/-- Tokens have one derivation tree at most. -/
theorem Derivation.unique (h : Derivation .statement ts d) (h' : Derivation .statement ts e) :
    e = d := by
  -- under a limit that is large enough both are what the reader builds
  have hn : NestsWithin ts.length (ts.map Token.kind) := by
    simpa using nestsWithin_length (ts.map Token.kind)
  exact ((h.readsStatement hn).unique (h'.readsStatement hn)).1

namespace Parse

theorem State.Clean.finish_faults_iff (h : State.Clean s) :
    s.finish.faults = [] ↔ s.rest = [] := by
  cases hs : s.rest with
  | nil => simp [State.finish, hs, h.faults]
  | cons t rest => simp [State.finish, hs, h.faults_report]

end Parse

/-- A parse without faults is one of a derivable statement within the limit, and its tree is the
derivation tree with its parts in slot order. -/
theorem parse_faultless_iff : parse limit tokens = .ok ⟨tree, []⟩ ↔
    ∃ d, Derivation .statement tokens d ∧ NestsWithin limit (tokens.map Token.kind) ∧
      d.arranged = tree := by
  rw [parse_ok_iff]
  constructor
  · rintro ⟨d, s, hreads, htree, hf⟩
    rw [List.reverse_eq_nil_iff] at hf
    obtain ⟨used, hrest, hclean, hd, hn⟩ :=
      hreads.derivation ⟨rfl, rfl⟩ (List.suffix_nil.mp (hf ▸ s.faults_suffix_finish))
    rw [hclean.finish_faults_iff.mp hf, List.append_nil] at hrest
    cases hrest
    exact ⟨d, hd, hn, htree⟩
  · rintro ⟨d, hd, hn, htree⟩
    refine ⟨d, _, hd.readsStatement hn, htree, List.reverse_eq_nil_iff.mpr ?_⟩
    have hclean : (State.takeAll ⟨tokens, [], false⟩ tokens).Clean :=
      State.Clean.takeAll ⟨rfl, rfl⟩ tokens
    exact hclean.finish_faults_iff.mpr (State.rest_takeAll (by simp))

/-- A parse finds no fault exactly in a derivable statement within the limit. Its tree is then the
one derivation tree of the tokens, arranged in slots. -/
theorem parse_faultless_iff_derives (limit : Nat) (tokens : List Token) :
    ((∃ tree, parse limit tokens = .ok ⟨tree, []⟩) ↔
      Derives .statement (tokens.map Token.kind) ∧ NestsWithin limit (tokens.map Token.kind)) ∧
    ∀ tree, parse limit tokens = .ok ⟨tree, []⟩ →
      ∃ d, Derivation .statement tokens d ∧ (∀ e, Derivation .statement tokens e → e = d) ∧
        tree = d.arranged := by
  refine ⟨⟨?_, ?_⟩, ?_⟩
  · rintro ⟨tree, h⟩
    obtain ⟨d, hd, hn, -⟩ := parse_faultless_iff.mp h
    exact ⟨hd.derives, hn⟩
  · rintro ⟨h, hn⟩
    obtain ⟨d, hd⟩ := h.exists_derivation rfl
    exact ⟨_, parse_faultless_iff.mpr ⟨d, hd, hn, rfl⟩⟩
  · intro tree h
    obtain ⟨d, hd, -, rfl⟩ := parse_faultless_iff.mp h
    exact ⟨d, hd, fun e he => hd.unique he, rfl⟩

end FormulaCheck
