import FormulaCheck.Proofs.Drawings.Shown

/-!
# What an outline tells of the tokens

An outline does not tell where the operators of the second kind stand in a repetition. `Reordered`
relates the tokens of two texts that differ in this at most, so that they have the same tokens at
the same places wherever there is no operator (`ReorderedStatement.forall₂`). Two statements have
one full outline exactly if their tokens are related in this way (`outline_eq_iff_reordered`): from
equal outlines to the tokens by induction on a derivation (`Derivation.told`), and back by building
a derivation of each side (`Reordered.exists_shownAlike`).
-/

namespace FormulaCheck

open Outline

namespace Parse

/-- The operators of two repetitions: the first ones are of one kind, and those of each kind are the
same. -/
structure SameOperators (ops ops' : List Token) : Prop where
  first : ops.head?.map Token.kind = ops'.head?.map Token.kind
  ofKind : ∀ k, (ops.filter (·.kind == k)).map Token.lexeme =
    (ops'.filter (·.kind == k)).map Token.lexeme

/-- `Reordered part ops ops' ts us`: the tokens of two texts of the part are the same but for the
order of operators in repetitions. The operators of a tail are put aside as `ops` and `ops'`, to be
compared where its chain is. -/
inductive Reordered : Part → List Token → List Token → List Token → List Token → Prop
  | symbol : t.kind.isSymbol = true → t.lexeme = u.lexeme → Reordered .factor [] [] [t] [u]
  | group : opening.kind = .openParen → closing.kind = .closeParen →
      opening.lexeme = opening'.lexeme → closing.lexeme = closing'.lexeme →
      Reordered (.chain .sum) [] [] ts us →
      Reordered .factor [] [] (opening :: (ts ++ [closing])) (opening' :: (us ++ [closing']))
  | chain : Reordered layer.operand [] [] ts us → Reordered (.tail layer) ops ops' ts' us' →
      SameOperators ops ops' → Reordered (.chain layer) [] [] (ts ++ ts') (us ++ us')
  | tailEnd : Reordered (.tail layer) [] [] [] []
  | tailMore : layer.isOperator op.kind = true → layer.isOperator op'.kind = true →
      Reordered layer.operand [] [] ts us → Reordered (.tail layer) ops ops' ts' us' →
      Reordered (.tail layer) (op :: ops) (op' :: ops') (op :: (ts ++ ts')) (op' :: (us ++ us'))

inductive ReorderedStatement : List Token → List Token → Prop
  | assigned : target.kind = .name → equals.kind = .equals → target.lexeme = target'.lexeme →
      equals.lexeme = equals'.lexeme → Reordered (.chain .sum) [] [] ts us →
      ReorderedStatement (target :: equals :: ts) (target' :: equals' :: us)
  | plain : Reordered (.chain .sum) [] [] ts us → ReorderedStatement ts us

def SameOrOperators (t u : Token) : Prop :=
  t.lexeme = u.lexeme ∨ t.kind.isOperator = true ∧ u.kind.isOperator = true

theorem Reordered.forall₂ (h : Reordered part ops ops' ts us) :
    List.Forall₂ SameOrOperators ts us := by
  induction h with
  | symbol _ hlexeme => exact .cons (.inl hlexeme) .nil
  | group _ _ hopening hclosing _ ih =>
    exact .cons (.inl hopening) (List.rel_append ih (.cons (.inl hclosing) .nil))
  | chain _ _ _ ihOperand ihTail => exact List.rel_append ihOperand ihTail
  | tailEnd => exact .nil
  | tailMore hop hop' _ _ ihOperand ihTail =>
    exact .cons (.inr ⟨isOperator_of_layer hop, isOperator_of_layer hop'⟩)
      (List.rel_append ihOperand ihTail)

theorem ReorderedStatement.forall₂ (h : ReorderedStatement ts us) :
    List.Forall₂ SameOrOperators ts us := by
  cases h with
  | assigned _ _ htarget hequals hvalue =>
    exact .cons (.inl htarget) (.cons (.inl hequals) hvalue.forall₂)
  | plain hvalue => exact hvalue.forall₂

end Parse

open Parse

-- ---------------------------------------------------------------------------
-- From what is shown to the tokens
-- ---------------------------------------------------------------------------

namespace Parse

namespace Part

/-- The operators that a part puts aside. -/
def operators : Part → Tree → List Token
  | .tail _, d => Forest.tokens d.children
  | .factor, _ | .chain _, _ => []

/-- What an outline shows of a part without the operators that it puts aside. -/
def shown : Part → Tree → List Item
  | .tail layer, d => (Forest.inSlot d.children (.rule layer.operand.rule)).flatMap Tree.shown
  | .factor, d | .chain _, d => d.shown

theorem operators_operand (layer : Layer) (d : Tree) : layer.operand.operators d = [] := by
  cases layer <;> rfl

theorem shown_operand (layer : Layer) (d : Tree) : layer.operand.shown d = d.shown := by
  cases layer <;> rfl

end Part

end Parse

namespace Derivation

variable {layer : Layer}

theorem isVisible_of_mem_arrange
    (h : Derivation layer.tailRule ts (.node layer.tailRule ds false)) :
    ∀ t ∈ Forest.arrange ds, t.slot.isVisible = true := fun t ht =>
  h.isVisible_of_mem_tail t ((Forest.arrange_perm ds).mem_iff.mp ht)

theorem shown_inSlot_eq (h : Derivation layer.tailRule ts (.node layer.tailRule ds false))
    (h' : Derivation layer.tailRule us (.node layer.tailRule es false))
    (heq : (Forest.arrange ds).flatMap Tree.shown = (Forest.arrange es).flatMap Tree.shown)
    (s : Slot) :
    (Forest.inSlot ds s).flatMap Tree.shown = (Forest.inSlot es s).flatMap Tree.shown := by
  rw [← Forest.inSlot_arrange, ← Forest.filter_shown h.isVisible_of_mem_arrange, heq,
    Forest.filter_shown h'.isVisible_of_mem_arrange, Forest.inSlot_arrange]

theorem head?_tokens_eq (h : Derivation layer.tailRule ts (.node layer.tailRule ds false))
    (h' : Derivation layer.tailRule us (.node layer.tailRule es false))
    (heq : (Forest.arrange ds).flatMap Tree.shown = (Forest.arrange es).flatMap Tree.shown) :
    (Forest.tokens ds).head?.map Token.kind = (Forest.tokens es).head?.map Token.kind := by
  have hhead := congrArg (fun is : List Item => is.head?.map Item.slot) heq
  simp only [Forest.head?_shown h.isVisible_of_mem_arrange,
    Forest.head?_shown h'.isVisible_of_mem_arrange, Forest.head?_arrange, h.head?_tail,
    h'.head?_tail] at hhead
  exact Option.map_injective (fun _ _ => Slot.token.inj) hhead

theorem shown_tail_eq_iff (h : Derivation layer.tailRule ts (.node layer.tailRule ds false))
    (h' : Derivation layer.tailRule us (.node layer.tailRule es false)) :
    (Tree.node layer.tailRule ds false).shown = (Tree.node layer.tailRule es false).shown ↔
      SameOperators (Forest.tokens ds) (Forest.tokens es) ∧
        (Forest.inSlot ds (.rule layer.operand.rule)).flatMap Tree.shown =
          (Forest.inSlot es (.rule layer.operand.rule)).flatMap Tree.shown := by
  rw [shown_tail, shown_tail]
  constructor
  · intro heq
    have hslot := h.shown_inSlot_eq h' heq
    exact ⟨⟨h.head?_tokens_eq h' heq, fun k => Forest.shown_inSlot_token_eq_iff.mp (hslot _)⟩,
      hslot _⟩
  · rintro ⟨hops, hoperands⟩
    have htokens : ∀ k, (Forest.inSlot ds (.token k)).flatMap Tree.shown =
        (Forest.inSlot es (.token k)).flatMap Tree.shown := fun k =>
      Forest.shown_inSlot_token_eq_iff.mpr (hops.ofKind k)
    have hhead : ds.head?.map Tree.slot = es.head?.map Tree.slot := by
      rw [h.head?_tail, h'.head?_tail, hops.first]
    rcases h.tail_cases with ⟨-, rfl⟩ | ⟨op, _, _, _, _, hop, _, hds, _, _⟩
    · cases es with
      | nil => rfl
      | cons => cases hhead
    · obtain ⟨k', hk, hkinds⟩ := Layer.exists_other hop
      have hfirst : ds.head?.map Tree.slot = some (.token op.kind) := by rw [hds]; rfl
      rw [h.arrange_tail hfirst hk hkinds, h'.arrange_tail (hhead ▸ hfirst) hk hkinds]
      simp only [List.flatMap_cons, List.flatMap_nil, List.flatMap_append, htokens, hoperands]

theorem shown_tailMore (hd : Derivation layer.operand.rule ts d) (op : Token) (ds : Forest) :
    (Part.tail layer).shown (.node layer.tailRule (.leaf op :: d :: ds) false) =
      d.shown ++ (Part.tail layer).shown (.node layer.tailRule ds false) := by
  simp [Part.shown, Tree.children, Forest.inSlot, hd.slot_eq]

theorem operators_tailMore (hd : Derivation layer.operand.rule ts d) (op : Token) (ds : Forest) :
    (Part.tail layer).operators (.node layer.tailRule (.leaf op :: d :: ds) false) =
      op :: (Part.tail layer).operators (.node layer.tailRule ds false) := by
  obtain ⟨parts, rfl⟩ := hd.eq_node
  rfl

end Derivation

namespace Parse

/-- Any text of the part of which an outline shows the same is a reordering of this one. -/
def Told (part : Part) (ts : List Token) (d : Tree) : Prop :=
  ∀ us e, Derivation part.rule us e → part.shown d = part.shown e →
    Reordered part (part.operators d) (part.operators e) ts us

namespace Told

variable {layer : Layer}

theorem operand (h : Told layer.operand ts d) (he : Derivation layer.operand.rule us e)
    (hshown : d.shown = e.shown) : Reordered layer.operand [] [] ts us := by
  have hreordered := h us e he (by rwa [Part.shown_operand, Part.shown_operand])
  rwa [Part.operators_operand, Part.operators_operand] at hreordered

theorem symbol (hk : t.kind.isSymbol = true) :
    Told .factor [t] (.node .factor [.leaf t] false) := by
  intro us e he hshown
  rcases he.factor_cases with ⟨u, -, rfl, rfl⟩ | ⟨_, _, _, _, ho, hc, rfl, rfl, hinner⟩
  · have htoken : t.unplaced = u.unplaced := by
      simpa [Part.shown, Derivation.shown_symbol] using hshown
    exact .symbol hk (Token.unplaced_eq_iff.mp htoken)
  · simp [Part.shown, Derivation.shown_symbol, Derivation.shown_group ho hc hinner] at hshown

theorem group (ho : opening.kind = .openParen) (hc : closing.kind = .closeParen)
    (hd : Derivation .expression ts d) (ih : Told (.chain .sum) ts d) :
    Told .factor (opening :: (ts ++ [closing]))
      (.node .factor [.leaf opening, d, .leaf closing] false) := by
  intro us e he hshown
  rcases he.factor_cases with ⟨u, -, rfl, rfl⟩ | ⟨_, _, _, _, ho', hc', rfl, rfl, hinner⟩
  · simp [Part.shown, Derivation.shown_symbol, Derivation.shown_group ho hc hd] at hshown
  · rw [Part.shown, Part.shown, Derivation.shown_group ho hc hd,
      Derivation.shown_group ho' hc' hinner] at hshown
    obtain ⟨hopening, hmore⟩ := List.cons.inj (Item.mk.inj (List.cons.inj hshown).1).2
    obtain ⟨hcontent, hclosing⟩ := List.append_inj' hmore rfl
    simp only [Item.mk.injEq, Entry.token.injEq, List.cons.injEq, and_true,
      Token.unplaced_eq_iff] at hopening hclosing
    exact .group ho hc hopening hclosing (ih _ _ hinner hcontent)

theorem tailEnd : Told (.tail layer) [] (.node layer.tailRule [] false) := by
  rintro us e (he : Derivation layer.tailRule us e) hshown
  obtain ⟨es, rfl⟩ := he.eq_node
  rcases he.tail_cases with ⟨rfl, rfl⟩ | ⟨op, _, _, d, _, hop, rfl, rfl, hd, -⟩
  · exact .tailEnd
  · obtain ⟨i, hi, -⟩ := hd.exists_shown
    rw [Derivation.shown_tailMore hd, hi] at hshown
    cases hshown

theorem tailMore (hop : layer.isOperator op.kind = true)
    (hd : Derivation layer.operand.rule ts d) (ihd : Told layer.operand ts d)
    (ihe : Told (.tail layer) us (.node layer.tailRule ds false)) :
    Told (.tail layer) (op :: (ts ++ us))
      (.node layer.tailRule (.leaf op :: d :: ds) false) := by
  rintro vs e (he : Derivation layer.tailRule vs e) hshown
  obtain ⟨es, rfl⟩ := he.eq_node
  obtain ⟨i, hi, -⟩ := hd.exists_shown
  rcases he.tail_cases with ⟨rfl, rfl⟩ | ⟨op', _, _, d', _, hop', rfl, rfl, hd', he'⟩
  · rw [Derivation.shown_tailMore hd, hi] at hshown
    cases hshown
  · obtain ⟨j, hj, -⟩ := hd'.exists_shown
    rw [Derivation.shown_tailMore hd, Derivation.shown_tailMore hd', hi, hj] at hshown
    obtain ⟨rfl, hmore⟩ := List.cons.inj hshown
    rw [Derivation.operators_tailMore hd, Derivation.operators_tailMore hd']
    exact .tailMore hop hop' (ihd.operand hd' (by rw [hi, hj])) (ihe _ _ he' hmore)

theorem chain (hd : Derivation layer.operand.rule ts d)
    (he : Derivation layer.tailRule us (.node layer.tailRule es false))
    (ihd : Told layer.operand ts d) (ihe : Told (.tail layer) us (.node layer.tailRule es false)) :
    Told (.chain layer) (ts ++ us) (.node layer.rule [d, .node layer.tailRule es false] false) := by
  intro vs e h hshown
  obtain ⟨_, _, d', es', rfl, rfl, hd', he'⟩ := h.chain_cases
  obtain ⟨i, hi, -⟩ := hd.exists_shown
  obtain ⟨j, hj, -⟩ := hd'.exists_shown
  rw [Part.shown, Part.shown, Derivation.shown_chain hd, Derivation.shown_chain hd', hi,
    hj] at hshown
  obtain ⟨rfl, hmore⟩ := List.cons.inj (Item.mk.inj (List.cons.inj hshown).1).2
  obtain ⟨hops, hoperands⟩ := (Derivation.shown_tail_eq_iff he he').mp hmore
  exact .chain (ihd.operand hd' (by rw [hi, hj])) (ihe _ _ he' hoperands) hops

end Told

end Parse

theorem Derivation.told (h : Derivation r ts d) (hp : Part.ofRule? r = some part) :
    Told part ts d := by
  induction h generalizing part with
  | assigned | plain | assignment => cases hp
  | expression hd he ihd ihe | term hd he ihd ihe =>
    cases hp
    obtain ⟨es, rfl⟩ := he.eq_node
    exact .chain hd he (ihd rfl) (ihe rfl)
  | noTerms | noFactors => cases hp; exact .tailEnd
  | moreTerms hop hd he ihd ihe | moreFactors hop hd he ihd ihe =>
    cases hp
    exact .tailMore (by rcases hop with hop | hop <;> rw [hop] <;> rfl) hd (ihd rfl) (ihe rfl)
  | number ht | name ht => cases hp; exact .symbol (by rw [ht]; rfl)
  | group ho hc hd ih => cases hp; exact .group ho hc hd (ih rfl)

-- ---------------------------------------------------------------------------
-- From the tokens to what is shown
-- ---------------------------------------------------------------------------

namespace Parse

structure ShownAlike (part : Part) (ops ops' ts us : List Token) (d e : Tree) : Prop where
  left : Derivation part.rule ts d
  right : Derivation part.rule us e
  operators : part.operators d = ops ∧ part.operators e = ops'
  shown : part.shown d = part.shown e

theorem ShownAlike.chain (hd : ShownAlike layer.operand [] [] ts us d e)
    (htail : ShownAlike (.tail layer) ops ops' ts' us' (.node layer.tailRule ds false)
      (.node layer.tailRule es false)) (hops : SameOperators ops ops') :
    ShownAlike (.chain layer) [] [] (ts ++ ts') (us ++ us')
      (.node layer.rule [d, .node layer.tailRule ds false] false)
      (.node layer.rule [e, .node layer.tailRule es false] false) where
  left := hd.left.chain htail.left
  right := hd.right.chain htail.right
  operators := ⟨rfl, rfl⟩
  shown := by
    have hfirst : d.shown = e.shown := by simpa only [Part.shown_operand] using hd.shown
    obtain ⟨rfl, rfl⟩ := htail.operators
    have hmore := (Derivation.shown_tail_eq_iff htail.left htail.right).mpr ⟨hops, htail.shown⟩
    rw [Part.shown, Part.shown, Derivation.shown_chain hd.left, Derivation.shown_chain hd.right,
      hfirst, hmore]

theorem ShownAlike.tailMore (hop : layer.isOperator op.kind = true)
    (hop' : layer.isOperator op'.kind = true) (hd : ShownAlike layer.operand [] [] ts us d e)
    (htail : ShownAlike (.tail layer) ops ops' ts' us' (.node layer.tailRule ds false)
      (.node layer.tailRule es false)) :
    ShownAlike (.tail layer) (op :: ops) (op' :: ops') (op :: (ts ++ ts')) (op' :: (us ++ us'))
      (.node layer.tailRule (.leaf op :: d :: ds) false)
      (.node layer.tailRule (.leaf op' :: e :: es) false) where
  left := hd.left.tailMore hop htail.left
  right := hd.right.tailMore hop' htail.right
  operators := by
    rw [Derivation.operators_tailMore hd.left, Derivation.operators_tailMore hd.right,
      htail.operators.1, htail.operators.2]
    exact ⟨rfl, rfl⟩
  shown := by
    have hfirst : d.shown = e.shown := by simpa only [Part.shown_operand] using hd.shown
    rw [Derivation.shown_tailMore hd.left, Derivation.shown_tailMore hd.right, hfirst, htail.shown]

theorem ShownAlike.group (ho : opening.kind = .openParen) (hc : closing.kind = .closeParen)
    (hopening : opening.lexeme = opening'.lexeme) (hclosing : closing.lexeme = closing'.lexeme)
    (hd : ShownAlike (.chain .sum) [] [] ts us d e) :
    ShownAlike .factor [] [] (opening :: (ts ++ [closing])) (opening' :: (us ++ [closing']))
      (.node .factor [.leaf opening, d, .leaf closing] false)
      (.node .factor [.leaf opening', e, .leaf closing'] false) where
  left := .group ho hc hd.left
  right := .group ((Token.kind_eq_of_lexeme hopening).trans ho)
    ((Token.kind_eq_of_lexeme hclosing).trans hc) hd.right
  operators := ⟨rfl, rfl⟩
  shown := by
    have hcontent : d.shown = e.shown := hd.shown
    have ho' := (Token.kind_eq_of_lexeme hopening).trans ho
    have hc' := (Token.kind_eq_of_lexeme hclosing).trans hc
    rw [Part.shown, Part.shown, Derivation.shown_group ho hc hd.left,
      Derivation.shown_group ho' hc' hd.right, hcontent, Token.unplaced_eq_iff.mpr hopening,
      Token.unplaced_eq_iff.mpr hclosing]

theorem ShownAlike.symbol (hk : t.kind.isSymbol = true) (h : t.lexeme = u.lexeme) :
    ShownAlike .factor [] [] [t] [u] (.node .factor [.leaf t] false)
      (.node .factor [.leaf u] false) where
  left := .symbol hk
  right := .symbol (by rw [Token.kind_eq_of_lexeme h, hk])
  operators := ⟨rfl, rfl⟩
  shown := by simp [Part.shown, Derivation.shown_symbol, Token.unplaced_eq_iff.mpr h]

theorem ShownAlike.exists_tails (h : ShownAlike (.tail layer) ops ops' ts us d e) :
    ∃ ds es, d = .node layer.tailRule ds false ∧ e = .node layer.tailRule es false := by
  obtain ⟨ds, rfl⟩ := h.left.eq_node
  obtain ⟨es, rfl⟩ := h.right.eq_node
  exact ⟨ds, es, rfl, rfl⟩

theorem Reordered.exists_shownAlike (h : Reordered part ops ops' ts us) :
    ∃ d e, ShownAlike part ops ops' ts us d e := by
  induction h with
  | symbol hk hlexeme => exact ⟨_, _, .symbol hk hlexeme⟩
  | group ho hc hopening hclosing _ ih =>
    obtain ⟨d, e, hcontent⟩ := ih
    exact ⟨_, _, hcontent.group ho hc hopening hclosing⟩
  | chain _ _ hops ihOperand ihTail =>
    obtain ⟨d, e, hfirst⟩ := ihOperand
    obtain ⟨_, _, htail⟩ := ihTail
    obtain ⟨ds, es, rfl, rfl⟩ := htail.exists_tails
    exact ⟨_, _, hfirst.chain htail hops⟩
  | tailEnd => exact ⟨_, _, .tailEnd _, .tailEnd _, ⟨rfl, rfl⟩, rfl⟩
  | tailMore hop hop' _ _ ihOperand ihTail =>
    obtain ⟨d, e, hfirst⟩ := ihOperand
    obtain ⟨_, _, htail⟩ := ihTail
    obtain ⟨ds, es, rfl, rfl⟩ := htail.exists_tails
    exact ⟨_, _, hfirst.tailMore hop hop' htail⟩

theorem ReorderedStatement.exists_derivations (h : ReorderedStatement ts us) :
    ∃ d e, Derivation .statement ts d ∧ Derivation .statement us e ∧ d.shown = e.shown := by
  cases h with
  | assigned ht he htarget hequals hvalue =>
    obtain ⟨d, e, hd, he', -, hshown⟩ := hvalue.exists_shownAlike
    have ht' := (Token.kind_eq_of_lexeme htarget).trans ht
    have heq' := (Token.kind_eq_of_lexeme hequals).trans he
    refine ⟨_, _, .assigned (.assignment ht he hd), .assigned (.assignment ht' heq' he'), ?_⟩
    have hshown : d.shown = e.shown := hshown
    rw [Derivation.shown_statement, Derivation.shown_statement,
      Derivation.shown_assignment ht he hd, Derivation.shown_assignment ht' heq' he', hshown,
      Token.unplaced_eq_iff.mpr htarget, Token.unplaced_eq_iff.mpr hequals]
  | plain hvalue =>
    obtain ⟨d, e, hd, he, -, hshown⟩ := hvalue.exists_shownAlike
    refine ⟨_, _, .plain hd, .plain he, ?_⟩
    rw [Derivation.shown_statement, Derivation.shown_statement]
    exact hshown

end Parse

/-- Outlines of two statements show the same exactly if the tokens of the one are those of the other
but for the order of operators in repetitions. -/
theorem Derivation.shown_eq_iff (hd : Derivation .statement ts d)
    (he : Derivation .statement us e) : d.shown = e.shown ↔ ReorderedStatement ts us := by
  constructor
  · intro hshown
    cases hd with
    | assigned hd =>
      cases hd with
      | assignment ht hq hvalue =>
        cases he with
        | assigned he =>
          cases he with
          | assignment ht' hq' hvalue' =>
            rw [shown_statement, shown_statement, shown_assignment ht hq hvalue,
              shown_assignment ht' hq' hvalue'] at hshown
            simp only [List.cons.injEq, Item.mk.injEq, Entry.token.injEq, Token.unplaced_eq_iff,
              and_true, true_and] at hshown
            obtain ⟨htarget, hequals, hshown⟩ := hshown
            exact .assigned ht hq htarget hequals (hvalue.told rfl _ _ hvalue' hshown)
        | plain he =>
          rw [shown_statement, shown_statement] at hshown
          exact absurd hshown (shown_assignment_ne ht hq hvalue he)
    | plain hd =>
      cases he with
      | assigned he =>
        cases he with
        | assignment ht' hq' hvalue' =>
          rw [shown_statement, shown_statement] at hshown
          exact absurd hshown.symm (shown_assignment_ne ht' hq' hvalue' hd)
      | plain he =>
        rw [shown_statement, shown_statement] at hshown
        exact .plain (hd.told rfl _ _ he hshown)
  · intro h
    obtain ⟨d', e', hd', he', hshown⟩ := h.exists_derivations
    rwa [hd'.unique hd, he'.unique he]

/-- Two accepted lines have one full outline exactly if their tokens have the same kinds and texts
but for the order of the operators in repetitions: the first operator of each repetition and the
operators of each kind in it are the same. -/
theorem outline_eq_iff_reordered (h : (analyzeLine line number).accepted = true)
    (h' : (analyzeLine line' number').accepted = true) :
    (analyzeLine line number).outline .full = (analyzeLine line' number').outline .full ↔
      ReorderedStatement (analyzeLine line number).tokens (analyzeLine line' number').tokens := by
  obtain ⟨d, hd, htree⟩ := exists_derivation_of_accepted h
  obtain ⟨e, he, htree'⟩ := exists_derivation_of_accepted h'
  rw [LineAnalysis.outline, LineAnalysis.outline, htree, htree', ← hd.shown_eq_iff he]
  exact Tree.outline_full_eq_iff

/-- The sum in these lines has a minus and a plus in either order, between the same terms. -/
theorem reordered_minus_plus : (analyzeLine "(a/b)+c-d+e" 1).accepted = true ∧
    (analyzeLine " (a / b) + c + d - e" 2).accepted = true ∧
    (analyzeLine "(a/b)+c-d+e" 1).outline .full =
      (analyzeLine " (a / b) + c + d - e" 2).outline .full ∧
    ReorderedStatement (analyzeLine "(a/b)+c-d+e" 1).tokens
      (analyzeLine " (a / b) + c + d - e" 2).tokens := by
  have h : (analyzeLine "(a/b)+c-d+e" 1).accepted = true := by decide +kernel
  have h' : (analyzeLine " (a / b) + c + d - e" 2).accepted = true := by decide +kernel
  have houtline : (analyzeLine "(a/b)+c-d+e" 1).outline .full =
      (analyzeLine " (a / b) + c + d - e" 2).outline .full := by decide +kernel
  exact ⟨h, h', houtline, (outline_eq_iff_reordered h h').mp houtline⟩

/-- Two lines with one outline and different tokens: the last two operators have changed places. -/
theorem outline_eq_reordered : (analyzeLine "a+b-c+d" 1).accepted = true ∧
    (analyzeLine "a+b+c-d" 1).accepted = true ∧
    (analyzeLine "a+b-c+d" 1).outline .full = (analyzeLine "a+b+c-d" 1).outline .full ∧
    (analyzeLine "a+b-c+d" 1).tokens.map Token.lexeme ≠
      (analyzeLine "a+b+c-d" 1).tokens.map Token.lexeme := by
  decide +kernel

end FormulaCheck
