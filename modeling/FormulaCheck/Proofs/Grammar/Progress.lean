import FormulaCheck.Proofs.Grammar

/-!
# Reading kinds from left to right

How far some kinds have come towards a statement is known from two things: whether an operand or
an operator must come next, and how many groups are open. `Progress.after` reads one more kind and
gives up exactly if no statement goes on in that way.

* `derives_expression_iff`: an expression is what leads to an operator with no group open.
* `viable_plain_iff`, `viable_assignment_iff`: what may still become a statement is what has not
  been given up, without or after a name and an equals sign.
-/

namespace FormulaCheck

inductive Progress
  | operand (opened : Nat)
  | operator (opened : Nat)
deriving Repr, DecidableEq

namespace Progress

def after : Progress → Token.Kind → Option Progress
  | .operand n, .number | .operand n, .name => some (.operator n)
  | .operand n, .openParen => some (.operand (n + 1))
  | .operator n, .plus | .operator n, .minus | .operator n, .times | .operator n, .divide =>
    some (.operand n)
  | .operator (n + 1), .closeParen => some (.operator n)
  | _, _ => none

def afterAll (p : Progress) (ks : List Token.Kind) : Option Progress := ks.foldlM after p

theorem after_operand_eq_none (h : k.startsFactor = false) : (operand n).after k = none := by
  cases k <;> simp_all [after, Token.Kind.startsFactor]

theorem after_operator_eq_none (h : k.isOperator = false) (hclose : k = .closeParen → n = 0) :
    (operator n).after k = none := by
  cases n <;> cases k <;> simp_all [after, Token.Kind.isOperator]

def opened : Progress → Nat
  | .operand n | .operator n => n

@[simp] theorem afterAll_nil (p : Progress) : p.afterAll [] = some p := rfl

theorem afterAll_cons (p : Progress) (k : Token.Kind) (ks : List Token.Kind) :
    p.afterAll (k :: ks) = (p.after k).bind (·.afterAll ks) := rfl

theorem afterAll_append (p : Progress) (ks ls : List Token.Kind) :
    p.afterAll (ks ++ ls) = (p.afterAll ks).bind (·.afterAll ls) := by
  simp [afterAll, List.foldlM_append]

/-- Where a rule begins: in front of an operand, or of the operator of a tail rule. A statement
and an assignment begin nowhere, since their equals sign is outside of the expression. -/
def before? : Rule → Nat → Option Progress
  | .expression, n | .term, n | .factor, n => some (.operand n)
  | .expressionTail, n | .termTail, n => some (.operator n)
  | .statement, _ | .assignment, _ => none

-- ---------------------------------------------------------------------------
-- From derivations to progress
-- ---------------------------------------------------------------------------

theorem after_operator (hop : Token.Kind.isOperator op = true) :
    (operator n).after op = some (.operand n) := by
  cases op <;> simp_all [after, Token.Kind.isOperator]

end Progress

open Progress

theorem Derives.afterAll (h : Derives r ks) (hp : before? r n = some p) :
    p.afterAll ks = some (.operator n) := by
  induction h generalizing n p with
  | assigned | plain | assignment => cases hp
  | expression _ _ ihd ihe =>
    cases hp
    rw [afterAll_append, ihd rfl]
    exact ihe rfl
  | noTerms => cases hp; rfl
  | moreTerms hop _ _ ihd ihe =>
    cases hp
    rw [afterAll_cons, after_operator (by rcases hop with rfl | rfl <;> rfl), Option.bind_some,
      afterAll_append, ihd rfl]
    exact ihe rfl
  | term _ _ ihd ihe =>
    cases hp
    rw [afterAll_append, ihd rfl]
    exact ihe rfl
  | noFactors => cases hp; rfl
  | moreFactors hop _ _ ihd ihe =>
    cases hp
    rw [afterAll_cons, after_operator (by rcases hop with rfl | rfl <;> rfl), Option.bind_some,
      afterAll_append, ihd rfl]
    exact ihe rfl
  | number => cases hp; rfl
  | name => cases hp; rfl
  | group _ ih =>
    cases hp
    rw [afterAll_cons, after, Option.bind_some, afterAll_append, ih rfl]
    rfl

-- ---------------------------------------------------------------------------
-- Longer expressions from shorter ones
-- ---------------------------------------------------------------------------

namespace Derives

theorem termTail_snoc (h : Derives .termTail ls) (hop : op = .times ∨ op = .divide)
    (hf : Derives .factor fs) : Derives .termTail (ls ++ op :: fs) := by
  generalize hr : Rule.termTail = r at h
  induction h with
  | noFactors => simpa using moreFactors hop hf .noFactors
  | moreFactors hop' hd _ _ ih => simpa using moreFactors hop' hd (ih rfl)
  | _ => cases hr

theorem term_snoc (h : Derives .term ks) (hop : op = .times ∨ op = .divide)
    (hf : Derives .factor fs) : Derives .term (ks ++ op :: fs) := by
  cases h with
  | term hd he =>
    rw [List.append_assoc]
    exact .term hd (he.termTail_snoc hop hf)

theorem expression_of_term (h : Derives .term ks) : Derives .expression ks := by
  simpa using expression h .noTerms

theorem term_of_factor (h : Derives .factor ks) : Derives .term ks := by
  simpa using term h .noFactors

theorem expression_cons (ht : Derives .term ts) (hop : op = .plus ∨ op = .minus)
    (h : Derives .expression ks) : Derives .expression (ts ++ op :: ks) := by
  cases h with
  | expression hd he => exact .expression ht (.moreTerms hop hd he)

/-- Any expression may stand in place of the last term of an expression. -/
theorem last_term (h : Derives .expression ks) : ∃ before last, ks = before ++ last ∧
    Derives .term last ∧ ∀ es, Derives .expression es → Derives .expression (before ++ es) := by
  cases h with
  | @expression first more hd he =>
    generalize hr : Rule.expressionTail = r at he
    induction he generalizing first with
    | noTerms => exact ⟨[], first, by simp, hd, fun es hes => hes⟩
    | @moreTerms op second more hop hs _ _ ih =>
      obtain ⟨before, last, heq, hlast, hany⟩ := ih hs rfl
      refine ⟨first ++ op :: before, last, by simp [heq], hlast, fun es hes => ?_⟩
      simpa using expression_cons hd hop (hany es hes)
    | _ => cases hr

end Derives

/-- Kinds that become an expression with any factor after them. -/
def AwaitsOperand (ks : List Token.Kind) : Prop :=
  ∀ fs, Derives .factor fs → Derives .expression (ks ++ fs)

theorem AwaitsOperand.nil : AwaitsOperand [] := fun _ hf => hf.term_of_factor.expression_of_term

theorem Derives.awaitsOperand (h : Derives .expression ks)
    (hop : Token.Kind.isOperator op = true) : AwaitsOperand (ks ++ [op]) := by
  intro fs hf
  obtain ⟨before, last, rfl, hlast, hany⟩ := h.last_term
  rw [List.append_assoc, List.append_assoc, List.singleton_append]
  apply hany
  cases op with
  | times | divide => exact expression_of_term (hlast.term_snoc (by simp) hf)
  | plus | minus => exact expression_cons hlast (by simp) hf.term_of_factor.expression_of_term
  | _ => cases hop

-- ---------------------------------------------------------------------------
-- From progress to derivations
-- ---------------------------------------------------------------------------

/-- Some kinds inside the groups that are open around them, the innermost first, each given by what
its parenthesis follows. -/
def enclose : List (List Token.Kind) → List Token.Kind → List Token.Kind
  | [], ks => ks
  | outer :: outers, ks => enclose outers (outer ++ .openParen :: ks)

namespace Progress

variable {p q : Progress}

/-- What the kinds of the innermost open group are at some progress. -/
def Reached : Progress → List Token.Kind → Prop
  | .operand _, ks => AwaitsOperand ks
  | .operator _, ks => Derives .expression ks

theorem after_cases (h : after p k = some q) :
    (∃ n, p = .operand n ∧ (k = .number ∨ k = .name) ∧ q = .operator n) ∨
    (∃ n, p = .operand n ∧ k = .openParen ∧ q = .operand (n + 1)) ∨
    (∃ n, p = .operator n ∧ k.isOperator = true ∧ q = .operand n) ∨
    ∃ n, p = .operator (n + 1) ∧ k = .closeParen ∧ q = .operator n := by
  unfold after at h
  split at h <;> simp_all [Token.Kind.isOperator]

/-- Kinds that lead to an operator with no group open complete all open groups. -/
theorem derives_enclose (h : p.afterAll ks = some (.operator 0))
    (hopened : p.opened = outers.length) (houters : ∀ outer ∈ outers, AwaitsOperand outer)
    (hls : p.Reached ls) : Derives .expression (enclose outers (ls ++ ks)) := by
  -- `ls` is what the innermost group holds so far, and `outers` what the groups around it do
  induction ks generalizing p outers ls with
  | nil =>
    cases h
    obtain rfl := List.length_eq_zero_iff.mp hopened.symm
    simpa [enclose, Reached] using hls
  | cons k ks ih =>
    obtain ⟨q, hq, hks⟩ := Option.bind_eq_some_iff.mp h
    rcases after_cases hq with ⟨n, rfl, hk, rfl⟩ | ⟨n, rfl, rfl, rfl⟩ | ⟨n, rfl, hk, rfl⟩ |
      ⟨n, rfl, rfl, rfl⟩
    · have hfactor : Derives .factor [k] := by
        rcases hk with rfl | rfl
        · exact .number
        · exact .name
      simpa using ih hks hopened houters (hls _ hfactor)
    · have houters' : ∀ outer ∈ ls :: outers, AwaitsOperand outer := by
        simpa using ⟨hls, houters⟩
      have hinner : Derives .expression (enclose (ls :: outers) ([] ++ ks)) :=
        ih hks (by simpa [opened] using hopened) houters' AwaitsOperand.nil
      simpa [enclose] using hinner
    · simpa using ih hks hopened houters (Derives.awaitsOperand hls hk)
    · cases outers with
      | nil => simp [opened] at hopened
      | cons outer outers =>
        have hgroup := houters outer (by simp) _ (.group hls)
        simpa [enclose] using
          ih hks (by simpa [opened] using hopened) (fun o ho => houters o (by simp [ho])) hgroup

end Progress

theorem derives_expression_iff :
    Derives .expression ks ↔ (Progress.operand 0).afterAll ks = some (.operator 0) := by
  constructor
  · intro h
    exact h.afterAll rfl
  · intro h
    have hall : Derives .expression (enclose [] ([] ++ ks)) :=
      derives_enclose h rfl (by simp) AwaitsOperand.nil
    exact hall

theorem Progress.exists_completion (p : Progress) :
    ∃ more, p.afterAll more = some (.operator 0) := by
  have hclose : ∀ n, (operator n).afterAll (.replicate n .closeParen) = some (.operator 0) := by
    intro n
    induction n with
    | zero => rfl
    | succ n ih => exact ih
  cases p with
  | operator n => exact ⟨_, hclose n⟩
  | operand n => exact ⟨.number :: .replicate n .closeParen, hclose n⟩

theorem isSome_of_derives_append (h : Derives .expression (ks ++ more)) :
    ((Progress.operand 0).afterAll ks).isSome = true := by
  rw [derives_expression_iff, Progress.afterAll_append] at h
  obtain ⟨p, hp, -⟩ := Option.bind_eq_some_iff.mp h
  simp [hp]

theorem exists_derives_append (h : ((Progress.operand 0).afterAll ks).isSome = true) :
    ∃ more, Derives .expression (ks ++ more) := by
  obtain ⟨p, hp⟩ := Option.isSome_iff_exists.mp h
  obtain ⟨more, hm⟩ := p.exists_completion
  refine ⟨more, derives_expression_iff.mpr ?_⟩
  simp [Progress.afterAll_append, hp, hm]

theorem derives_assignment_iff : Derives .statement (.name :: .equals :: ks) ↔
    Derives .expression ks := by
  constructor
  · intro h
    generalize hall : Token.Kind.name :: .equals :: ks = all at h
    cases h with
    | plain h => cases hall; rw [derives_expression_iff] at h; cases h
    | assigned h => cases h; cases hall; assumption
  · exact fun h => .assigned (.assignment h)

theorem derives_plain_iff (h : ¬ [.name, .equals] <+: ks) :
    Derives .statement ks ↔ Derives .expression ks := by
  constructor
  · intro hks
    cases hks with
    | plain hks => exact hks
    | assigned hks => cases hks; exact absurd (List.prefix_append [_, _] _) h
  · exact .plain

theorem viable_assignment_iff : Viable (.name :: .equals :: ks) ↔
    ((Progress.operand 0).afterAll ks).isSome = true := by
  constructor
  · rintro ⟨more, h⟩
    exact isSome_of_derives_append (derives_assignment_iff.mp h)
  · intro h
    obtain ⟨more, hm⟩ := exists_derives_append h
    exact ⟨more, derives_assignment_iff.mpr hm⟩

theorem viable_plain_iff (h : ¬ [.name, .equals] <+: ks) : Viable ks ↔
    ((Progress.operand 0).afterAll ks).isSome = true := by
  constructor
  · rintro ⟨more, hm⟩
    cases hm with
    | plain hm => exact isSome_of_derives_append hm
    | assigned hm =>
      -- the equals sign comes after `ks`, which is a name at most
      generalize hall : ks ++ more = all at hm
      cases hm
      rcases ks with _ | ⟨k, _ | ⟨k', ks⟩⟩
      · rfl
      · cases hall; rfl
      · cases hall; exact absurd (List.prefix_append [_, _] _) h
  · intro hks
    obtain ⟨more, hm⟩ := exists_derives_append hks
    exact ⟨more, .plain hm⟩

end FormulaCheck
