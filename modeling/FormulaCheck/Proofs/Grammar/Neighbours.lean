import FormulaCheck.Proofs.Grammar.Progress
import Mathlib.Data.List.Chain

/-!
# Kinds side by side

In a statement a factor begins exactly where no operand has just ended (`Derives.neighbours`), and
it closes every group that it opens and no other (`Derives.keeps_depth`).
-/

namespace FormulaCheck

def Token.Kind.endsOperand : Token.Kind → Bool
  | .number | .name | .closeParen => true
  | _ => false

theorem Token.Kind.endsOperand_of_isOperator {k : Token.Kind} (h : k.isOperator = true) :
    k.endsOperand = false := by
  cases k <;> simp_all [isOperator, endsOperand]

theorem Token.Kind.endsOperand_of_isSymbol {k : Token.Kind} (h : k.isSymbol = true) :
    k.endsOperand = true := by
  cases k <;> simp_all [isSymbol, endsOperand]

/-- A factor begins with the second kind exactly if no operand ends with the first. -/
def Neighbours (k k' : Token.Kind) : Prop := k'.startsFactor = !k.endsOperand

namespace Progress

def wantsOperand : Progress → Bool
  | .operand _ => true
  | .operator _ => false

theorem startsFactor_of_after (h : after p k = some q) : k.startsFactor = p.wantsOperand := by
  rcases after_cases h with ⟨n, rfl, rfl | rfl, -⟩ | ⟨n, rfl, rfl, -⟩ | ⟨n, rfl, hk, -⟩ |
    ⟨n, rfl, rfl, -⟩
  case inr.inr.inl => exact Token.Kind.startsFactor_of_isOperator hk
  all_goals rfl

theorem endsOperand_of_after (h : after p k = some q) : k.endsOperand = !q.wantsOperand := by
  rcases after_cases h with ⟨n, -, rfl | rfl, rfl⟩ | ⟨n, -, rfl, rfl⟩ | ⟨n, -, hk, rfl⟩ |
    ⟨n, -, rfl, rfl⟩
  case inr.inr.inl => exact Token.Kind.endsOperand_of_isOperator hk
  all_goals rfl

theorem neighbours (h : afterAll p ks = some q) : ks.IsChain Neighbours := by
  induction ks generalizing p with
  | nil => exact .nil
  | cons k ks ih =>
    obtain ⟨p', hp', hks⟩ := Option.bind_eq_some_iff.mp h
    cases ks with
    | nil => exact .singleton k
    | cons k' ks =>
      obtain ⟨p'', hp'', -⟩ := Option.bind_eq_some_iff.mp hks
      refine List.isChain_cons_cons.mpr ⟨?_, ih hks⟩
      rw [Neighbours, startsFactor_of_after hp'', endsOperand_of_after hp', Bool.not_not]

end Progress

namespace Derives

theorem startsFactor_expression (h : Derives .expression ks) :
    ∃ k more, ks = k :: more ∧ k.startsFactor = true := by
  have hall := derives_expression_iff.mp h
  cases ks with
  | nil => cases hall
  | cons k more =>
    obtain ⟨p, hp, -⟩ := Option.bind_eq_some_iff.mp hall
    exact ⟨k, more, rfl, Progress.startsFactor_of_after hp⟩

theorem startsFactor_head (h : Derives .statement (k :: ks)) : k.startsFactor = true := by
  cases h with
  | plain h =>
    obtain ⟨_, _, ⟨⟩, hk⟩ := h.startsFactor_expression
    exact hk
  | assigned h =>
    cases h
    rfl

theorem endsOperand_expression (h : Derives .expression (ks ++ [k])) : k.endsOperand = true := by
  rw [derives_expression_iff, Progress.afterAll_append] at h
  obtain ⟨p, -, hp⟩ := Option.bind_eq_some_iff.mp h
  obtain ⟨q, hq, hlast⟩ := Option.bind_eq_some_iff.mp hp
  cases hlast
  exact Progress.endsOperand_of_after hq

theorem endsOperand_last (h : Derives .statement (ks ++ [k])) : k.endsOperand = true := by
  generalize hall : ks ++ [k] = all at h
  cases h with
  | plain h =>
    subst hall
    exact h.endsOperand_expression
  | assigned h =>
    cases h with
    | @assignment value h =>
      obtain rfl | ⟨before, last, rfl⟩ := value.eq_nil_or_concat
      · obtain ⟨_, _, ⟨⟩, _⟩ := h.startsFactor_expression
      · have hparts : ks ++ [k] = (.name :: .equals :: before) ++ [last] := by simpa using hall
        obtain ⟨-, ⟨⟩⟩ := List.append_inj' hparts rfl
        rw [List.concat_eq_append] at h
        exact h.endsOperand_expression

theorem neighbours (h : Derives .statement ks) : ks.IsChain Neighbours := by
  cases h with
  | plain h => exact Progress.neighbours (derives_expression_iff.mp h)
  | assigned h =>
    cases h with
    | assignment h =>
      obtain ⟨k, more, rfl, hk⟩ := h.startsFactor_expression
      have hmore := Progress.neighbours (derives_expression_iff.mp h)
      exact .cons_cons rfl (.cons_cons hk hmore)

end Derives

-- ---------------------------------------------------------------------------
-- Groups
-- ---------------------------------------------------------------------------

/-- How many groups are open after one more kind, unless it closes one that is not open. -/
def depthNext : Nat → Token.Kind → Option Nat
  | depth, .openParen => some (depth + 1)
  | 0, .closeParen => none
  | depth + 1, .closeParen => some depth
  | depth, _ => some depth

theorem depthNext_of_ne (ho : k ≠ .openParen) (hc : k ≠ .closeParen) :
    depthNext depth k = some depth := by
  cases k <;> simp_all [depthNext]

def depthAfter (depth : Nat) (ks : List Token.Kind) : Option Nat := ks.foldlM depthNext depth

@[simp] theorem depthAfter_nil (depth : Nat) : depthAfter depth [] = some depth := rfl

theorem depthAfter_cons (depth : Nat) (k : Token.Kind) (ks : List Token.Kind) :
    depthAfter depth (k :: ks) = (depthNext depth k).bind (depthAfter · ks) := rfl

theorem depthAfter_append (depth : Nat) (ks ls : List Token.Kind) :
    depthAfter depth (ks ++ ls) = (depthAfter depth ks).bind (depthAfter · ls) := by
  simp [depthAfter, List.foldlM_append]

theorem depthNext_eq_some (h : depthNext depth k = some next) :
    next + [k].count .closeParen = depth + [k].count .openParen := by
  cases k with
  | closeParen => cases depth <;> simp_all [depthNext]
  | _ => simp_all [depthNext]

theorem count_of_depthAfter (h : depthAfter depth ks = some final) :
    final + ks.count .closeParen = depth + ks.count .openParen := by
  induction ks generalizing depth with
  | nil =>
    cases h
    rfl
  | cons k ks ih =>
    obtain ⟨next, hnext, hks⟩ := Option.bind_eq_some_iff.mp h
    have hk := depthNext_eq_some hnext
    have hrest := ih hks
    rw [← List.singleton_append, List.count_append, List.count_append]
    omega

theorem Derives.keeps_depth (h : Derives r ks) (depth : Nat) :
    depthAfter depth ks = some depth := by
  induction h generalizing depth with
  | assigned _ ih | plain _ ih => exact ih depth
  | assignment _ ih => exact ih depth
  | expression _ _ ihd ihe | term _ _ ihd ihe => simp [depthAfter_append, ihd, ihe]
  | noTerms | noFactors | number | name => rfl
  | moreTerms hop _ _ ihd ihe | moreFactors hop _ _ ihd ihe =>
    rcases hop with rfl | rfl <;>
      simp [depthAfter_cons, depthNext, depthAfter_append, ihd, ihe]
  | group _ ih => simp [depthAfter_cons, depthNext, depthAfter_append, ih]

end FormulaCheck
