import FormulaCheck.Proofs.Grammar
import FormulaCheck.Tree.Parse

/-!
# States of a parse

What comes next in a state, which tokens its operations leave, and what they do to the faults.
-/

namespace FormulaCheck.Parse.State

variable {s : State} {t : Token} {used more : List Token}

-- ---------------------------------------------------------------------------
-- What comes next
-- ---------------------------------------------------------------------------

def factorNext (s : State) : Bool := s.kind?.any Token.Kind.startsFactor

def strayNext (s : State) : Bool :=
  s.kind?.any isStray && s.kindAfter?.any Token.Kind.startsFactor

def assignmentNext (s : State) : Bool := s.kind? == some .name && s.kindAfter? == some .equals

theorem factorNext_iff {s : State} : s.factorNext = true ↔
    ∃ t rest, s.rest = t :: rest ∧ t.kind.startsFactor = true := by
  cases hs : s.rest <;> simp [factorNext, kind?, hs]

theorem strayNext_iff {s : State} : s.strayNext = true ↔
    ∃ t next rest, s.rest = t :: next :: rest ∧ isStray t.kind = true ∧
      next.kind.startsFactor = true := by
  rcases hs : s.rest with _ | ⟨t, _ | ⟨next, rest⟩⟩
  · simp [strayNext, kind?, hs]
  · simp [strayNext, kindAfter?, hs]
  · simp only [strayNext, kind?, kindAfter?, hs, List.head?_cons, List.tail_cons,
      Option.map_some, Option.any_some, Bool.and_eq_true]
    constructor
    · exact fun h => ⟨t, next, rest, rfl, h⟩
    · rintro ⟨_, _, _, ⟨⟩, h⟩
      exact h

theorem assignmentNext_iff {s : State} : s.assignmentNext = true ↔
    ∃ target equals rest, s.rest = target :: equals :: rest ∧ target.kind = .name ∧
      equals.kind = .equals := by
  rcases hs : s.rest with _ | ⟨target, _ | ⟨equals, rest⟩⟩
  · simp [assignmentNext, kind?, hs]
  · simp [assignmentNext, kindAfter?, hs]
  · simp only [assignmentNext, kind?, kindAfter?, hs, List.head?_cons, List.tail_cons,
      Option.map_some, Bool.and_eq_true, beq_iff_eq, Option.some.injEq]
    constructor
    · exact fun h => ⟨target, equals, rest, rfl, h⟩
    · rintro ⟨_, _, _, ⟨⟩, h⟩
      exact h

theorem assignmentNext_of_prefix {s : State} (h : [.name, .equals] <+: s.rest.map Token.kind) :
    s.assignmentNext = true := by
  obtain ⟨rest, heq⟩ := h
  obtain ⟨target, rest, hs, ht, hrest⟩ := List.map_eq_cons_iff.mp heq.symm
  obtain ⟨equals, rest, rfl, he, -⟩ := List.map_eq_cons_iff.mp hrest
  exact assignmentNext_iff.mpr ⟨target, equals, rest, hs, ht, he⟩

theorem factorNext_of_isSymbol {s : State} (hs : s.rest = t :: more)
    (hk : t.kind.isSymbol = true) : s.factorNext = true :=
  factorNext_iff.mpr ⟨t, more, hs, Token.Kind.startsFactor_iff.mpr (.inl hk)⟩

theorem factorNext_of_openParen {s : State} (hs : s.rest = t :: more)
    (hk : t.kind = .openParen) : s.factorNext = true :=
  factorNext_iff.mpr ⟨t, more, hs, Token.Kind.startsFactor_iff.mpr (.inr hk)⟩

-- ---------------------------------------------------------------------------
-- Faults
-- ---------------------------------------------------------------------------

@[simp] theorem faults_skip (s : State) : s.skip.faults = s.faults := rfl

@[simp] theorem faults_take (s : State) : s.take.faults = s.faults := rfl

theorem faults_suffix_report (s : State) : s.faults <:+ s.report.faults := by
  unfold report
  dsimp only
  split
  · exact List.suffix_rfl
  · exact List.suffix_cons ..

structure Clean (s : State) : Prop where
  faults : s.faults = []
  recovering : s.recovering = false

theorem Clean.take (h : s.Clean) : s.take.Clean := ⟨h.faults, rfl⟩

theorem Clean.faults_report (h : s.Clean) : s.report.faults = [.ofNext? s.rest.head?] := by
  simp [report, h.faults, h.recovering]

-- ---------------------------------------------------------------------------
-- Many tokens at once
-- ---------------------------------------------------------------------------

def takeAll (s : State) (used : List Token) : State := used.foldl (fun s _ => s.take) s

@[simp] theorem takeAll_nil (s : State) : s.takeAll [] = s := rfl

@[simp] theorem takeAll_cons (s : State) (t : Token) (used : List Token) :
    s.takeAll (t :: used) = s.take.takeAll used := rfl

@[simp] theorem takeAll_append (s : State) (used more : List Token) :
    s.takeAll (used ++ more) = (s.takeAll used).takeAll more := by
  simp [takeAll]

theorem rest_takeAll (h : s.rest = used ++ more) : (s.takeAll used).rest = more := by
  induction used generalizing s with
  | nil => exact h
  | cons t used ih => exact ih (by simp [h])

theorem Clean.takeAll (h : s.Clean) (used : List Token) : (s.takeAll used).Clean := by
  induction used generalizing s with
  | nil => exact h
  | cons t used ih => exact ih h.take

end FormulaCheck.Parse.State
