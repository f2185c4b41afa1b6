import FormulaCheck.Tree

/-!
# Parsing

`parse` reads a sequence of tokens as a statement, one rule of the grammar after the other. A fault
never stops it: the fault is recorded at the next token, or at the end of the tokens, and the tree
is repaired on the spot.

* An operator or equals sign where a factor must begin is left out if a factor begins after it;
  otherwise the factor stays empty.
* If a closing parenthesis is missing, one token in front of a closing parenthesis is left out;
  otherwise the parenthesis is taken to be there.

From a fault until the next token that goes into the tree no other fault is recorded. Only
parentheses nested deeper than the limit make a parse fail.

Reading a group lowers the number of levels that may still open, so the rules recur on that number;
the repetitions recur on the tokens that are left.
-/

namespace FormulaCheck

inductive Fault
  | unexpected (token : Token)
  | endOfInput
deriving Repr, DecidableEq, Inhabited

def Fault.token? : Fault → Option Token
  | .unexpected token => some token
  | .endOfInput => none

def Fault.ofNext? : Option Token → Fault
  | some token => .unexpected token
  | none => .endOfInput

/-- Parentheses nested deeper than the limit, with the place of the first one that is too deep. -/
structure NestingTooDeep where
  limit : Nat
  place : Position
deriving Repr, DecidableEq, Inhabited

def NestingTooDeep.render (e : NestingTooDeep) : String :=
  s!"expression nesting exceeds {e.limit} levels at line {e.place.line}, column {e.place.column}"

structure Parsed where
  tree : Tree
  faults : List Fault
deriving Repr, Inhabited

namespace Parse

/-- Where a parse stands: the tokens that are left, the faults so far with the latest first, and
whether a token has gone into the tree since the latest fault. -/
structure State where
  rest : List Token
  faults : List Fault
  recovering : Bool
deriving Repr, DecidableEq, Inhabited

namespace State

def kind? (s : State) : Option Token.Kind := s.rest.head?.map Token.kind

def kindAfter? (s : State) : Option Token.Kind := s.rest.tail.head?.map Token.kind

/-- Takes the next token into the tree, which ends a recovery. -/
def take (s : State) : State := { s with rest := s.rest.tail, recovering := false }

def skip (s : State) : State := { s with rest := s.rest.tail }

/-- Records a fault at the next token, unless one is being recovered from or the latest fault is
that same one. -/
def report (s : State) : State :=
  let fault := Fault.ofNext? s.rest.head?
  if s.recovering || s.faults.head? == some fault then s
  else { s with faults := fault :: s.faults, recovering := true }

@[simp] theorem rest_take (s : State) : s.take.rest = s.rest.tail := rfl

@[simp] theorem rest_skip (s : State) : s.skip.rest = s.rest.tail := rfl

@[simp] theorem rest_report (s : State) : s.report.rest = s.rest := by
  unfold report; dsimp only; split <;> rfl

end State

/-- What reading a part of a statement gives: the part and the state after it, or the opening
parenthesis that is nested too deep. -/
abbrev Outcome (α : Type) := Except Token (α × State)

/-- A reader of a part of a statement. The tokens that it leaves are the last ones of those that it
was given. -/
structure Reader (α : Type) where
  run : State → Outcome α
  rest_suffix : ∀ {s a s'}, run s = .ok (a, s') → s'.rest <:+ s.rest

namespace Reader

def seq (first : Reader α) (second : Reader β) : Reader (α × β) where
  run s :=
    match first.run s with
    | .error deep => .error deep
    | .ok (a, s₁) =>
      match second.run s₁ with
      | .error deep => .error deep
      | .ok (b, s₂) => .ok ((a, b), s₂)
  rest_suffix := by
    intro s ab s' h
    split at h
    · cases h
    · next a s₁ h₁ =>
      split at h
      · cases h
      · next b s₂ h₂ => cases h; exact (second.rest_suffix h₂).trans (first.rest_suffix h₁)

def map (f : α → β) (r : Reader α) : Reader β where
  run s := (r.run s).map fun (a, s') => (f a, s')
  rest_suffix := by
    intro s b s' h
    match hr : r.run s with
    | .error _ => rw [hr] at h; cases h
    | .ok (a, s₁) => rw [hr] at h; cases h; exact r.rest_suffix hr

end Reader

/-- Reads operators and operands in turn, for as long as an operator comes next. -/
def alternate (isOperator : Token.Kind → Bool) (operand : Reader Tree) (s : State) :
    Outcome Forest :=
  match _hs : s.rest with
  | [] => .ok ([], s)
  | op :: _ =>
    if isOperator op.kind then
      match _ho : operand.run s.take with
      | .error deep => .error deep
      | .ok (t, s₁) =>
        match alternate isOperator operand s₁ with
        | .error deep => .error deep
        | .ok (ts, s₂) => .ok (.leaf op :: t :: ts, s₂)
    else .ok ([], s)
termination_by s.rest.length
decreasing_by
  have := (operand.rest_suffix _ho).length_le
  simp only [State.rest_take, _hs, List.tail_cons] at this
  simp only [_hs, List.length_cons]; omega

theorem alternate_rest_suffix {isOperator : Token.Kind → Bool} {operand : Reader Tree}
    {s s' : State} {ts : Forest} (h : alternate isOperator operand s = .ok (ts, s')) :
    s'.rest <:+ s.rest := by
  fun_induction alternate isOperator operand s generalizing ts with
  | case1 => cases h; exact List.suffix_rfl
  | case2 => cases h
  | case3 => cases h
  | case4 s op rest hs _ t s₁ ho ts₁ s₂ ha ih =>
    cases h
    exact (ih ha).trans ((operand.rest_suffix ho).trans (List.tail_suffix _))
  | case5 => cases h; exact List.suffix_rfl

def tail (rule : Rule) (isOperator : Token.Kind → Bool) (operand : Reader Tree) : Reader Tree :=
  Reader.map (fun ts => Tree.ofChildren rule ts false)
    ⟨alternate isOperator operand, alternate_rest_suffix⟩

def chain (rule tailRule : Rule) (isOperator : Token.Kind → Bool) (operand : Reader Tree) :
    Reader Tree :=
  (operand.seq (tail tailRule isOperator operand)).map fun (t, more) =>
    Tree.ofChildren rule [t, more] false

/-- Ends a group after its expression: takes the closing parenthesis, or repairs its absence. -/
def closeGroup (opening : Token) (inner : Tree) (s : State) : Tree × State :=
  match s.rest with
  | closing :: _ =>
    if closing.kind = .closeParen then
      (Tree.ofChildren .factor [.leaf opening, inner, .leaf closing] false, s.take)
    else
      match s.rest.tail with
      | next :: _ =>
        if next.kind = .closeParen then
          (Tree.ofChildren .factor [.leaf opening, inner, .leaf next] false, s.report.skip.take)
        else (Tree.ofChildren .factor [.leaf opening, inner] true, s.report)
      | [] => (Tree.ofChildren .factor [.leaf opening, inner] true, s.report)
  | [] => (Tree.ofChildren .factor [.leaf opening, inner] true, s.report)

theorem closeGroup_rest_suffix (opening : Token) (inner : Tree) (s : State) :
    (closeGroup opening inner s).2.rest <:+ s.rest := by
  unfold closeGroup
  split
  · split
    · exact List.tail_suffix _
    · split
      · split
        · simp only [State.rest_take, State.rest_skip, State.rest_report]
          exact (List.tail_suffix _).trans (List.tail_suffix _)
        · simp
      · simp
  · simp

/-- The reader for expressions one level of parentheses deeper, if another level may open. It is
made when a parenthesis opens. -/
abbrev Deeper := Option (Unit → Reader Tree)

/-- Reads a group with the reader for its expression; without one the parenthesis is too deep. -/
def group (deeper? : Deeper) (opening : Token) (s : State) : Outcome Tree :=
  match deeper? with
  | none => .error opening
  | some expression =>
    match (expression ()).run s.take with
    | .error deep => .error deep
    | .ok (inner, s') => .ok (closeGroup opening inner s')

def factorAt (deeper? : Deeper) (t : Token) (s : State) : Outcome Tree :=
  if t.kind = .openParen then group deeper? t s
  else .ok (Tree.ofChildren .factor [.leaf t] false, s.take)

def isStray (kind : Token.Kind) : Bool := kind.isOperator || kind = .equals

def factorFrom (deeper? : Deeper) (s : State) : Outcome Tree :=
  match s.rest with
  | t :: rest =>
    if t.kind.startsFactor then factorAt deeper? t s
    else
      match rest with
      | next :: _ =>
        if isStray t.kind && next.kind.startsFactor then factorAt deeper? next s.report.skip
        else .ok (Tree.ofChildren .factor [] true, s.report)
      | [] => .ok (Tree.ofChildren .factor [] true, s.report)
  | [] => .ok (Tree.ofChildren .factor [] true, s.report)

theorem group_rest_suffix {deeper? : Deeper} {opening : Token} {s s' : State}
    {t : Tree} (h : group deeper? opening s = .ok (t, s')) : s'.rest <:+ s.rest := by
  unfold group at h
  split at h
  · cases h
  · next expression =>
    split at h
    · cases h
    · next inner s₁ h₁ =>
      have hc := closeGroup_rest_suffix opening inner s₁
      rw [Except.ok.inj h] at hc
      exact hc.trans (((expression ()).rest_suffix h₁).trans (List.tail_suffix _))

theorem factorAt_rest_suffix {deeper? : Deeper} {t : Token} {s s' : State}
    {tree : Tree} (h : factorAt deeper? t s = .ok (tree, s')) : s'.rest <:+ s.rest := by
  unfold factorAt at h
  split at h
  · exact group_rest_suffix h
  · cases h; exact List.tail_suffix _

def factor (deeper? : Deeper) : Reader Tree where
  run := factorFrom deeper?
  rest_suffix := by
    intro s t s' h
    unfold factorFrom at h
    split at h
    · split at h
      · exact factorAt_rest_suffix h
      · split at h
        · split at h
          · have := factorAt_rest_suffix h
            rw [State.rest_skip, State.rest_report] at this
            exact this.trans (List.tail_suffix _)
          · cases h; simp
        · cases h; simp
    · cases h; simp

def isFactorOperator (kind : Token.Kind) : Bool := kind = .times || kind = .divide

def isTermOperator (kind : Token.Kind) : Bool := kind = .plus || kind = .minus

def term (deeper? : Deeper) : Reader Tree :=
  chain .term .termTail isFactorOperator (factor deeper?)

def expressionOver (deeper? : Deeper) : Reader Tree :=
  chain .expression .expressionTail isTermOperator (term deeper?)

def expression : (levels : Nat) → Reader Tree
  | 0 => expressionOver none
  | levels + 1 => expressionOver (some fun _ => expression levels)

/-- Reads a statement. It is an assignment exactly if the tokens begin with a name and an equals
sign. -/
def statement (levels : Nat) (s : State) : Outcome Tree :=
  match s.rest with
  | target :: equals :: _ =>
    if target.kind = .name ∧ equals.kind = .equals then
      match (expression levels).run s.take.take with
      | .error deep => .error deep
      | .ok (value, s') =>
        let assignment :=
          Tree.ofChildren .assignment [.leaf target, .leaf equals, value] false
        .ok (Tree.ofChildren .statement [assignment] false, s')
    else plain
  | _ => plain
where
  plain : Outcome Tree :=
    match (expression levels).run s with
    | .error deep => .error deep
    | .ok (value, s') => .ok (Tree.ofChildren .statement [value] false, s')

end Parse

def defaultNestingLimit : Nat := 256

/-- Reads tokens as one statement with so many levels of parentheses. Tokens after the statement
are a fault at the first of them. -/
def parse (limit : Nat) (tokens : List Token) : Except NestingTooDeep Parsed :=
  match Parse.statement limit ⟨tokens, [], false⟩ with
  | .error deep => .error ⟨limit, deep.start⟩
  | .ok (tree, s) =>
    let s := if s.rest.isEmpty then s else s.report
    .ok ⟨tree, s.faults.reverse⟩

end FormulaCheck
