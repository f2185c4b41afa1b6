import FormulaCheck.Proofs.Balance
import FormulaCheck.Proofs.Places
import Mathlib.Data.List.TakeWhile

/-!
# The raw checks on tokens

On a line that is scanned without errors the checks on raw characters find what the same checks find
on the tokens (`rawCheck_eq_tokenCheck`). There an operator has another one beside it if that one is
the next token and in the next column, and the partner of a parenthesis is told by what stands
between the two.

All that the checks look for is a lexeme of one character, so most of the proof is one induction
over such characters and tokens (`LineCut.singles_induction`). Only the operators at the ends need
the longer lexemes as well.
-/

namespace FormulaCheck

-- ---------------------------------------------------------------------------
-- Checks on tokens
-- ---------------------------------------------------------------------------

def Token.firstChar (t : Token) : Char := t.text.toList.headD ' '

def Token.lastChar (t : Token) : Char := t.text.toList.getLastD ' '

namespace TokenCheck

def edgeOperators (ts : List Token) : List Diagnostic :=
  let operator (t? : Option Token) := t?.filter fun t => t.kind.isOperator
  let finding (complaint : String → Complaint) : Token → Diagnostic := fun t =>
    .inColumn t.startColumn .syntactic (complaint t.text) t.text
  (operator ts.head?).toList.map (finding .startsWithOperator) ++
    (operator ts.getLast?).toList.map (finding .endsWithOperator)

def adjacentOperators (ts : List Token) : List Diagnostic :=
  (ts.zip ts.tail).filterMap fun (left, right) =>
    if left.kind.isOperator && right.kind.isOperator &&
        right.startColumn == left.startColumn + 1 then
      some (.inColumn left.startColumn .syntactic
        (.consecutiveOperators left.firstChar right.text) left.text)
    else none

def unmatchedClosings (before : List Token) : List Token → List Token
  | [] => []
  | t :: ts =>
    let found := unmatchedClosings (before ++ [t]) ts
    if t.kind = .closeParen ∧ ¬ HasOpening (before.map Token.kind) then t :: found else found

def unmatchedOpenings : List Token → List Token
  | [] => []
  | t :: ts =>
    let found := unmatchedOpenings ts
    if t.kind = .openParen ∧ ¬ HasClosing (ts.map Token.kind) then t :: found else found

def unmatchedParentheses (ts : List Token) : List Diagnostic :=
  (unmatchedClosings [] ts).map (.inColumn ·.startColumn .syntactic .unmatchedClosing ")") ++
    (unmatchedOpenings ts).map (.inColumn ·.startColumn .syntactic .unmatchedOpening "(")

def emptyParentheses (ts : List Token) : List Diagnostic :=
  (ts.zip ts.tail).filterMap fun (opening, closing) =>
    if opening.kind = .openParen ∧ closing.kind = .closeParen then
      some (.inColumn opening.startColumn .syntactic .emptyParentheses "()")
    else none

end TokenCheck

/-- What the checks on raw characters look for, looked for among tokens. -/
def tokenCheck (ts : List Token) : List Diagnostic :=
  TokenCheck.edgeOperators ts ++ TokenCheck.adjacentOperators ts ++
    TokenCheck.unmatchedParentheses ts ++ TokenCheck.emptyParentheses ts

-- ---------------------------------------------------------------------------
-- Lines
-- ---------------------------------------------------------------------------

inductive LineCut : Nat → List Char → List Token → Prop
  | nil : LineCut column [] []
  | blank : isBlank c = true → LineCut (column + 1) cs ts → LineCut column (c :: cs) ts
  | lexeme : IsLexeme k l → LineCut (column + l.length) cs ts →
      LineCut column (l ++ cs) (.ofLexeme k l ⟨line, column⟩ :: ts)

theorem PlacedCut.lineCut (h : PlacedCut p cs ts) (hline : '\n' ∉ cs) : LineCut p.column cs ts := by
  induction h with
  | nil => exact .nil
  | @blank c cs p _ hblank _ ih =>
    rw [List.mem_cons, not_or] at hline
    refine .blank hblank ?_
    have hrest := ih hline.2
    rwa [Position.advance, if_neg (Ne.symm hline.1)] at hrest
  | @lexeme k l cs p _ hlexeme _ ih =>
    have hrest := ih fun hmem => hline (List.mem_append_right l hmem)
    rw [hlexeme.advanceBy] at hrest
    exact .lexeme hlexeme hrest

@[simp] theorem Token.kind_ofLexeme : (Token.ofLexeme k l p).kind = k := rfl

@[simp] theorem Token.firstChar_ofLexeme : (Token.ofLexeme k (c :: l) p).firstChar = c := by
  simp [firstChar, ofLexeme]

@[simp] theorem Token.lastChar_ofLexeme : (Token.ofLexeme k (l ++ [c]) p).lastChar = c := by
  simp [lastChar, ofLexeme]

theorem Token.endColumn_ofLexeme :
    (Token.ofLexeme k (l ++ [c]) p).endColumn = p.column + l.length := by
  simp [ofLexeme]

theorem IsLexeme.isOperator_firstChar (h : IsLexeme k l) :
    Alphabet.isOperator (Token.ofLexeme k l p).firstChar = k.isOperator := by
  obtain ⟨c, l, rfl⟩ := List.exists_cons_of_ne_nil h.ne_nil
  rw [Token.firstChar_ofLexeme]
  exact h.isOperator_eq (List.mem_cons_self ..)

theorem IsLexeme.isOperator_lastChar (h : IsLexeme k l) :
    Alphabet.isOperator (Token.ofLexeme k l p).lastChar = k.isOperator := by
  obtain ⟨l, c, rfl⟩ := (List.eq_nil_or_concat' l).resolve_left h.ne_nil
  rw [Token.lastChar_ofLexeme]
  exact h.isOperator_eq (List.mem_append_right l (List.mem_singleton_self c))

namespace LineCut

variable {column : Nat} {cs : List Char} {ts : List Token}

/-- Induction over the lexemes of one character. All other characters are passed over, and so are
the tokens of numbers and names. -/
theorem singles_induction {P : Columns → List Token → Prop} (h : LineCut column cs ts)
    (hnil : P [] [])
    (hskip : ∀ {c column cs ts}, Lexeme.single? c = none → P cs ts → P ((c, column) :: cs) ts)
    (hsymbol : ∀ {t cs ts}, t.kind.isSymbol = true → P cs ts → P cs (t :: ts))
    (hsingle : ∀ {c k line column cs ts}, Lexeme.single? c = some k → LineCut (column + 1) cs ts →
      P (cs.zipIdx (column + 1)) ts →
      P ((c, column) :: cs.zipIdx (column + 1)) (.ofLexeme k [c] ⟨line, column⟩ :: ts)) :
    P (cs.zipIdx column) ts := by
  induction h with
  | nil => exact hnil
  | @blank c _ _ _ hblank _ ih =>
    refine hskip ?_ ih
    by_contra hc
    obtain ⟨k, hk⟩ := Option.ne_none_iff_exists'.mp hc
    simp [isBlank_eq_false_of_single? hk] at hblank
  | @lexeme k l column cs ts line hlexeme hcut ih =>
    cases hk : k.isSymbol with
    | false =>
      obtain ⟨c, rfl, hc⟩ := hlexeme.single?_of_not_isSymbol hk
      exact hsingle hc hcut ih
    | true =>
      -- a number or a name, whose characters are passed over one by one
      refine hsymbol hk ?_
      have hl := hlexeme.inSymbol hk
      clear hlexeme hcut
      induction l generalizing column with
      | nil => exact ih
      | cons c l ihl =>
        refine hskip (hl c (List.mem_cons_self ..)).single?_eq_none (ihl ?_ ?_)
        · rwa [List.length_cons, ← Nat.add_assoc, Nat.add_right_comm] at ih
        · exact fun d hd => hl d (List.mem_cons_of_mem c hd)

theorem le_startColumn (h : LineCut column cs ts) (ht : t ∈ ts) : column ≤ t.startColumn := by
  induction h with
  | nil => cases ht
  | blank _ _ ih => exact Nat.le_of_succ_le (ih ht)
  | lexeme _ _ ih =>
    rcases List.mem_cons.mp ht with rfl | ht
    · exact Nat.le_refl _
    · exact (Nat.le_add_right ..).trans (ih ht)

-- ---------------------------------------------------------------------------
-- Operators
-- ---------------------------------------------------------------------------

theorem find?_ink (h : LineCut column cs ts) :
    (cs.zipIdx column).find? (fun (c, _) => !isBlank c) =
      ts.head?.map fun t => (t.firstChar, t.startColumn) := by
  induction h with
  | nil => rfl
  | blank hblank _ ih => simpa [hblank] using ih
  | lexeme hlexeme _ _ =>
    obtain ⟨c, l, rfl⟩ := List.exists_cons_of_ne_nil hlexeme.ne_nil
    have hc := hlexeme.isBlank_eq_false (List.mem_cons_self ..)
    rw [List.cons_append, List.zipIdx_cons, List.find?_cons_of_pos (by simp [hc]),
      List.head?_cons, Option.map_some, Token.firstChar_ofLexeme]
    rfl

theorem find?_ink_reverse (h : LineCut column cs ts) :
    (cs.zipIdx column).reverse.find? (fun (c, _) => !isBlank c) =
      ts.getLast?.map fun t => (t.lastChar, t.endColumn) := by
  induction h with
  | nil => rfl
  | blank hblank _ ih => simpa [hblank] using ih
  | @lexeme k l column cs ts line hlexeme hcut ih =>
    rw [List.zipIdx_append, List.reverse_append, List.find?_append, ih]
    cases ts with
    | nil =>
      obtain ⟨l, c, rfl⟩ := List.eq_nil_or_concat' l |>.resolve_left hlexeme.ne_nil
      have hc := hlexeme.isBlank_eq_false (List.mem_append_right l (List.mem_singleton_self c))
      rw [List.zipIdx_append, List.reverse_append]
      simp [hc, Token.endColumn_ofLexeme]
    | cons t ts =>
      rw [List.getLast?_cons_cons, List.getLast?_eq_some_getLast (List.cons_ne_nil t ts)]
      rfl

theorem exists_lexeme (h : LineCut column cs ts) (ht : t ∈ ts) :
    ∃ k l p, IsLexeme k l ∧ t = .ofLexeme k l p := by
  induction h with
  | nil => cases ht
  | blank _ _ ih => exact ih ht
  | lexeme hlexeme _ ih =>
    rcases List.mem_cons.mp ht with rfl | ht
    · exact ⟨_, _, _, hlexeme, rfl⟩
    · exact ih ht

theorem edgeOperators_eq (h : LineCut column cs ts) :
    Columns.edgeOperators (cs.zipIdx column) = TokenCheck.edgeOperators ts := by
  dsimp only [Columns.edgeOperators, TokenCheck.edgeOperators]
  rw [h.find?_ink, h.find?_ink_reverse]
  congr 1
  · cases hfirst : ts.head? with
    | none => rfl
    | some t =>
      obtain ⟨k, l, p, hlexeme, rfl⟩ := h.exists_lexeme (List.mem_of_head? hfirst)
      rw [Option.map_some, Option.filter_some, Option.filter_some, hlexeme.isOperator_firstChar]
      cases hk : k.isOperator with
      | false => simp [hk]
      | true =>
        obtain ⟨op, rfl, -⟩ := hlexeme.isOperator_eq_singleton hk
        rw [Token.firstChar_ofLexeme, Token.kind_ofLexeme, hk]
        rfl
  · cases hlast : ts.getLast? with
    | none => rfl
    | some t =>
      obtain ⟨k, l, p, hlexeme, rfl⟩ := h.exists_lexeme (List.mem_of_getLast? hlast)
      rw [Option.map_some, Option.filter_some, Option.filter_some, hlexeme.isOperator_lastChar]
      cases hk : k.isOperator with
      | false => simp [hk]
      | true =>
        obtain ⟨op, rfl, -⟩ := hlexeme.isOperator_eq_singleton hk
        rw [← List.nil_append [op], Token.lastChar_ofLexeme, Token.kind_ofLexeme, hk]
        rfl

theorem head?_operator (h : LineCut column cs ts) :
    ((cs.zipIdx column).head?.filter (Alphabet.isOperator ·.1)).map (·.1.toString) =
      (ts.head?.filter fun t => t.kind.isOperator && t.startColumn == column).map Token.text := by
  cases h with
  | nil => rfl
  | @blank c _ cs ts hblank hcut =>
    have hc : Alphabet.isOperator c = false := by
      by_contra hop
      simp [isBlank_eq_false_of_isOperator (Bool.not_eq_false _ ▸ hop)] at hblank
    cases ts with
    | nil => simp [hc]
    | cons t ts =>
      have hlater := hcut.le_startColumn (List.mem_cons_self ..)
      have hne : t.startColumn ≠ column := by omega
      simp [Option.filter_some, hc, hne]
  | @lexeme k l _ cs ts line hlexeme _ =>
    cases hk : k.isOperator with
    | false =>
      obtain ⟨c, l, rfl⟩ := List.exists_cons_of_ne_nil hlexeme.ne_nil
      have hc := hlexeme.isOperator_eq (List.mem_cons_self ..)
      simp [Option.filter_some, hc, hk]
    | true =>
      obtain ⟨op, rfl, hop⟩ := hlexeme.isOperator_eq_singleton hk
      simp [Option.filter_some, hop, hk, Token.ofLexeme]

end LineCut

theorem Columns.adjacentOperators_of_not {cs : Columns} (hc : Alphabet.isOperator c = false) :
    adjacentOperators ((c, column) :: cs) = adjacentOperators cs := by
  cases cs <;> simp [adjacentOperators, hc]

theorem Columns.adjacentOperators_cons {cs : Columns} (hc : Alphabet.isOperator c = true) :
    adjacentOperators ((c, column) :: cs) =
      (((cs.head?.filter (Alphabet.isOperator ·.1)).map (·.1.toString)).toList.map fun right =>
        .inColumn column .syntactic (.consecutiveOperators c right) c.toString) ++
      adjacentOperators cs := by
  cases cs with
  | nil => rfl
  | cons x cs =>
    cases hx : Alphabet.isOperator x.1 <;> simp [adjacentOperators, Option.filter_some, hc, hx]

theorem TokenCheck.adjacentOperators_of_not (ht : t.kind.isOperator = false) :
    adjacentOperators (t :: ts) = adjacentOperators ts := by
  cases ts <;> simp [adjacentOperators, ht]

theorem TokenCheck.adjacentOperators_cons (ht : t.kind.isOperator = true) :
    adjacentOperators (t :: ts) =
      (((ts.head?.filter fun u => u.kind.isOperator && u.startColumn == t.startColumn + 1).map
        Token.text).toList.map fun right =>
          .inColumn t.startColumn .syntactic (.consecutiveOperators t.firstChar right) t.text) ++
      adjacentOperators ts := by
  cases ts with
  | nil => rfl
  | cons u ts =>
    cases hu : u.kind.isOperator <;> by_cases hcolumn : u.startColumn = t.startColumn + 1 <;>
      simp [adjacentOperators, Option.filter_some, ht, hu, hcolumn]

theorem LineCut.adjacentOperators_eq (h : LineCut column cs ts) :
    Columns.adjacentOperators (cs.zipIdx column) = TokenCheck.adjacentOperators ts := by
  refine h.singles_induction
    (P := fun cs ts => cs.adjacentOperators = TokenCheck.adjacentOperators ts) rfl ?_ ?_ ?_
  · intro c column cs ts hc ih
    rw [Columns.adjacentOperators_of_not, ih]
    by_contra hop
    obtain ⟨k, hk, -⟩ := single?_of_isOperator (Bool.not_eq_false _ ▸ hop)
    simp [hc] at hk
  · intro t cs ts ht ih
    rw [TokenCheck.adjacentOperators_of_not, ih]
    cases hk : t.kind <;> simp_all [Token.Kind.isOperator, Token.Kind.isSymbol]
  · intro c k line column cs ts hc hcut ih
    have hlexeme := IsLexeme.of_single? hc
    have hop := hlexeme.isOperator_eq (List.mem_singleton_self c)
    cases hk : k.isOperator with
    | false =>
      rw [Columns.adjacentOperators_of_not (hop.trans hk), TokenCheck.adjacentOperators_of_not hk,
        ih]
    | true =>
      rw [Columns.adjacentOperators_cons (hop.trans hk), TokenCheck.adjacentOperators_cons hk, ih,
        hcut.head?_operator, Token.firstChar_ofLexeme]
      rfl

-- ---------------------------------------------------------------------------
-- Parentheses
-- ---------------------------------------------------------------------------

theorem TokenCheck.unmatchedClosings_of_ne (ht : t.kind ≠ .closeParen) :
    unmatchedClosings before (t :: ts) = unmatchedClosings (before ++ [t]) ts :=
  if_neg fun hfound => ht hfound.1

theorem TokenCheck.unmatchedOpenings_of_ne (ht : t.kind ≠ .openParen) :
    unmatchedOpenings (t :: ts) = unmatchedOpenings ts :=
  if_neg fun hfound => ht hfound.1

theorem ne_of_single?_eq_none (hc : Lexeme.single? c = none) : c ≠ '(' ∧ c ≠ ')' := by
  constructor <;> rintro rfl <;> cases hc

namespace LineCut

theorem depthAfter_singles (h : LineCut column cs ts) :
    ∀ n, depthAfter n (Columns.singles (cs.zipIdx column)) = depthAfter n (ts.map Token.kind) := by
  refine h.singles_induction
    (P := fun cs ts => ∀ n, depthAfter n cs.singles = depthAfter n (ts.map Token.kind))
    (fun _ => rfl) ?_ ?_ ?_
  · intro c column cs ts hc ih n
    obtain ⟨hopen, hclose⟩ := ne_of_single?_eq_none hc
    rw [Columns.depthAfter_singles_of_ne hopen hclose, ih]
  · intro t cs ts ht ih n
    obtain ⟨hopen, hclose⟩ := Token.Kind.ne_paren_of_isSymbol ht
    rw [List.map_cons, depthAfter_of_ne hopen hclose, ih]
  · intro c k line column cs ts hc _ ih n
    simp [Columns.singles_cons, hc, depthAfter_cons, ih]

theorem unmatchedClosings_eq (h : LineCut column cs ts) : ∀ (opened : List Nat) before,
    opened.length = groupsOpen 0 (before.map Token.kind) →
    (Columns.unmatched opened (cs.zipIdx column)).1 =
      (TokenCheck.unmatchedClosings before ts).map Token.startColumn := by
  refine h.singles_induction (P := fun cs ts => ∀ (opened : List Nat) before,
    opened.length = groupsOpen 0 (before.map Token.kind) →
    (Columns.unmatched opened cs).1 =
      (TokenCheck.unmatchedClosings before ts).map Token.startColumn) (fun _ _ _ => rfl) ?_ ?_ ?_
  · intro c column cs ts hc ih opened before hopened
    obtain ⟨hopen, hclose⟩ := ne_of_single?_eq_none hc
    rw [Columns.unmatched_cons_of_ne opened hopen hclose]
    exact ih opened before hopened
  · intro t cs ts ht ih opened before hopened
    obtain ⟨hopen, hclose⟩ := Token.Kind.ne_paren_of_isSymbol ht
    rw [TokenCheck.unmatchedClosings_of_ne hclose]
    refine ih opened (before ++ [t]) ?_
    rw [List.map_append, List.map_singleton, groupsOpen_concat, depthNext_of_ne hopen hclose]
    exact hopened
  · intro c k line column cs ts hc _ ih opened before hopened
    have hnext : ∀ opened' : List Nat, opened'.length = (depthNext opened.length k).getD 0 →
        opened'.length = groupsOpen 0 ((before ++ [Token.ofLexeme k [c] ⟨line, column⟩]).map
          Token.kind) := by
      intro opened' hopened'
      rw [List.map_append, List.map_singleton, groupsOpen_concat, ← hopened, hopened']
      rfl
    by_cases hopen : c = '('
    · subst hopen
      cases hc
      rw [TokenCheck.unmatchedClosings_of_ne (by simp)]
      exact ih (column :: opened) _ (hnext _ rfl)
    by_cases hclose : c = ')'
    · subst hclose
      cases hc
      cases opened with
      | nil =>
        have hnone : ¬ HasOpening (before.map Token.kind) := by
          rw [hasOpening_iff, ← hopened]
          exact Nat.lt_irrefl 0
        rw [TokenCheck.unmatchedClosings, if_pos ⟨rfl, hnone⟩, List.map_cons,
          ← ih [] _ (hnext [] rfl)]
        rfl
      | cons o opened =>
        have hsome : HasOpening (before.map Token.kind) := by
          rw [hasOpening_iff, ← hopened]
          exact Nat.succ_pos _
        rw [TokenCheck.unmatchedClosings, if_neg (fun hfound => hfound.2 hsome)]
        exact ih opened _ (hnext opened rfl)
    · have hk := ne_closeParen_of_single? hc hclose
      rw [Columns.unmatched_cons_of_ne opened hopen hclose, TokenCheck.unmatchedClosings_of_ne hk]
      refine ih opened _ (hnext opened ?_)
      rw [depthNext_of_ne (ne_openParen_of_single? hc hopen) hk]
      rfl

theorem unmatchedOpenings_eq (h : LineCut column cs ts) :
    (Columns.unmatched [] (cs.zipIdx column)).2 =
      (TokenCheck.unmatchedOpenings ts).map Token.startColumn := by
  refine h.singles_induction (P := fun cs ts => (Columns.unmatched [] cs).2 =
    (TokenCheck.unmatchedOpenings ts).map Token.startColumn) rfl ?_ ?_ ?_
  · intro c column cs ts hc ih
    obtain ⟨hopen, hclose⟩ := ne_of_single?_eq_none hc
    rw [Columns.unmatched_cons_of_ne [] hopen hclose, ih]
  · intro t cs ts ht ih
    have hopen := (Token.Kind.ne_paren_of_isSymbol ht).1
    rw [TokenCheck.unmatchedOpenings_of_ne hopen, ih]
  · intro c k line column cs ts hc hcut ih
    by_cases hopen : c = '('
    · subst hopen
      cases hc
      have hclosing : (Columns.unmatched [] (cs.zipIdx (column + 1))).1 = [] ↔
          ¬ HasClosing (ts.map Token.kind) := by
        rw [hasClosing_iff, ← hcut.depthAfter_singles, ← Columns.lt_length_unmatched_iff,
          Nat.not_lt, Nat.le_zero, List.length_eq_zero_iff]
      rw [Columns.unmatched_openParen, TokenCheck.unmatchedOpenings]
      dsimp only
      by_cases hnone : HasClosing (ts.map Token.kind)
      · rw [if_neg (fun hnil => hclosing.mp hnil hnone), if_neg (fun hfound => hfound.2 hnone), ih]
      · rw [if_pos (hclosing.mpr hnone), if_pos ⟨rfl, hnone⟩, ih]
        rfl
    rw [TokenCheck.unmatchedOpenings_of_ne (ne_openParen_of_single? hc hopen)]
    by_cases hclose : c = ')'
    · subst hclose
      exact ih
    · rw [Columns.unmatched_cons_of_ne [] hopen hclose]
      exact ih

theorem unmatchedParentheses_eq (h : LineCut column cs ts) :
    Columns.unmatchedParentheses (cs.zipIdx column) = TokenCheck.unmatchedParentheses ts := by
  rw [Columns.unmatchedParentheses, TokenCheck.unmatchedParentheses]
  dsimp only
  rw [h.unmatchedClosings_eq [] [] rfl, h.unmatchedOpenings_eq, List.map_map, List.map_map]
  rfl

theorem head?_closeParen (h : LineCut column cs ts) :
    ((cs.zipIdx column).find? (fun (c, _) => !isBlank c)).map Prod.fst = some ')' ↔
      ts.head?.map Token.kind = some .closeParen := by
  rw [h.find?_ink]
  cases ts with
  | nil => simp
  | cons t ts =>
    obtain ⟨k, l, p, hlexeme, rfl⟩ := h.exists_lexeme (List.mem_cons_self ..)
    obtain ⟨c, l, rfl⟩ := List.exists_cons_of_ne_nil hlexeme.ne_nil
    simp only [List.head?_cons, Option.map_some, Token.firstChar_ofLexeme, Token.kind_ofLexeme,
      Option.some.injEq]
    constructor
    · rintro rfl
      exact (hlexeme.eq_singleton (List.mem_cons_self ..) rfl).2
    · rintro rfl
      exact (List.cons.inj hlexeme.eq_closeParen).1

end LineCut

theorem Columns.emptyParentheses_openParen {cs : Columns} :
    emptyParentheses (('(', column) :: cs) =
      (if (cs.find? fun (c, _) => !isBlank c).map Prod.fst = some ')' then
        [.inColumn column .syntactic .emptyParentheses "()"] else []) ++ emptyParentheses cs := by
  rw [List.find?_not_eq_head?_dropWhile, emptyParentheses, emptyGroups, if_pos rfl]
  split
  · next hclose =>
    rw [hclose]
    rfl
  · next hne =>
    rw [if_neg]
    · rfl
    · intro hclose
      obtain ⟨⟨_, closing⟩, hhead, rfl⟩ := Option.map_eq_some_iff.mp hclose
      obtain ⟨after, hafter⟩ := List.head?_eq_some_iff.mp hhead
      exact hne closing after hafter

theorem Columns.emptyParentheses_of_ne {cs : Columns} (hc : c ≠ '(') :
    emptyParentheses ((c, column) :: cs) = emptyParentheses cs := by
  simp [emptyParentheses, emptyGroups, hc]

theorem TokenCheck.emptyParentheses_openParen (ht : t.kind = .openParen) :
    emptyParentheses (t :: ts) =
      (if ts.head?.map Token.kind = some .closeParen then
        [.inColumn t.startColumn .syntactic .emptyParentheses "()"] else []) ++
      emptyParentheses ts := by
  cases ts with
  | nil => rfl
  | cons u ts => by_cases hu : u.kind = .closeParen <;> simp [emptyParentheses, ht, hu]

theorem TokenCheck.emptyParentheses_of_ne (ht : t.kind ≠ .openParen) :
    emptyParentheses (t :: ts) = emptyParentheses ts := by
  cases ts <;> simp [emptyParentheses, ht]

theorem LineCut.emptyParentheses_eq (h : LineCut column cs ts) :
    Columns.emptyParentheses (cs.zipIdx column) = TokenCheck.emptyParentheses ts := by
  refine h.singles_induction
    (P := fun cs ts => cs.emptyParentheses = TokenCheck.emptyParentheses ts) rfl ?_ ?_ ?_
  · intro c column cs ts hc ih
    rw [Columns.emptyParentheses_of_ne (ne_of_single?_eq_none hc).1, ih]
  · intro t cs ts ht ih
    rw [TokenCheck.emptyParentheses_of_ne (Token.Kind.ne_paren_of_isSymbol ht).1, ih]
  · intro c k line column cs ts hc hcut ih
    by_cases hopen : c = '('
    · subst hopen
      cases hc
      rw [Columns.emptyParentheses_openParen, TokenCheck.emptyParentheses_openParen rfl, ih]
      simp only [hcut.head?_closeParen]
      rfl
    · rw [Columns.emptyParentheses_of_ne hopen,
        TokenCheck.emptyParentheses_of_ne (ne_openParen_of_single? hc hopen), ih]

-- ---------------------------------------------------------------------------
-- All checks
-- ---------------------------------------------------------------------------

theorem foreignChars_eq_nil (h : Cut cs ks) : (Columns.ofChars cs).foreignChars = [] := by
  refine List.eq_nil_iff_forall_not_mem.mpr fun d hmem => ?_
  obtain ⟨before, c, after, rfl, hc, -⟩ := Columns.mem_foreignChars_iff.mp hmem
  simp [h.isAllowed (List.mem_append_right _ (List.mem_cons_self ..))] at hc

/-- On a line without scan errors the checks on raw characters are checks on its tokens. -/
theorem rawCheck_eq_tokenCheck (hline : '\n' ∉ line.toList) (h : (scan line).errors = []) :
    rawCheck line = tokenCheck (scan line).tokens := by
  have hplaced : PlacedCut .origin line.toList (scan line).tokens := Scan.placedCut h
  have hcut : LineCut 1 line.toList (scan line).tokens := hplaced.lineCut hline
  dsimp only [rawCheck, tokenCheck]
  rw [foreignChars_eq_nil hplaced.cut, List.append_nil, Columns.ofChars, hcut.edgeOperators_eq,
    hcut.adjacentOperators_eq, hcut.unmatchedParentheses_eq, hcut.emptyParentheses_eq]

/-- Of all that can be found here every kind is found once. -/
theorem rawCheck_eq_tokenCheck_mistakes :
    let line := "+ a) ( ) (b */ 2 -"
    '\n' ∉ line.toList ∧ (scan line).errors = [] ∧ rawCheck line = tokenCheck (scan line).tokens ∧
      (tokenCheck (scan line).tokens).map Diagnostic.column = [1, 18, 13, 4, 10, 6] := by
  intro line
  have hline : '\n' ∉ line.toList := by decide
  have h : (scan line).errors = [] := by decide +kernel
  exact ⟨hline, h, rawCheck_eq_tokenCheck hline h, by decide +kernel⟩

end FormulaCheck
