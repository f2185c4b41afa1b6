import FormulaCheck.Proofs.Acceptance
import FormulaCheck.Proofs.Analysis
import FormulaCheck.Proofs.Parse.Renaming

/-!
# Layout does not matter

The blanks of a line decide where its tokens stand and nothing else. Two lines with the same
lexemes are alike in all that their analyses show, apart from places
(`sameButPlaces_of_lexeme_eq`). As their tokens have different places, there is a map that takes
the tokens of one line to those of the other (`exists_moves`), and `parse_map` takes the parse of
the one to that of the other.

The raw checks do depend on blanks, since operators side by side are a finding that a blank between
them avoids. They have no say here: a line in which they find something is not accepted in any
layout (`accepted_iff_kinds`).
-/

namespace FormulaCheck

variable {ts us : List Token} {line line' : String} {number number' : Nat}

-- ---------------------------------------------------------------------------
-- Tokens without their places
-- ---------------------------------------------------------------------------

/-- What a token is, wherever it stands. -/
def Token.lexeme (t : Token) : Token.Kind × String := (t.kind, t.text)

/-- The token as if it stood nowhere. -/
def Token.unplaced (t : Token) : Token := ⟨t.kind, t.text, 0, 0, 0, 0⟩

def Tree.unplaced (t : Tree) : Tree := t.mapTokens Token.unplaced

/-- A replacement of tokens that changes their places only. -/
def Moves (f : Token → Token) : Prop := ∀ t, (f t).lexeme = t.lexeme

namespace Moves

variable {f : Token → Token}

theorem kind (h : Moves f) (t : Token) : (f t).kind = t.kind := congrArg Prod.fst (h t)

theorem text (h : Moves f) (t : Token) : (f t).text = t.text := congrArg Prod.snd (h t)

theorem unplaced_comp (h : Moves f) : Token.unplaced ∘ f = Token.unplaced := by
  funext t
  simp [Token.unplaced, h.kind, h.text]

end Moves

theorem exists_moves (hts : ts.Nodup) (h : ts.map Token.lexeme = us.map Token.lexeme) :
    ∃ f, Moves f ∧ ts.map f = us := by
  induction ts generalizing us with
  | nil => exact ⟨id, fun _ => rfl, (List.map_eq_nil_iff.mp h.symm).symm⟩
  | cons t ts ih =>
    obtain ⟨u, us, rfl, hu, hus⟩ := List.map_eq_cons_iff.mp h.symm
    obtain ⟨ht, hts⟩ := List.nodup_cons.mp hts
    obtain ⟨f, hf, rfl⟩ := ih hts hus.symm
    refine ⟨Function.update f t u, fun x => ?_, ?_⟩
    · by_cases hx : x = t
      · rw [hx, Function.update_self, hu]
      · rw [Function.update_of_ne hx, hf]
    · rw [List.map_cons, Function.update_self]
      refine congrArg (u :: ·) (List.map_congr_left fun x hx => Function.update_of_ne ?_ ..)
      rintro rfl
      exact ht hx

-- ---------------------------------------------------------------------------
-- Trees
-- ---------------------------------------------------------------------------

section

variable {f g : Token → Token}

mutual

theorem Tree.mapTokens_mapTokens :
    (t : Tree) → (t.mapTokens f).mapTokens g = t.mapTokens (g ∘ f)
  | .leaf _ => rfl
  | .node _ children _ => by simp only [mapTokens, mapForest_mapForest children]

theorem Tree.mapForest_mapForest :
    (ts : Forest) → mapForest g (mapForest f ts) = mapForest (g ∘ f) ts
  | [] => rfl
  | t :: ts => by simp only [mapForest, mapTokens_mapTokens t, mapForest_mapForest ts]

end

theorem Moves.unplaced_mapTokens (h : Moves f) (t : Tree) :
    (t.mapTokens f).unplaced = t.unplaced := by
  rw [Tree.unplaced, Tree.mapTokens_mapTokens, h.unplaced_comp, Tree.unplaced]

end

mutual

theorem Tree.lines_unplaced (style : OutlineStyle) (depth : Nat) : (t : Tree) →
    (t.unplaced.outlineRowsAt depth).map (Outline.Row.line style) =
      (t.outlineRowsAt depth).map (Outline.Row.line style)
  | .leaf token => by cases style <;> rfl
  | .node rule children _ => by
    simp only [unplaced, mapTokens, outlineRowsAt]
    split
    · exact forestLines_unplaced style depth children
    · exact congrArg (_ :: ·) (forestLines_unplaced style (depth + 1) children)

theorem Tree.forestLines_unplaced (style : OutlineStyle) (depth : Nat) : (ts : Forest) →
    (forestRowsAt depth (mapForest Token.unplaced ts)).map (Outline.Row.line style) =
      (forestRowsAt depth ts).map (Outline.Row.line style)
  | [] => rfl
  | t :: ts => by
    have ht := lines_unplaced style depth t
    have hts := forestLines_unplaced style depth ts
    simp only [mapForest, forestRowsAt, List.map_append]
    exact congrArg₂ (· ++ ·) ht hts

end

mutual

theorem Graph.below_unplaced (parent? : Option NodeId) (next : Nat) : (t : Tree) →
    below parent? next t.unplaced = below parent? next t
  | .leaf _ => rfl
  | .node rule children _ => by
    simp only [Tree.unplaced, Tree.mapTokens, below, forestBelow_unplaced _ _ children]

theorem Graph.forestBelow_unplaced (parent? : Option NodeId) (next : Nat) : (ts : Forest) →
    forestBelow parent? next (Tree.mapForest Token.unplaced ts) = forestBelow parent? next ts
  | [] => rfl
  | t :: ts => by
    have ht := below_unplaced parent? next t
    rw [Tree.unplaced] at ht
    simp only [Tree.mapForest, forestBelow, ht, forestBelow_unplaced _ _ ts]

end

theorem Tree.outline_unplaced (style : OutlineStyle) (t : Tree) :
    t.unplaced.outline style = t.outline style :=
  lines_unplaced style 0 t

theorem Graph.ofTree?_unplaced (t? : Option Tree) :
    ofTree? (t?.map Tree.unplaced) = ofTree? t? := by
  cases t? with
  | none => rfl
  | some t => exact congrArg Prod.fst (below_unplaced none 0 t)

-- ---------------------------------------------------------------------------
-- Symbol tables
-- ---------------------------------------------------------------------------

def Symbol.SameButPlace (s s' : Symbol) : Prop :=
  s' = { s with line := s'.line, column := s'.column }

theorem eraseDupsBy_map {same : α → α → Bool} {f : α → α}
    (hf : ∀ a b, same (f a) (f b) = same a b) :
    (as : List α) → (as.map f).eraseDupsBy same = (as.eraseDupsBy same).map f
  | [] => rfl
  | a :: as => by
    have hkept : (as.map f).filter (fun b => same b (f a) = false) =
        (as.filter fun b => same b a = false).map f := by
      rw [List.filter_map]
      exact congrArg _ (List.filter_congr fun b _ => by simp [hf])
    rw [List.map_cons, List.eraseDupsBy_cons, hkept, eraseDupsBy_map hf, ← List.map_cons,
      ← List.eraseDupsBy_cons]
termination_by as => as.length
decreasing_by exact Nat.lt_succ_of_le (List.length_filter_le ..)

theorem Moves.firstSymbols_map (h : Moves f) (ts : List Token) :
    firstSymbols (ts.map f) = (firstSymbols ts).map f := by
  have hkind : (fun t : Token => t.kind.isSymbol) ∘ f = fun t => t.kind.isSymbol := by
    funext t
    simp [h.kind]
  rw [firstSymbols, List.filter_map, hkind, eraseDupsBy_map, firstSymbols]
  intro t u
  rw [h.text, h.text]

theorem Moves.sameButPlace_symbolTable (h : Moves f) (ts : List Token) :
    List.Forall₂ Symbol.SameButPlace (symbolTable ts) (symbolTable (ts.map f)) := by
  rw [symbolTable, symbolTable, h.firstSymbols_map, List.zipIdx_map, List.map_map,
    List.forall₂_map_left_iff, List.forall₂_map_right_iff, List.forall₂_same]
  rintro ⟨t, id⟩ -
  simp [Symbol.SameButPlace, Symbol.ofToken, Token.length, h.kind, h.text]

theorem sameButPlace_symbolTable_of_lexeme_eq (hts : ts.Nodup)
    (h : ts.map Token.lexeme = us.map Token.lexeme) :
    List.Forall₂ Symbol.SameButPlace (symbolTable ts) (symbolTable us) := by
  obtain ⟨f, hf, rfl⟩ := exists_moves hts h
  exact hf.sameButPlace_symbolTable ts

-- ---------------------------------------------------------------------------
-- Parses
-- ---------------------------------------------------------------------------

inductive Fault.SameIndex (ts us : List Token) : Fault → Fault → Prop
  | unexpected (i : Nat) : ts[i]? = some t → us[i]? = some u →
      SameIndex ts us (.unexpected t) (.unexpected u)
  | endOfInput : SameIndex ts us .endOfInput .endOfInput

theorem exists_parse_of_lexeme_eq (hts : ts.Nodup) (hus : us.Nodup)
    (h : ts.map Token.lexeme = us.map Token.lexeme) (hp : parse limit ts = .ok p) :
    ∃ q, parse limit us = .ok q ∧ p.tree.unplaced = q.tree.unplaced ∧
      List.Forall₂ (Fault.SameIndex ts us) p.faults q.faults := by
  obtain ⟨f, hf, rfl⟩ := exists_moves hts h
  obtain ⟨q, hq, htree, hfaults⟩ := parse_map hf.kind hp
  refine ⟨q, hq, by rw [htree, hf.unplaced_mapTokens], ?_⟩
  -- different tokens go to different tokens, since those of the other line have different places
  have hinj : Set.InjOn f {t | t ∈ ts} := List.inj_on_of_nodup_map hus
  rw [hfaults hinj, List.forall₂_map_right_iff, List.forall₂_same]
  intro fault hfault
  cases fault with
  | unexpected t =>
    obtain ⟨i, hi⟩ := List.mem_iff_getElem?.mp (mem_of_unexpected hp hfault)
    exact .unexpected i hi (by simp [hi])
  | endOfInput => exact .endOfInput

-- ---------------------------------------------------------------------------
-- Analyses
-- ---------------------------------------------------------------------------

namespace LineAnalysis

def SameFaults (a b : LineAnalysis) : Prop :=
  ∀ t u, a.tree? = some t → b.tree? = some u → ∃ p q,
    parse defaultNestingLimit a.tokens = .ok p ∧ p.tree = t ∧
      parse defaultNestingLimit b.tokens = .ok q ∧ q.tree = u ∧
      List.Forall₂ (Fault.SameIndex a.tokens b.tokens) p.faults q.faults

/-- Two analyses that are alike apart from places. Either both have a tree or neither has one. -/
structure SameButPlaces (a b : LineAnalysis) : Prop where
  accepted : a.accepted = b.accepted
  tree : a.tree?.map Tree.unplaced = b.tree?.map Tree.unplaced
  outline : ∀ style, a.outline style = b.outline style
  graph : a.graph = b.graph
  mermaid : a.graph.mermaid = b.graph.mermaid
  symbols : List.Forall₂ Symbol.SameButPlace a.symbols b.symbols
  faults : a.SameFaults b

variable {a b : LineAnalysis}

theorem outline_unplaced (a : LineAnalysis) (style : OutlineStyle) :
    ((a.tree?.map Tree.unplaced).map (Tree.outline style)).getD [] = a.outline style := by
  rw [Option.map_map, outline]
  exact congrArg (fun f => (a.tree?.map f).getD []) (funext (Tree.outline_unplaced style))

theorem graph_unplaced (a : LineAnalysis) : Graph.ofTree? (a.tree?.map Tree.unplaced) = a.graph :=
  Graph.ofTree?_unplaced a.tree?

theorem sameButPlaces_of_tree (haccepted : a.accepted = b.accepted)
    (htree : a.tree?.map Tree.unplaced = b.tree?.map Tree.unplaced)
    (hsymbols : List.Forall₂ Symbol.SameButPlace a.symbols b.symbols) (hfaults : a.SameFaults b) :
    a.SameButPlaces b := by
  have hgraph : a.graph = b.graph := by rw [← graph_unplaced, htree, graph_unplaced]
  refine ⟨haccepted, htree, fun style => ?_, hgraph, congrArg _ hgraph, hsymbols, hfaults⟩
  rw [← outline_unplaced, htree, outline_unplaced]

end LineAnalysis

theorem accepted_eq_of_lexeme_eq (number number' : Nat) (h : (scan (Text.trim line)).errors = [])
    (h' : (scan (Text.trim line')).errors = [])
    (hlexeme : (scan (Text.trim line)).tokens.map Token.lexeme =
      (scan (Text.trim line')).tokens.map Token.lexeme) :
    (analyzeLine line number).accepted = (analyzeLine line' number').accepted := by
  have hkinds : (scan (Text.trim line)).tokens.map Token.kind =
      (scan (Text.trim line')).tokens.map Token.kind := by
    simpa [Function.comp_def, Token.lexeme] using congrArg (List.map Prod.fst) hlexeme
  rw [Bool.eq_iff_iff, accepted_iff_kinds h, accepted_iff_kinds h', hkinds]

/-- The analyses of two lines with the same lexemes differ in nothing but places. -/
theorem sameButPlaces_of_lexeme_eq (h : (scan (Text.trim line)).errors = [])
    (h' : (scan (Text.trim line')).errors = [])
    (hlexeme : (scan (Text.trim line)).tokens.map Token.lexeme =
      (scan (Text.trim line')).tokens.map Token.lexeme) :
    (analyzeLine line number).SameButPlaces (analyzeLine line' number') := by
  have hnodup := (Scan.placedCut h).nodup
  have hnodup' := (Scan.placedCut h').nodup
  have haccepted := accepted_eq_of_lexeme_eq number number' h h' hlexeme
  have hsymbols := sameButPlace_symbolTable_of_lexeme_eq hnodup hlexeme
  cases hp : parse defaultNestingLimit (scan (Text.trim line)).tokens with
  | error e =>
    cases hq : parse defaultNestingLimit (scan (Text.trim line')).tokens with
    | error e' =>
      refine LineAnalysis.sameButPlaces_of_tree haccepted ?_ ?_ ?_
      · rw [analyzeLine_of_error h hp, analyzeLine_of_error h' hq]
      · rwa [analyzeLine_of_error h hp, analyzeLine_of_error h' hq]
      · rw [analyzeLine_of_error h hp]
        exact nofun
    | ok q =>
      obtain ⟨p, hp', -⟩ := exists_parse_of_lexeme_eq hnodup' hnodup hlexeme.symm hq
      cases hp.symm.trans hp'
  | ok p =>
    obtain ⟨q, hq, htree, hfaults⟩ := exists_parse_of_lexeme_eq hnodup hnodup' hlexeme hp
    refine LineAnalysis.sameButPlaces_of_tree haccepted ?_ ?_ ?_
    · rw [analyzeLine_of_ok h hp, analyzeLine_of_ok h' hq]
      exact congrArg some htree
    · rwa [analyzeLine_of_ok h hp, analyzeLine_of_ok h' hq]
    · rw [analyzeLine_of_ok h hp, analyzeLine_of_ok h' hq]
      rintro t u ⟨⟩ ⟨⟩
      exact ⟨p, q, hp, rfl, hq, rfl, hfaults⟩

/-- The first of these lines has operators side by side, the second one does not. -/
theorem sameButPlaces_spaced :
    (scan (Text.trim "5++ 3")).errors = [] ∧ (scan (Text.trim " 5 + + 3")).errors = [] ∧
      (scan (Text.trim "5++ 3")).tokens.map Token.lexeme =
        (scan (Text.trim " 5 + + 3")).tokens.map Token.lexeme ∧
      (analyzeLine "5++ 3" 1).SameButPlaces (analyzeLine " 5 + + 3" 2) := by
  have h : (scan (Text.trim "5++ 3")).errors = [] := by decide +kernel
  have h' : (scan (Text.trim " 5 + + 3")).errors = [] := by decide +kernel
  have hlexeme : (scan (Text.trim "5++ 3")).tokens.map Token.lexeme =
      (scan (Text.trim " 5 + + 3")).tokens.map Token.lexeme := by decide +kernel
  exact ⟨h, h', hlexeme, sameButPlaces_of_lexeme_eq h h' hlexeme⟩

end FormulaCheck
