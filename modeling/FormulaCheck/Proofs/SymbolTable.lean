import FormulaCheck.SymbolTable
import Mathlib.Data.List.Induction
import Mathlib.Data.List.Nodup
import Mathlib.Data.List.Perm.Basic

/-!
# Symbol tables list first occurrences

`ListsFirst` says what the rows of a symbol table are: each text of a number or name once, in the
order of the first occurrences, with the place of its first occurrence. Only one list of rows is so
(`ListsFirst.unique`), and the symbol table is it (`listsFirst_symbolTable`). A token that comes
behind the others adds one row behind the others or none (`symbolTable_concat`), so that the table
of the tokens so far begins every longer one.
-/

namespace FormulaCheck

-- ---------------------------------------------------------------------------
-- What a symbol table is
-- ---------------------------------------------------------------------------

def symbolTexts (tokens : List Token) : List String :=
  (tokens.filter (·.kind.isSymbol)).map Token.text

def firstSymbol? (tokens : List Token) (text : String) : Option Token :=
  tokens.find? fun t => t.kind.isSymbol && t.text == text

structure Symbol.IsFor (s : Symbol) (t : Token) : Prop where
  lexeme : s.lexeme = t.text
  kind : s.kind = t.kind
  line : s.line = t.startLine
  column : s.column = t.startColumn
  length : s.length = t.text.length
  scope : s.scope = "global"

/-- The rows list every text of a number or name, each for the first token with it. They are in the
order of these tokens, so that no text is listed twice, and numbered from 1. -/
structure ListsFirst (tokens : List Token) (rows : List Symbol) : Prop where
  mem_lexemes_iff : ∀ text, text ∈ rows.map Symbol.lexeme ↔ text ∈ symbolTexts tokens
  ordered : (rows.map Symbol.lexeme).Pairwise fun text text' =>
    (symbolTexts tokens).idxOf text < (symbolTexts tokens).idxOf text'
  isFor_first : ∀ s ∈ rows, ∃ t, firstSymbol? tokens s.lexeme = some t ∧ s.IsFor t
  ids : rows.map Symbol.id = List.range' 1 rows.length

variable {tokens : List Token} {rows rows' : List Symbol} {t : Token} {s s' : Symbol}

theorem Symbol.isFor_ofToken (t : Token) (id : Nat) : (ofToken t id).IsFor t :=
  ⟨rfl, rfl, rfl, rfl, rfl, rfl⟩

theorem Symbol.IsFor.eq (h : s.IsFor t) (h' : s'.IsFor t) (hid : s.id = s'.id) : s = s' := by
  obtain ⟨⟩ := s
  obtain ⟨⟩ := s'
  obtain ⟨rfl, rfl, rfl, rfl, rfl, rfl⟩ := h
  obtain ⟨hlexeme, hkind, hline, hcolumn, hlength, hscope⟩ := h'
  simp_all

-- ---------------------------------------------------------------------------
-- Only one list of rows
-- ---------------------------------------------------------------------------

namespace ListsFirst

theorem nodup_lexemes (h : ListsFirst tokens rows) : (rows.map Symbol.lexeme).Nodup :=
  h.ordered.imp fun hlt => by
    rintro rfl
    exact Nat.lt_irrefl _ hlt

theorem lexemes_unique (h : ListsFirst tokens rows) (h' : ListsFirst tokens rows') :
    rows.map Symbol.lexeme = rows'.map Symbol.lexeme := by
  have hperm : (rows.map Symbol.lexeme).Perm (rows'.map Symbol.lexeme) :=
    (List.perm_ext_iff_of_nodup h.nodup_lexemes h'.nodup_lexemes).mpr fun text =>
      (h.mem_lexemes_iff text).trans (h'.mem_lexemes_iff text).symm
  refine hperm.eq_of_pairwise ?_ h.ordered h'.ordered
  exact fun _ _ _ _ hlt hgt => absurd hgt (Nat.lt_asymm hlt)

theorem unique (h : ListsFirst tokens rows) (h' : ListsFirst tokens rows') : rows = rows' := by
  have hlexemes := h.lexemes_unique h'
  have hlength : rows.length = rows'.length := by simpa using congrArg List.length hlexemes
  have hids : rows.map Symbol.id = rows'.map Symbol.id := by rw [h.ids, h'.ids, hlength]
  refine List.ext_getElem hlength fun i hi hi' => ?_
  have hlexeme : rows[i].lexeme = rows'[i].lexeme := by
    simpa [hi, hi'] using congrArg (·[i]?) hlexemes
  have hid : rows[i].id = rows'[i].id := by
    simpa [hi, hi'] using congrArg (·[i]?) hids
  obtain ⟨t, hfirst, hrow⟩ := h.isFor_first _ (List.getElem_mem hi)
  obtain ⟨t', hfirst', hrow'⟩ := h'.isFor_first _ (List.getElem_mem hi')
  rw [hlexeme, hfirst'] at hfirst
  cases hfirst
  exact hrow.eq hrow' hid

end ListsFirst

-- ---------------------------------------------------------------------------
-- One more token
-- ---------------------------------------------------------------------------

/-- What comes last is kept exactly if nothing before it has its key. -/
theorem eraseDupsBy_concat [BEq β] [LawfulBEq β] (key : α → β) (a : α) : (as : List α) →
    (as ++ [a]).eraseDupsBy (key · == key ·) =
      as.eraseDupsBy (key · == key ·) ++ if key a ∈ as.map key then [] else [a]
  | [] => by simp [List.eraseDupsBy_cons]
  | b :: as => by
    rw [List.cons_append, List.eraseDupsBy_cons, List.eraseDupsBy_cons, List.filter_append,
      List.cons_append]
    by_cases hab : key a = key b
    · simp [hab]
    · have hkept : key a ∈ (as.filter fun c => (key c == key b) = false).map key ↔
          key a ∈ as.map key := by
        simp only [List.mem_map, List.mem_filter]
        constructor
        · rintro ⟨c, ⟨hc, -⟩, heq⟩
          exact ⟨c, hc, heq⟩
        · rintro ⟨c, hc, heq⟩
          exact ⟨c, ⟨hc, by simpa [heq] using hab⟩, heq⟩
      have hlast : [a].filter (fun c => (key c == key b) = false) = [a] := by simp [hab]
      rw [hlast, eraseDupsBy_concat key a]
      simp only [hkept, List.map_cons, List.mem_cons, hab, false_or]
termination_by as => as.length
decreasing_by exact Nat.lt_succ_of_le (List.length_filter_le ..)

/-- The token is a number or name and the first one with its text, when it comes behind the
others. -/
def Token.IsNew (t : Token) (tokens : List Token) : Prop :=
  t.kind.isSymbol = true ∧ t.text ∉ symbolTexts tokens

instance : Decidable (t.IsNew tokens) := inferInstanceAs (Decidable (_ ∧ _))

theorem symbolTexts_concat (tokens : List Token) (t : Token) : symbolTexts (tokens ++ [t]) =
    symbolTexts tokens ++ if t.kind.isSymbol then [t.text] else [] := by
  by_cases hk : t.kind.isSymbol = true <;> simp [symbolTexts, hk]

theorem firstSymbols_concat (tokens : List Token) (t : Token) : firstSymbols (tokens ++ [t]) =
    firstSymbols tokens ++ if t.IsNew tokens then [t] else [] := by
  by_cases hk : t.kind.isSymbol = true
  · have hlast : [t].filter (·.kind.isSymbol) = [t] := by simp [hk]
    rw [firstSymbols, List.filter_append, hlast, eraseDupsBy_concat Token.text, ← firstSymbols,
      ← symbolTexts]
    by_cases htext : t.text ∈ symbolTexts tokens <;> simp [Token.IsNew, hk, htext]
  · simp [firstSymbols, Token.IsNew, hk]

/-- A token that comes behind the others adds a row behind the others if it is new, and changes
nothing if it is not. -/
theorem symbolTable_concat (tokens : List Token) (t : Token) : symbolTable (tokens ++ [t]) =
    symbolTable tokens ++
      if t.IsNew tokens then [.ofToken t ((symbolTable tokens).length + 1)] else [] := by
  rw [symbolTable, firstSymbols_concat]
  by_cases hnew : t.IsNew tokens
  · simp [hnew, symbolTable, List.zipIdx_append, Nat.add_comm]
  · simp [hnew, symbolTable]

theorem firstSymbol?_concat (tokens : List Token) (t : Token) (text : String) :
    firstSymbol? (tokens ++ [t]) text =
      (firstSymbol? tokens text).or (firstSymbol? [t] text) :=
  List.find?_append

theorem firstSymbol?_eq_none (h : text ∉ symbolTexts tokens) : firstSymbol? tokens text = none := by
  simpa [firstSymbol?, symbolTexts] using h

namespace ListsFirst

theorem concat_of_not_isNew (h : ListsFirst tokens rows) (ht : ¬ t.IsNew tokens) :
    ListsFirst (tokens ++ [t]) rows := by
  have hmem : ∀ text, text ∈ symbolTexts (tokens ++ [t]) ↔ text ∈ symbolTexts tokens := by
    intro text
    rw [symbolTexts_concat]
    by_cases hk : t.kind.isSymbol = true
    · have hlisted : t.text ∈ symbolTexts tokens := by simpa [Token.IsNew, hk] using ht
      simp only [hk, if_true, List.mem_append, List.mem_singleton, or_iff_left_iff_imp]
      exact fun heq => heq ▸ hlisted
    · simp [hk]
  have hidx : ∀ text ∈ rows.map Symbol.lexeme,
      (symbolTexts (tokens ++ [t])).idxOf text = (symbolTexts tokens).idxOf text := by
    intro text htext
    rw [symbolTexts_concat, List.idxOf_append_of_mem ((h.mem_lexemes_iff text).mp htext)]
  refine ⟨fun text => (h.mem_lexemes_iff text).trans (hmem text).symm, ?_, fun s hs => ?_, h.ids⟩
  · refine h.ordered.imp_of_mem fun ha hb hlt => ?_
    rwa [hidx _ ha, hidx _ hb]
  · obtain ⟨u, hfirst, hrow⟩ := h.isFor_first s hs
    exact ⟨u, by rw [firstSymbol?_concat, hfirst, Option.some_or], hrow⟩

theorem concat_of_isNew (h : ListsFirst tokens rows) (ht : t.IsNew tokens) :
    ListsFirst (tokens ++ [t]) (rows ++ [.ofToken t (rows.length + 1)]) := by
  obtain ⟨hk, hnew⟩ := ht
  have htexts : symbolTexts (tokens ++ [t]) = symbolTexts tokens ++ [t.text] := by
    rw [symbolTexts_concat, if_pos hk]
  have hidx : ∀ text ∈ rows.map Symbol.lexeme, (symbolTexts tokens ++ [t.text]).idxOf text =
      (symbolTexts tokens).idxOf text := fun text htext =>
    List.idxOf_append_of_mem ((h.mem_lexemes_iff text).mp htext)
  refine ⟨fun text => ?_, ?_, fun s hs => ?_, ?_⟩
  · rw [htexts, List.map_append, List.mem_append, List.mem_append, h.mem_lexemes_iff]
    rfl
  · rw [htexts, List.map_append, List.pairwise_append]
    refine ⟨?_, List.pairwise_singleton .., fun text htext text' htext' => ?_⟩
    · refine h.ordered.imp_of_mem fun ha hb hlt => ?_
      rwa [hidx _ ha, hidx _ hb]
    · obtain rfl : text' = t.text := List.mem_singleton.mp htext'
      rw [hidx _ htext, List.idxOf_append_of_notMem hnew]
      exact Nat.lt_add_right _ (List.idxOf_lt_length_of_mem ((h.mem_lexemes_iff text).mp htext))
  · rw [firstSymbol?_concat]
    rcases List.mem_append.mp hs with hs | hs
    · obtain ⟨u, hfirst, hrow⟩ := h.isFor_first s hs
      exact ⟨u, by rw [hfirst, Option.some_or], hrow⟩
    · obtain rfl := List.mem_singleton.mp hs
      refine ⟨t, ?_, Symbol.isFor_ofToken t _⟩
      have hlast : firstSymbol? [t] t.text = some t := by simp [firstSymbol?, hk]
      exact (congrArg (Option.or · _) (firstSymbol?_eq_none hnew)).trans hlast
  · rw [List.map_append, h.ids, List.length_append, List.length_singleton, List.range'_1_concat,
      Nat.add_comm 1]
    rfl

end ListsFirst

theorem listsFirst_symbolTable (tokens : List Token) : ListsFirst tokens (symbolTable tokens) := by
  induction tokens using List.reverseRecOn with
  | nil =>
    exact ⟨by simp [symbolTable, firstSymbols, symbolTexts], .nil, List.forall_mem_nil _, rfl⟩
  | append_singleton tokens t ih =>
    rw [symbolTable_concat]
    by_cases ht : t.IsNew tokens
    · rw [if_pos ht]
      exact ih.concat_of_isNew ht
    · rw [if_neg ht, List.append_nil]
      exact ih.concat_of_not_isNew ht

theorem symbolTable_isPrefix_append (tokens more : List Token) :
    symbolTable tokens <+: symbolTable (tokens ++ more) := by
  induction more using List.reverseRecOn with
  | nil => exact (List.append_nil tokens).symm ▸ List.prefix_rfl
  | append_singleton more t ih =>
    rw [← List.append_assoc, symbolTable_concat]
    exact ih.trans (List.prefix_append ..)

/-- The symbol table is the one list of rows for the first occurrences, and that of some tokens
begins the one of these and more tokens. -/
theorem symbolTable_firstOccurrences (tokens : List Token) :
    (∀ rows, symbolTable tokens = rows ↔ ListsFirst tokens rows) ∧
      ∀ more, symbolTable tokens <+: symbolTable (tokens ++ more) := by
  refine ⟨fun rows => ⟨?_, fun hrows => ?_⟩, symbolTable_isPrefix_append tokens⟩
  · rintro rfl
    exact listsFirst_symbolTable tokens
  · exact (listsFirst_symbolTable tokens).unique hrows

/-- A text that occurs as a number and as a name has one row, which is for the first of the two. -/
example : symbolTable [⟨.name, "a", 1, 3, 1, 3⟩, ⟨.plus, "+", 1, 4, 1, 4⟩,
    ⟨.number, "a", 1, 5, 1, 5⟩, ⟨.number, "20", 1, 7, 1, 8⟩] =
      [⟨1, "a", .name, 1, 3, 1, "global"⟩, ⟨2, "20", .number, 1, 7, 2, "global"⟩] := by
  decide

end FormulaCheck
