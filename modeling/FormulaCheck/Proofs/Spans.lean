import FormulaCheck.Proofs.Scan.Longest
import Mathlib.Data.List.Nodup

/-!
# Spans of tokens

`Text.charAt?` reads a text by line and column. Read in this way, the spans of the tokens and the
places of the errors that a scan finds divide the text among them: each holds what it says, no two
share a character, and only blanks are left (`scan_partitions`).

The proof goes through `Position.marks`, the characters of a text with their places as a walk over
the text meets them: the spans of a scan are, up to their order, the marks that are not blank
(`Scan.flatten_spans_perm`).
-/

namespace FormulaCheck

-- ---------------------------------------------------------------------------
-- Reading by line and column
-- ---------------------------------------------------------------------------

namespace Text

def afterFeeds : Nat → List Char → List Char
  | 0, cs => cs
  | _ + 1, [] => []
  | n + 1, c :: cs => if c = '\n' then afterFeeds n cs else afterFeeds (n + 1) cs

/-- The character at a place: in the line after as many line feeds as there are lines before, and
there in the column. The last character of a line is the line feed that ends it. -/
def charAt? (cs : List Char) : Position → Option Char
  | ⟨line + 1, column + 1⟩ =>
    let onwards := afterFeeds line cs
    if '\n' ∈ onwards.take column then none else onwards[column]?
  | _ => none

theorem afterFeeds_add (m n : Nat) (cs : List Char) :
    afterFeeds (m + n) cs = afterFeeds n (afterFeeds m cs) := by
  fun_induction afterFeeds m cs with
  | case1 => simp
  | case2 => cases n <;> simp [afterFeeds]
  | case3 m cs ih => simpa [Nat.add_right_comm _ 1, afterFeeds] using ih
  | case4 m c cs hc ih => simpa [Nat.add_right_comm _ 1, afterFeeds, hc] using ih

theorem afterFeeds_one_append (h : '\n' ∉ line) : afterFeeds 1 (line ++ '\n' :: cs) = cs := by
  induction line with
  | nil => simp [afterFeeds]
  | cons c line ih =>
    rw [List.mem_cons, not_or] at h
    simp [afterFeeds, Ne.symm h.1, ih h.2]

end Text

namespace Position

theorem advanceBy_concat (p : Position) (cs : List Char) (c : Char) :
    p.advanceBy (cs ++ [c]) = (p.advanceBy cs).advance c := advanceBy_append p cs [c]

/-- The place after some characters is so far into the line that they leave open. -/
theorem exists_openLine (before : List Char) : ∃ n line, '\n' ∉ line ∧
    origin.advanceBy before = ⟨n + 1, line.length + 1⟩ ∧
    ∀ cs, Text.afterFeeds n (before ++ cs) = line ++ cs := by
  induction before using List.reverseRecOn with
  | nil => exact ⟨0, [], by simp, rfl, fun cs => by simp [Text.afterFeeds]⟩
  | append_singleton before c ih =>
    obtain ⟨n, line, hline, hplace, hafter⟩ := ih
    rw [advanceBy_concat, hplace]
    by_cases hc : c = '\n'
    · refine ⟨n + 1, [], by simp, by simp [advance, hc], fun cs => ?_⟩
      rw [Text.afterFeeds_add, List.append_assoc, hafter, hc]
      exact Text.afterFeeds_one_append hline
    · refine ⟨n, line ++ [c], by simp [hline, Ne.symm hc], by simp [advance, hc], fun cs => ?_⟩
      simp [hafter]

theorem exists_afterFeeds (p : Position) (h : Text.afterFeeds n cs ≠ []) :
    ∃ lead, cs = lead ++ Text.afterFeeds n cs ∧
      p.advanceBy lead = ⟨p.line + n, if n = 0 then p.column else 1⟩ := by
  fun_induction Text.afterFeeds n cs generalizing p with
  | case1 cs => exact ⟨[], by simp⟩
  | case2 => exact absurd rfl h
  | case3 n cs ih =>
    obtain ⟨lead, hcs, hplace⟩ := ih (p.advance '\n') h
    refine ⟨'\n' :: lead, by rw [List.cons_append, ← hcs], ?_⟩
    rw [advanceBy_cons, hplace]
    simp [advance, Nat.add_assoc, Nat.add_comm 1]
  | case4 n c cs hc ih =>
    obtain ⟨lead, hcs, hplace⟩ := ih (p.advance c) h
    refine ⟨c :: lead, by rw [List.cons_append, ← hcs], ?_⟩
    rw [advanceBy_cons, hplace]
    simp [advance, hc]

-- ---------------------------------------------------------------------------
-- Marks
-- ---------------------------------------------------------------------------

/-- The characters of a text that begins at a place, each with its own place. -/
def marks (p : Position) : List Char → List (Position × Char)
  | [] => []
  | c :: cs => (p, c) :: (p.advance c).marks cs

theorem marks_append (p : Position) (cs ds : List Char) :
    p.marks (cs ++ ds) = p.marks cs ++ (p.advanceBy cs).marks ds := by
  induction cs generalizing p with
  | nil => rfl
  | cons c cs ih => simp [marks, ih]

@[simp] theorem marks_snd (p : Position) (cs : List Char) : (p.marks cs).map Prod.snd = cs := by
  induction cs generalizing p with
  | nil => rfl
  | cons c cs ih => simp [marks, ih]

theorem mem_marks_iff : (q, c) ∈ marks p cs ↔
    ∃ before after, cs = before ++ c :: after ∧ q = p.advanceBy before := by
  constructor
  · intro h
    induction cs generalizing p with
    | nil => cases h
    | cons d cs ih =>
      rcases List.mem_cons.mp h with h | h
      · cases h
        exact ⟨[], cs, rfl, rfl⟩
      · obtain ⟨before, after, rfl, rfl⟩ := ih h
        exact ⟨d :: before, after, rfl, rfl⟩
  · rintro ⟨before, after, rfl, rfl⟩
    simp [marks_append, marks]

theorem snd_mem_of_mem_marks (h : (q, c) ∈ marks p cs) : c ∈ cs :=
  p.marks_snd cs ▸ List.mem_map_of_mem h

theorem Precedes.advanceBy (h : Precedes q p) (cs : List Char) : q.Precedes (p.advanceBy cs) := by
  rcases eq_or_ne cs [] with rfl | hcs
  · exact h
  · exact h.trans (precedes_advanceBy hcs)

theorem marks_of_not_mem (h : '\n' ∉ cs) (p : Position) :
    p.marks cs = (cs.zipIdx p.column).map fun (c, column) => (⟨p.line, column⟩, c) := by
  induction cs generalizing p with
  | nil => rfl
  | cons c cs ih =>
    rw [List.mem_cons, not_or] at h
    simp [marks, ih h.2, advance, Ne.symm h.1]

theorem pairwise_marks (p : Position) (cs : List Char) :
    (p.marks cs).Pairwise fun m m' => m.1.Precedes m'.1 := by
  induction cs generalizing p with
  | nil => exact .nil
  | cons c cs ih =>
    refine .cons ?_ (ih _)
    rintro ⟨q, d⟩ hmem
    obtain ⟨before, after, -, rfl⟩ := mem_marks_iff.mp hmem
    exact (p.precedes_advance c).advanceBy before

theorem nodup_marks_fst (p : Position) (cs : List Char) : ((p.marks cs).map Prod.fst).Nodup :=
  (List.pairwise_map.mpr (p.pairwise_marks cs)).imp Precedes.ne

/-- The marks of a text are what one reads in it by line and column. -/
theorem charAt?_eq_some_iff : Text.charAt? cs q = some c ↔ (q, c) ∈ origin.marks cs := by
  rw [mem_marks_iff]
  constructor
  · intro h
    unfold Text.charAt? at h
    split at h
    · next line column =>
      simp only [Option.ite_none_left_eq_some] at h
      obtain ⟨hline, hc⟩ := h
      obtain ⟨hlt, rfl⟩ := List.getElem?_eq_some_iff.mp hc
      obtain ⟨lead, hcs, hplace⟩ := exists_afterFeeds origin (List.ne_nil_of_length_pos
        (Nat.lt_of_le_of_lt (Nat.zero_le _) hlt))
      have hstart : origin.advanceBy lead = ⟨line + 1, 1⟩ := by
        rw [hplace]
        simp [origin, Nat.add_comm]
      refine ⟨lead ++ (Text.afterFeeds line cs).take column,
        (Text.afterFeeds line cs).drop (column + 1), ?_, ?_⟩
      · rw [List.append_assoc, ← List.drop_eq_getElem_cons hlt, List.take_append_drop, ← hcs]
      · rw [advanceBy_append, hstart, advanceBy_of_not_mem hline, List.length_take,
          Nat.min_eq_left hlt.le, Nat.add_comm 1]
    · cases h
  · rintro ⟨before, after, rfl, rfl⟩
    obtain ⟨n, line, hline, hplace, hafter⟩ := exists_openLine before
    rw [hplace, Text.charAt?, hafter]
    simp [hline]

end Position

-- ---------------------------------------------------------------------------
-- Spans
-- ---------------------------------------------------------------------------

def Token.span (t : Token) : List Position :=
  (List.range' t.startColumn (t.endColumn + 1 - t.startColumn)).map (⟨t.startLine, ·⟩)

/-- The spans of the tokens, and the places of the errors as spans of one character. -/
def Scan.spans (s : Scan) : List (List Position) :=
  s.tokens.map Token.span ++ s.errors.map fun e => [e.place]

theorem marks_fst_of_not_mem (h : '\n' ∉ cs) (p : Position) :
    (p.marks cs).map Prod.fst = (List.range' p.column cs.length).map (⟨p.line, ·⟩) := by
  rw [Position.marks_of_not_mem h, List.map_map, ← List.zipIdx_map_snd, List.map_map]
  rfl

theorem IsLexeme.span_ofLexeme (h : IsLexeme k l) (p : Position) :
    (Token.ofLexeme k l p).span = (p.marks l).map Prod.fst := by
  have hfeed : '\n' ∉ l := fun hmem => nomatch h.isBlank_eq_false hmem
  have hlength : p.column + (l.length - 1) + 1 - p.column = l.length := by
    have := List.length_pos_iff.mpr h.ne_nil
    omega
  simp only [Token.span, Token.ofLexeme, hlength, marks_fst_of_not_mem hfeed]

theorem IsLexeme.precedes_advanceBy (h : IsLexeme k l) (p : Position) :
    (Token.ofLexeme k l p).stop.Precedes (p.advanceBy l) := by
  have hpos := List.length_pos_iff.mpr h.ne_nil
  rw [h.advanceBy]
  exact .inr ⟨rfl, Nat.add_lt_add_left (Nat.sub_one_lt hpos.ne') _⟩

namespace Scan

theorem exists_of_mem_tokens (h : t ∈ (ofChars p cs).tokens) :
    ∃ before k l after, cs = before ++ (l ++ after) ∧ IsLexeme k l ∧
      t = .ofLexeme k l (p.advanceBy before) := by
  obtain ⟨before, l, after, hreaches, hl, ht⟩ :=
    exists_reaches_of_mem_tokens (scansTo_ofChars p cs) h
  exact ⟨before, t.kind, l, after, hreaches.eq_append, hl.isLexeme, ht⟩

theorem mem_marks_of_mem_errors (h : e ∈ (ofChars p cs).errors) :
    (e.place, e.char) ∈ p.marks cs := by
  obtain ⟨before, after, hreaches, -, -, hplace⟩ :=
    exists_reaches_of_mem_errors (scansTo_ofChars p cs) h
  exact Position.mem_marks_iff.mpr ⟨before, after, hreaches.eq_append, hplace⟩

theorem precedes_start_of_mem (h : t ∈ (ofChars p cs).tokens) (hq : Position.Precedes q p) :
    q.Precedes t.start := by
  obtain ⟨before, k, l, after, -, -, rfl⟩ := exists_of_mem_tokens h
  exact hq.advanceBy before

-- The inductions below follow the scan: at its head a text has a blank, a lexeme or an error.

theorem pairwise_tokens (p : Position) (cs : List Char) :
    (ofChars p cs).tokens.Pairwise fun t t' => t.stop.Precedes t'.start := by
  fun_induction ofChars p cs with
  | case1 => exact .nil
  | case2 p c cs _ ih => exact ih
  | case3 p c cs _ l hl rest ih =>
    have hlexeme := (Lexeme.longest?_sound hl).1
    refine .cons (fun t ht => ?_) ih
    exact precedes_start_of_mem ht (hlexeme.advanceBy p ▸ hlexeme.precedes_advanceBy p)
  | case4 p c cs _ _ rest ih => exact ih

theorem pairwise_errors (p : Position) (cs : List Char) :
    (ofChars p cs).errors.Pairwise fun e e' => e.place.Precedes e'.place := by
  fun_induction ofChars p cs with
  | case1 => exact .nil
  | case2 p c cs _ ih => exact ih
  | case3 p c cs _ l hl rest ih => exact ih
  | case4 p c cs _ _ rest ih =>
    refine .cons (fun e he => ?_) ih
    obtain ⟨before, -, -, hplace⟩ := Position.mem_marks_iff.mp (mem_marks_of_mem_errors he)
    exact hplace ▸ (p.precedes_advance c).advanceBy before

theorem flatten_spans_perm (p : Position) (cs : List Char) :
    (ofChars p cs).spans.flatten.Perm
      (((p.marks cs).filter fun m => !isBlank m.2).map Prod.fst) := by
  fun_induction ofChars p cs with
  | case1 => exact .refl _
  | case2 p c cs hblank ih => simpa [Position.marks, hblank] using ih
  | case3 p c cs _ l hl rest ih =>
    obtain ⟨hlexeme, hcs⟩ := Lexeme.longest?_sound hl
    have hink : (p.marks l.chars).filter (fun m => !isBlank m.2) = p.marks l.chars := by
      rw [List.filter_eq_self]
      rintro ⟨q, d⟩ hmem
      simp [hlexeme.isBlank_eq_false (Position.snd_mem_of_mem_marks hmem)]
    rw [hcs, Position.marks_append, List.filter_append, hink, List.map_append, hlexeme.advanceBy,
      ← hlexeme.span_ofLexeme]
    exact ih.append_left _
  | case4 p c cs hblank _ rest ih =>
    have hmarks : ((p.marks (c :: cs)).filter fun m => !isBlank m.2).map Prod.fst =
        p :: (((p.advance c).marks cs).filter fun m => !isBlank m.2).map Prod.fst := by
      simp [Position.marks, hblank]
    rw [hmarks]
    simp only [spans, List.map_cons, List.flatten_append, List.flatten_cons, List.singleton_append]
    refine List.perm_middle.trans (.cons p ?_)
    simpa [spans] using ih

theorem nodup_flatten_spans (p : Position) (cs : List Char) :
    (ofChars p cs).spans.flatten.Nodup := by
  refine (flatten_spans_perm p cs).nodup_iff.mpr ((p.nodup_marks_fst cs).sublist ?_)
  exact List.filter_sublist.map _

structure Partitions (s : Scan) (cs : List Char) : Prop where
  token_line : ∀ t ∈ s.tokens, t.endLine = t.startLine
  token_holds : ∀ t ∈ s.tokens, t.span.map (Text.charAt? cs) = t.text.toList.map some
  error_holds : ∀ e ∈ s.errors, Text.charAt? cs e.place = some e.char
  spans_disjoint : s.spans.Pairwise List.Disjoint
  tokens_ordered : s.tokens.Pairwise fun t t' => t.stop.Precedes t'.start
  errors_ordered : s.errors.Pairwise fun e e' => e.place.Precedes e'.place
  blank_iff : ∀ p c, Text.charAt? cs p = some c →
    (isBlank c = true ↔ ∀ span ∈ s.spans, p ∉ span)

theorem token_holds_of_mem (h : t ∈ (ofChars .origin cs).tokens) :
    t.span.map (Text.charAt? cs) = t.text.toList.map some := by
  obtain ⟨before, k, l, after, rfl, hlexeme, rfl⟩ := exists_of_mem_tokens h
  have hread : ∀ m ∈ (Position.origin.advanceBy before).marks l,
      Text.charAt? (before ++ (l ++ after)) m.1 = some m.2 := by
    intro m hm
    rw [Position.charAt?_eq_some_iff, Position.marks_append, Position.marks_append]
    exact List.mem_append_right _ (List.mem_append_left _ hm)
  rw [hlexeme.span_ofLexeme, List.map_map]
  calc ((Position.origin.advanceBy before).marks l).map (Text.charAt? _ ∘ Prod.fst)
      = ((Position.origin.advanceBy before).marks l).map (some ∘ Prod.snd) :=
        List.map_congr_left hread
    _ = l.map some := by rw [← List.map_map, Position.marks_snd]
    _ = (Token.ofLexeme k l _).text.toList.map some := by simp [Token.ofLexeme]

theorem blank_iff_of_charAt? (h : Text.charAt? cs p = some c) :
    isBlank c = true ↔ ∀ span ∈ (ofChars .origin cs).spans, p ∉ span := by
  have hmark := Position.charAt?_eq_some_iff.mp h
  have hmem : p ∈ (ofChars .origin cs).spans.flatten ↔ isBlank c = false := by
    rw [(flatten_spans_perm .origin cs).mem_iff, List.mem_map]
    constructor
    · rintro ⟨⟨q, d⟩, hd, rfl⟩
      obtain ⟨hd, hblank⟩ := List.mem_filter.mp hd
      cases h.symm.trans (Position.charAt?_eq_some_iff.mpr hd)
      simpa using hblank
    · intro hblank
      exact ⟨(p, c), List.mem_filter.mpr ⟨hmark, by simp [hblank]⟩, rfl⟩
  rw [← Bool.not_eq_false, ← hmem, List.mem_flatten]
  simp

end Scan

/-- The tokens and errors of a scan divide the text exactly: what one reads at their places is what
they say, they share no character, and what none of them takes is blank. -/
theorem scan_partitions (text : String) : (scan text).Partitions text.toList where
  token_line t ht := by
    obtain ⟨before, k, l, after, -, -, rfl⟩ := Scan.exists_of_mem_tokens ht
    rfl
  token_holds _ ht := Scan.token_holds_of_mem ht
  error_holds _ he := Position.charAt?_eq_some_iff.mpr (Scan.mem_marks_of_mem_errors he)
  spans_disjoint := (List.nodup_flatten.mp (Scan.nodup_flatten_spans ..)).2
  tokens_ordered := Scan.pairwise_tokens ..
  errors_ordered := Scan.pairwise_errors ..
  blank_iff _ _ h := Scan.blank_iff_of_charAt? h

end FormulaCheck
