import FormulaCheck.Proofs.Places

/-!
# Scans take the longest lexemes

Of all lexemes that a text begins with, a scan takes the longest one. `LongestLexeme` says which one
this is by the characters that lexemes are made of, without saying how it is found: what looks like
the end of a number may be followed by a point with more digits, or by a point alone, which no
longer lexeme holds.

There is one scan that takes these lexemes (`ScansTo.eq_ofChars`), and `Scan.Reaches` is its way
through a text. Its tokens are the longest lexemes at the places on this way, and its errors are the
characters there, other than blanks, with which no lexeme begins (`scan_takesLongest`).
-/

namespace FormulaCheck

-- ---------------------------------------------------------------------------
-- The longest lexeme
-- ---------------------------------------------------------------------------

structure LongestLexeme (k : Token.Kind) (l cs : List Char) : Prop where
  isLexeme : IsLexeme k l
  begins : l <+: cs
  longest : ∀ k' l', IsLexeme k' l' → l' <+: cs → l'.length ≤ l.length

def NoLexeme (cs : List Char) : Prop := ∀ k l, IsLexeme k l → ¬ l <+: cs

/-- A scan of a text comes to the place between a first part and the rest: it passes over a blank
and over a character with which no lexeme begins, and takes the longest lexeme anywhere else. -/
inductive Scan.Reaches : List Char → List Char → List Char → Prop
  | here : Reaches cs [] cs
  | blank : isBlank c = true → Reaches cs before rest → Reaches (c :: cs) (c :: before) rest
  | lexeme : LongestLexeme k l (l ++ cs) → Reaches cs before rest →
      Reaches (l ++ cs) (l ++ before) rest
  | error : isBlank c = false → NoLexeme (c :: cs) → Reaches cs before rest →
      Reaches (c :: cs) (c :: before) rest

inductive ScansTo : Position → List Char → Scan → Prop
  | nil : ScansTo p [] ⟨[], []⟩
  | blank : isBlank c = true → ScansTo (p.advance c) cs s → ScansTo p (c :: cs) s
  | lexeme : LongestLexeme k l (l ++ cs) → ScansTo (p.advanceBy l) cs s →
      ScansTo p (l ++ cs) { s with tokens := .ofLexeme k l p :: s.tokens }
  | error : isBlank c = false → NoLexeme (c :: cs) → ScansTo (p.advance c) cs s →
      ScansTo p (c :: cs) { s with errors := ⟨c, p⟩ :: s.errors }

variable {cs before rest l : List Char} {c : Char} {k : Token.Kind} {p : Position} {s : Scan}

theorem length_le_takeWhile {p : α → Bool} {l cs : List α} (hl : ∀ a ∈ l, p a = true)
    (h : l <+: cs) : l.length ≤ (cs.takeWhile p).length := by
  obtain ⟨more, rfl⟩ := h
  rw [List.takeWhile_append_of_pos hl, List.length_append]
  exact Nat.le_add_right ..

namespace Lexeme

@[simp] theorem kind_number (c : Char) (cs : List Char) : (number c cs).kind = .number := by
  unfold number
  split
  · split <;> rfl
  · rfl

theorem length_takeWhile_lt_number (c : Char) (cs : List Char) :
    (cs.takeWhile Char.isDigit).length < (number c cs).chars.length := by
  unfold number
  split
  · split
    · simp only [List.length_append, List.length_cons]
      omega
    · exact Nat.lt_succ_self _
  · exact Nat.lt_succ_self _

theorem length_lt_number_of_decimal (hds : ∀ d ∈ ds, Char.isDigit d = true)
    (he : Char.isDigit e = true) (hes : ∀ e ∈ es, Char.isDigit e = true)
    (h : ds ++ '.' :: e :: es <+: cs) :
    (ds ++ '.' :: e :: es).length < (number c cs).chars.length := by
  obtain ⟨more, rfl⟩ := h
  have hpoint : ∀ c rest, '.' :: e :: (es ++ more) = c :: rest → ¬ c.isDigit = true := by
    rintro _ _ ⟨⟩
    simp
  obtain ⟨htake, hdrop⟩ := takeWhile_append hds hpoint
  have hle := length_le_takeWhile hes (List.prefix_append es more)
  rw [List.append_assoc, List.cons_append, List.cons_append, number, htake, hdrop]
  simp only [he, if_true, List.length_append, List.length_cons]
  omega

/-- Where a text begins with a lexeme, the one that is found has the same kind and is no shorter. -/
theorem exists_longest?_of_begins (h : IsLexeme k (c :: l)) (hl : l <+: cs) :
    ∃ found, longest? c cs = some found ∧ found.kind = k ∧ l.length < found.chars.length := by
  generalize hall : c :: l = all at h
  cases h with
  | whole _ hds =>
    subst hall
    refine ⟨_, longest?_digit (hds c (List.mem_cons_self ..)), kind_number .., ?_⟩
    have hle := length_le_takeWhile (fun d hd => hds d (List.mem_cons_of_mem c hd)) hl
    exact hle.trans_lt (length_takeWhile_lt_number c cs)
  | @decimal ds es hne hds hne' hes =>
    obtain ⟨d, ds, rfl⟩ := List.exists_cons_of_ne_nil hne
    obtain ⟨e, es, rfl⟩ := List.exists_cons_of_ne_nil hne'
    rw [List.cons_append] at hall
    cases hall
    refine ⟨_, longest?_digit (hds c (List.mem_cons_self ..)), kind_number .., ?_⟩
    exact length_lt_number_of_decimal (fun d hd => hds d (List.mem_cons_of_mem c hd))
      (hes e (List.mem_cons_self ..)) (fun d hd => hes d (List.mem_cons_of_mem e hd)) hl
  | name hc hds =>
    cases hall
    refine ⟨_, longest?_letter hc, rfl, ?_⟩
    exact Nat.lt_succ_of_le (length_le_takeWhile hds hl)
  | _ =>
    cases hall
    exact ⟨_, rfl, rfl, Nat.one_pos⟩

theorem longestLexeme_of_longest? (h : longest? c cs = some found) :
    LongestLexeme found.kind found.chars (c :: cs) := by
  obtain ⟨hlexeme, hcs⟩ := longest?_sound h
  refine ⟨hlexeme, ⟨found.rest, hcs.symm⟩, fun k l hl hbegins => ?_⟩
  obtain ⟨d, l, rfl⟩ := List.exists_cons_of_ne_nil hl.ne_nil
  obtain ⟨rfl, hmore⟩ := List.cons_prefix_cons.mp hbegins
  obtain ⟨found', hfound, -, hlength⟩ := exists_longest?_of_begins hl hmore
  cases h.symm.trans hfound
  exact hlength

theorem longest?_of_longestLexeme (h : LongestLexeme k (c :: l) (c :: (l ++ rest))) :
    longest? c (l ++ rest) = some ⟨k, c :: l, rest⟩ := by
  obtain ⟨⟨kind, chars, rest'⟩, hfound, rfl, -⟩ :=
    exists_longest?_of_begins h.isLexeme (List.prefix_append l rest)
  have hlongest := longestLexeme_of_longest? hfound
  have hchars : chars = c :: l :=
    (List.prefix_of_prefix_length_le hlongest.begins h.begins
      (h.longest _ _ hlongest.isLexeme hlongest.begins)).eq_of_length_le
      (hlongest.longest _ _ h.isLexeme h.begins)
  subst hchars
  obtain rfl : rest = rest' := by simpa using (longest?_sound hfound).2
  exact hfound

theorem longest?_eq_none_iff : longest? c cs = none ↔ NoLexeme (c :: cs) := by
  constructor
  · intro h k l hl hbegins
    obtain ⟨d, l, rfl⟩ := List.exists_cons_of_ne_nil hl.ne_nil
    obtain ⟨rfl, hmore⟩ := List.cons_prefix_cons.mp hbegins
    obtain ⟨found, hfound, -⟩ := exists_longest?_of_begins hl hmore
    cases h.symm.trans hfound
  · intro h
    by_contra hsome
    obtain ⟨found, hfound⟩ := Option.ne_none_iff_exists'.mp hsome
    obtain ⟨hlexeme, hcs⟩ := longest?_sound hfound
    exact h _ _ hlexeme ⟨found.rest, hcs.symm⟩

end Lexeme

-- ---------------------------------------------------------------------------
-- Scans
-- ---------------------------------------------------------------------------

theorem scansTo_ofChars (p : Position) (cs : List Char) : ScansTo p cs (Scan.ofChars p cs) := by
  fun_induction Scan.ofChars p cs with
  | case1 => exact .nil
  | case2 p c cs hblank ih => exact .blank hblank ih
  | case3 p c cs _ found hfound rest ih =>
    have hlongest := Lexeme.longestLexeme_of_longest? hfound
    obtain ⟨hlexeme, hcs⟩ := Lexeme.longest?_sound hfound
    rw [hcs] at hlongest ⊢
    exact .lexeme hlongest (hlexeme.advanceBy p ▸ ih)
  | case4 p c cs hblank hnone rest ih =>
    exact .error (Bool.not_eq_true _ ▸ hblank) (Lexeme.longest?_eq_none_iff.mp hnone) ih

theorem ScansTo.eq_ofChars (h : ScansTo p cs s) : s = Scan.ofChars p cs := by
  induction h with
  | nil => rw [Scan.ofChars]
  | blank hblank _ ih => rw [Scan.ofChars, if_pos hblank, ih]
  | @lexeme k l cs p _ hl _ ih =>
    obtain ⟨c, m, rfl⟩ := List.exists_cons_of_ne_nil hl.isLexeme.ne_nil
    have hblank : ¬ isBlank c = true := by simp [hl.isLexeme.isBlank_eq_false]
    have hlongest := Lexeme.longest?_of_longestLexeme hl
    rw [ih, List.cons_append, Scan.ofChars, if_neg hblank, hl.isLexeme.advanceBy]
    split
    · next found hfound =>
      cases hlongest.symm.trans hfound
      rfl
    · next hnone => cases hlongest.symm.trans hnone
  | error hblank hnone _ ih =>
    have hnone := Lexeme.longest?_eq_none_iff.mpr hnone
    rw [ih, Scan.ofChars, if_neg (by simp [hblank])]
    split
    · next found hfound => cases hnone.symm.trans hfound
    · rfl

-- ---------------------------------------------------------------------------
-- The way of a scan
-- ---------------------------------------------------------------------------

namespace Scan

theorem Reaches.eq_append (h : Reaches cs before rest) : cs = before ++ rest := by
  induction h with
  | here => rfl
  | blank _ _ ih | error _ _ _ ih => rw [ih, List.cons_append]
  | lexeme _ _ ih => rw [ih, List.append_assoc]

theorem Reaches.exists_scansTo (h : Reaches cs before rest)
    (hrest : ScansTo (p.advanceBy before) rest s) :
    ∃ s', ScansTo p cs s' ∧ s.tokens ⊆ s'.tokens ∧ s.errors ⊆ s'.errors := by
  induction h generalizing p with
  | here => exact ⟨s, hrest, List.Subset.refl _, List.Subset.refl _⟩
  | blank hblank _ ih =>
    obtain ⟨s', hs', hsubset⟩ := ih hrest
    exact ⟨s', .blank hblank hs', hsubset⟩
  | lexeme hl _ ih =>
    rw [Position.advanceBy_append] at hrest
    obtain ⟨s', hs', htokens, herrors⟩ := ih hrest
    exact ⟨_, .lexeme hl hs', fun _ ht => List.mem_cons_of_mem _ (htokens ht), herrors⟩
  | error hblank hnone _ ih =>
    obtain ⟨s', hs', htokens, herrors⟩ := ih hrest
    exact ⟨_, .error hblank hnone hs', htokens, fun _ he => List.mem_cons_of_mem _ (herrors he)⟩

theorem exists_reaches_of_mem_tokens (h : ScansTo p cs s) (ht : t ∈ s.tokens) :
    ∃ before l after, Reaches cs before (l ++ after) ∧ LongestLexeme t.kind l (l ++ after) ∧
      t = .ofLexeme t.kind l (p.advanceBy before) := by
  induction h with
  | nil => cases ht
  | blank hblank _ ih =>
    obtain ⟨before, l, after, hreaches, hl, ht⟩ := ih ht
    exact ⟨_ :: before, l, after, .blank hblank hreaches, hl, ht⟩
  | @lexeme k l' cs _ _ hlongest _ ih =>
    rcases List.mem_cons.mp ht with rfl | ht
    · exact ⟨[], l', cs, .here, hlongest, rfl⟩
    · obtain ⟨before, l, after, hreaches, hl, ht⟩ := ih ht
      rw [← Position.advanceBy_append] at ht
      exact ⟨l' ++ before, l, after, .lexeme hlongest hreaches, hl, ht⟩
  | error hblank hnone _ ih =>
    obtain ⟨before, l, after, hreaches, hl, ht⟩ := ih ht
    exact ⟨_ :: before, l, after, .error hblank hnone hreaches, hl, ht⟩

theorem exists_reaches_of_mem_errors (h : ScansTo p cs s) (he : e ∈ s.errors) :
    ∃ before after, Reaches cs before (e.char :: after) ∧ isBlank e.char = false ∧
      NoLexeme (e.char :: after) ∧ e.place = p.advanceBy before := by
  induction h with
  | nil => cases he
  | blank hblank _ ih =>
    obtain ⟨before, after, hreaches, he⟩ := ih he
    exact ⟨_ :: before, after, .blank hblank hreaches, he⟩
  | @lexeme k l cs _ _ hlongest _ ih =>
    obtain ⟨before, after, hreaches, he⟩ := ih he
    rw [← Position.advanceBy_append] at he
    exact ⟨l ++ before, after, .lexeme hlongest hreaches, he⟩
  | @error _ cs _ _ hblank hnone _ ih =>
    rcases List.mem_cons.mp he with rfl | he
    · exact ⟨[], cs, .here, hblank, hnone, rfl⟩
    · obtain ⟨before, after, hreaches, he⟩ := ih he
      exact ⟨_ :: before, after, .error hblank hnone hreaches, he⟩

-- ---------------------------------------------------------------------------
-- All that a scan finds
-- ---------------------------------------------------------------------------

/-- What is found in a text are the longest lexemes at the places that a scan reaches, and the
characters there that are not blank and begin no lexeme. -/
structure TakesLongest (s : Scan) (cs : List Char) : Prop where
  token_iff : ∀ t, t ∈ s.tokens ↔ ∃ before l after, cs = before ++ (l ++ after) ∧
    Reaches cs before (l ++ after) ∧ LongestLexeme t.kind l (l ++ after) ∧
    t = .ofLexeme t.kind l (Position.origin.advanceBy before)
  error_iff : ∀ e, e ∈ s.errors ↔ ∃ before after, cs = before ++ e.char :: after ∧
    Reaches cs before (e.char :: after) ∧ isBlank e.char = false ∧
    NoLexeme (e.char :: after) ∧ e.place = Position.origin.advanceBy before

end Scan

/-- A scan takes the longest lexeme wherever it comes to one, and makes an error of a character
exactly if it comes to it, no lexeme begins there, and it is not blank. -/
theorem scan_takesLongest (text : String) : (scan text).TakesLongest text.toList := by
  have hscan : ScansTo .origin text.toList (scan text) := scansTo_ofChars ..
  constructor
  · intro t
    constructor
    · intro ht
      obtain ⟨before, l, after, hreaches, hl, ht⟩ := Scan.exists_reaches_of_mem_tokens hscan ht
      exact ⟨before, l, after, hreaches.eq_append, hreaches, hl, ht⟩
    · rintro ⟨before, l, after, -, hreaches, hl, ht⟩
      obtain ⟨s, hs, htokens, -⟩ := hreaches.exists_scansTo (.lexeme hl (scansTo_ofChars ..))
      rw [hscan.eq_ofChars, ← hs.eq_ofChars, ht]
      exact htokens (List.mem_cons_self ..)
  · intro e
    constructor
    · intro he
      obtain ⟨before, after, hreaches, he⟩ := Scan.exists_reaches_of_mem_errors hscan he
      exact ⟨before, after, hreaches.eq_append, hreaches, he⟩
    · rintro ⟨before, after, -, hreaches, hblank, hnone, hplace⟩
      obtain ⟨s, hs, -, herrors⟩ :=
        hreaches.exists_scansTo (.error hblank hnone (scansTo_ofChars ..))
      rw [hscan.eq_ofChars, ← hs.eq_ofChars]
      rw [← hplace] at herrors
      exact herrors (List.mem_cons_self ..)

example : (scan "1.2.3x").tokens.map Token.text = ["1.2", "3", "x"] ∧
    (scan "1.2.3x").errors = [⟨'.', 1, 4⟩] := by
  decide +kernel

end FormulaCheck
