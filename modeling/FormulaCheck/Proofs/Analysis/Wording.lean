import FormulaCheck.Proofs.Analysis.Located
import FormulaCheck.Proofs.GivenUp
import FormulaCheck.Proofs.RawCheck.Tokens

/-!
# Complaints about tokens

What is said about a fault is found by looking at the characters around it: whether the fault stands
in the first column, which character other than a blank comes before it, and whether it stands in the
last column. On a line that can be scanned this says what the tokens say: whether there is a token
before it, which one, and whether there is one after it (`Token.complaintBetween`).

The line has no blanks at its ends. So its first token is in the first column and its last token ends
in the last one, and in front of any other token the last character that is not blank is the last
one of the token before (`LineCut.lastInk?_eq`). The characters of operators are in no other
lexeme, so that this character is an operator exactly if that token is.
-/

namespace FormulaCheck

-- ---------------------------------------------------------------------------
-- Complaints by tokens
-- ---------------------------------------------------------------------------

def Token.complaintBetween (before after : List Token) (t : Token) : Complaint :=
  if t.kind.isOperator then
    match before.getLast? with
    | none => .startsWithOperator t.text
    | some left =>
      if left.kind.isOperator then .consecutiveOperators left.firstChar t.text
      else if after.isEmpty then .endsWithOperator t.text
      else .unexpectedOperator t.text t.startColumn
  else match t.kind with
    | .closeParen => .unmatchedClosing
    | .openParen => .unmatchedOpening
    | _ => .unexpectedToken t.text t.startColumn

def complaintBehind (ts : List Token) : Complaint :=
  match ts.getLast?.filter fun last => last.kind.isOperator with
  | some last => .endsWithOperator last.text
  | none => .unexpectedEnd

inductive Fault.Worded : List Token → Fault → Complaint → Prop
  | unexpected : Worded (before ++ t :: after) (.unexpected t) (t.complaintBetween before after)
  | endOfInput : Worded ts .endOfInput (complaintBehind ts)

variable {line : String} {number : Nat} {cs : List Char} {ts before after : List Token} {t : Token}

-- ---------------------------------------------------------------------------
-- Texts without blanks at their ends
-- ---------------------------------------------------------------------------

structure Trimmed (cs : List Char) : Prop where
  first : ∀ c ∈ cs.head?, isBlank c = false
  last : ∀ c ∈ cs.getLast?, isBlank c = false

theorem trimmed_trim (text : String) : Trimmed (Text.trim text).toList where
  first c hc := by
    obtain ⟨rest, hrest⟩ := List.head?_eq_some_iff.mp hc
    exact isBlank_eq_false_of_trim hrest
  last _ := isBlank_eq_false_of_getLast?_trim

theorem Trimmed.trimChars_eq (h : Trimmed cs) : Text.trimChars cs = cs := by
  have hfirst : cs.dropWhile isBlank = cs :=
    List.dropWhile_eq_self_iff.mpr fun hl => by
      simp [h.first _ (List.head?_eq_getElem? ▸ List.getElem?_eq_getElem hl)]
  rw [Text.trimChars, hfirst, Text.trimEndChars_eq_self h.last]

-- ---------------------------------------------------------------------------
-- The last character before a token
-- ---------------------------------------------------------------------------

namespace LineCut

variable {column : Nat}

theorem lastInk?_eq (h : LineCut column cs ts) :
    Fault.lastInk? cs = ts.getLast?.map Token.lastChar := by
  have hchars : cs.reverse = (cs.zipIdx column).reverse.map Prod.fst := by simp
  have hfind := congrArg (Option.map Prod.fst) h.find?_ink_reverse
  rw [Option.map_map] at hfind
  rw [Fault.lastInk?, hchars, List.find?_map]
  exact hfind

theorem isOperator_lastChar (h : LineCut column cs ts) (ht : t ∈ ts) :
    Alphabet.isOperator t.lastChar = t.kind.isOperator := by
  obtain ⟨k, l, p, hlexeme, rfl⟩ := h.exists_lexeme ht
  exact hlexeme.isOperator_lastChar

theorem text_of_isOperator (h : LineCut column cs ts) (ht : t ∈ ts)
    (hop : t.kind.isOperator = true) :
    t.text = t.firstChar.toString ∧ t.lastChar = t.firstChar := by
  obtain ⟨k, l, p, hlexeme, rfl⟩ := h.exists_lexeme ht
  obtain ⟨op, rfl, -⟩ := hlexeme.isOperator_eq_singleton hop
  rw [Token.firstChar_ofLexeme, ← List.nil_append [op], Token.lastChar_ofLexeme]
  exact ⟨rfl, rfl⟩

end LineCut

-- ---------------------------------------------------------------------------
-- Complaints
-- ---------------------------------------------------------------------------

section

variable {cs₁ cs₂ : List Char} {c : Char} {column : Nat} {p : Position}

theorem Trimmed.eq_nil_of_nil (h : Trimmed (cs₁ ++ c :: cs₂)) (hcut : LineCut column cs₁ []) :
    cs₁ = [] := by
  cases hcut with
  | nil => rfl
  | @blank b _ _ _ hblank _ =>
    have hb := h.first b rfl
    rw [hblank] at hb
    cases hb

/-- In the last column there is the last token. -/
theorem Trimmed.isEmpty_iff (h : Trimmed (cs₁ ++ c :: cs₂)) (hcut : PlacedCut p cs₂ after) :
    after.isEmpty = true ↔ cs₁.length + 1 = (cs₁ ++ c :: cs₂).length := by
  have hnil : after = [] ↔ cs₂ = [] := by
    constructor
    · rintro rfl
      exact hcut.eq_nil_of_nil fun d hd => h.last d (by simp_all [List.getLast?_cons])
    · rintro rfl
      simpa using hcut.cut.eq_nil_of_blank (List.forall_mem_nil _)
  rw [List.isEmpty_iff, hnil]
  simp

theorem complaintAtOperator_eq (h : Trimmed (cs₁ ++ c :: cs₂)) (hbefore : LineCut column cs₁ before)
    (hafter : PlacedCut p cs₂ after) (op : String) :
    Fault.complaintAtOperator (cs₁ ++ c :: cs₂) op (cs₁.length + 1) =
      match before.getLast? with
      | none => .startsWithOperator op
      | some left =>
        if left.kind.isOperator then .consecutiveOperators left.firstChar op
        else if after.isEmpty then .endsWithOperator op
        else .unexpectedOperator op (cs₁.length + 1) := by
  cases hleft : before.getLast? with
  | none =>
    obtain rfl := List.getLast?_eq_none_iff.mp hleft
    obtain rfl := h.eq_nil_of_nil hbefore
    rfl
  | some left =>
    have hmem := List.mem_of_getLast? hleft
    have hink := hbefore.lastInk?_eq
    have hcolumn : cs₁.length + 1 ≠ 1 := by
      intro hone
      obtain rfl := List.length_eq_zero_iff.mp (Nat.succ.inj hone)
      rw [hleft] at hink
      cases hink
    rw [Fault.complaintAtOperator, if_neg hcolumn, Nat.add_sub_cancel, List.take_left, hink, hleft,
      Option.map_some, Option.filter_some, hbefore.isOperator_lastChar hmem, h.trimChars_eq]
    cases hop : left.kind.isOperator with
    | true => simp [hop, (hbefore.text_of_isOperator hmem hop).2]
    | false => simp [hop, h.isEmpty_iff hafter]

theorem PlacedCut.complaintAtToken_eq (h : PlacedCut .origin cs (before ++ t :: after))
    (htrimmed : Trimmed cs) (hline : '\n' ∉ cs) :
    Fault.complaintAtToken cs t = t.complaintBetween before after := by
  obtain ⟨cs₁, k, l, cs₂, rfl, hlexeme, rfl, hbefore, hafter⟩ := h.split
  have hfeed : '\n' ∉ cs₁ := fun hmem => hline (List.mem_append_left _ hmem)
  have hplace : Position.origin.advanceBy cs₁ = ⟨1, cs₁.length + 1⟩ := by
    rw [Position.advanceBy_of_not_mem hfeed, Nat.add_comm]
    rfl
  have hcolumn : max (cs₁.length + 1) 1 = cs₁.length + 1 := Nat.max_eq_left (Nat.le_add_left ..)
  rw [hplace]
  unfold Fault.complaintAtToken Token.complaintBetween
  rw [Token.kind_ofLexeme]
  by_cases hop : k.isOperator = true
  · obtain ⟨op, rfl, -⟩ := hlexeme.isOperator_eq_singleton hop
    rw [if_pos hop, if_pos hop]
    simp only [Token.ofLexeme, hcolumn]
    exact complaintAtOperator_eq htrimmed (hbefore.lineCut hfeed) hafter _
  · obtain ⟨c, l, rfl⟩ := List.exists_cons_of_ne_nil hlexeme.ne_nil
    have hread : (cs₁ ++ (c :: l ++ cs₂))[cs₁.length]? = some c := by simp
    have hallowed := hlexeme.isAllowed (List.mem_cons_self ..)
    rw [if_neg hop, if_neg hop]
    cases k with
    | closeParen | openParen => rfl
    | _ => simp only [Token.ofLexeme, hcolumn, Nat.add_sub_cancel, hread, hallowed, if_true]

theorem LineCut.complaintAtEnd_eq (h : LineCut column cs ts) :
    Fault.complaintAtEnd cs = complaintBehind ts := by
  unfold Fault.complaintAtEnd complaintBehind
  rw [h.lastInk?_eq]
  cases hlast : ts.getLast? with
  | none => rfl
  | some last =>
    have hmem := List.mem_of_getLast? hlast
    rw [Option.map_some, Option.filter_some]
    simp only [h.isOperator_lastChar hmem]
    cases hop : last.kind.isOperator with
    | true =>
      obtain ⟨htext, hchar⟩ := h.text_of_isOperator hmem hop
      simp [htext, hchar]
    | false => rfl

end

theorem Fault.worded_complaint (hcut : PlacedCut .origin cs ts) (htrimmed : Trimmed cs)
    (hline : '\n' ∉ cs) {fault : Fault} (hmem : ∀ t, fault = .unexpected t → t ∈ ts) :
    fault.Worded ts (fault.complaint cs) := by
  cases fault with
  | unexpected t =>
    obtain ⟨before, after, rfl⟩ := List.append_of_mem (hmem t rfl)
    rw [Fault.complaint, hcut.complaintAtToken_eq htrimmed hline]
    exact .unexpected
  | endOfInput =>
    rw [Fault.complaint, (hcut.lineCut hline).complaintAtEnd_eq]
    exact .endOfInput

theorem Diagnostic.message_ofFault (tokens : List Token) (cs : List Char) (fault : Fault) :
    (ofFault tokens cs fault).message = (fault.complaint cs).message := by
  cases fault <;> rfl

-- ---------------------------------------------------------------------------
-- All faults of a line
-- ---------------------------------------------------------------------------

/-- The faults of a line are shown after the findings of the raw checks, each with the words for its
place among the tokens. An operator, of which the words show the first character only, has no
others. -/
theorem worded_of_parse (hline : '\n' ∉ (Text.trim line).toList)
    (herrors : (scan (Text.trim line)).errors = [])
    (hparse : parse defaultNestingLimit (scan (Text.trim line)).tokens = .ok p) :
    (∃ shown, (analyzeLine line number).diagnostics = rawCheck (Text.trim line) ++ shown ∧
      List.Forall₂ (fun (fault : Fault) (d : Diagnostic) => ∃ complaint,
        fault.Worded (scan (Text.trim line)).tokens complaint ∧ d.message = complaint.message)
        p.faults shown) ∧
    ∀ t ∈ (scan (Text.trim line)).tokens, t.kind.isOperator = true →
      t.text = t.firstChar.toString := by
  have hcut : PlacedCut .origin (Text.trim line).toList (scan (Text.trim line)).tokens :=
    Scan.placedCut herrors
  constructor
  · rw [analyzeLine_of_ok herrors hparse]
    refine ⟨_, rfl, ?_⟩
    rw [List.forall₂_map_right_iff, List.forall₂_same]
    intro fault hfault
    refine ⟨_, Fault.worded_complaint hcut (trimmed_trim line) hline ?_,
      Diagnostic.message_ofFault ..⟩
    rintro t rfl
    exact mem_of_unexpected hparse hfault
  · intro t ht hop
    exact ((hcut.lineCut hline).text_of_isOperator ht hop).1

/-- The faults of this line are the operator in front, the operator after another one and the number
after another one. -/
theorem worded_of_parse_threeFaults : ∃ p,
    '\n' ∉ (Text.trim " * 3 + / 2 4 ").toList ∧ (scan (Text.trim " * 3 + / 2 4 ")).errors = [] ∧
    parse defaultNestingLimit (scan (Text.trim " * 3 + / 2 4 ")).tokens = .ok p ∧
    (∃ shown, (analyzeLine " * 3 + / 2 4 " 1).diagnostics =
        rawCheck (Text.trim " * 3 + / 2 4 ") ++ shown ∧
      List.Forall₂ (fun (fault : Fault) (d : Diagnostic) => ∃ complaint,
        fault.Worded (scan (Text.trim " * 3 + / 2 4 ")).tokens complaint ∧
          d.message = complaint.message) p.faults shown) ∧
    (analyzeLine " * 3 + / 2 4 " 1).diagnostics.map Diagnostic.message =
      ["Expression cannot start with operator '*'", "Expression cannot start with operator '*'",
        "Consecutive operators '+/' are not allowed",
        "Syntax error at position 11: unexpected '4'"] := by
  have hline : '\n' ∉ (Text.trim " * 3 + / 2 4 ").toList := by decide +kernel
  have herrors : (scan (Text.trim " * 3 + / 2 4 ")).errors = [] := by decide +kernel
  have hcount : Parse.countOpening (scan (Text.trim " * 3 + / 2 4 ")).tokens ≤
      defaultNestingLimit := by decide +kernel
  obtain ⟨p, hp⟩ := exists_parse hcount
  exact ⟨p, hline, herrors, hp, (worded_of_parse hline herrors hp).1, by decide +kernel⟩

end FormulaCheck
