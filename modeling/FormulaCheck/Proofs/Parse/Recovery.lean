import FormulaCheck.Proofs.Parse.Reads
import Mathlib.Data.List.Basic

/-!
# No token is lost

What a parse reads either goes into the tree or is the place of a fault, and what it does not read
begins at its last fault. The reason is that a parse leaves a token out only right after a report,
and that while it recovers its latest fault is at the next token (`State.Anchored`), so that no
report is in vain.
-/

namespace FormulaCheck

namespace Parse

-- ---------------------------------------------------------------------------
-- Reports
-- ---------------------------------------------------------------------------

namespace State

variable {s : State}

theorem rest_report_skip (hs : s.rest = t :: more) : s.report.skip.rest = more := by
  simp [hs]

/-- While the parse recovers, its latest fault is at the next token. -/
def Anchored (s : State) : Prop :=
  s.recovering = true → s.faults.head? = some (.ofNext? s.rest.head?)

theorem anchored_take (s : State) : s.take.Anchored := nofun

/-- After a report the latest fault is at the next token, also if the report was held back. -/
theorem Anchored.head?_report (h : s.Anchored) :
    s.report.faults.head? = some (.ofNext? s.rest.head?) := by
  unfold report
  dsimp only
  split
  · next hkept =>
    rcases Bool.or_eq_true_iff.mp hkept with hrecovering | hsame
    · exact h hrecovering
    · exact eq_of_beq hsame
  · rfl

theorem Anchored.report (h : s.Anchored) : s.report.Anchored := by
  intro _
  rw [rest_report]
  exact h.head?_report

theorem Anchored.unexpected_mem_report (h : s.Anchored) (hs : s.rest = t :: more) :
    .unexpected t ∈ s.report.faults := by
  have hhead := h.head?_report
  rw [hs] at hhead
  exact List.mem_of_head? hhead

end State

-- ---------------------------------------------------------------------------
-- The tokens that are read
-- ---------------------------------------------------------------------------

structure ReadToken where
  token : Token
  kept : Bool

def keptTokens (read : List ReadToken) : List Token :=
  read.filterMap fun r => if r.kept then some r.token else none

theorem keptTokens_sublist (read : List ReadToken) :
    (keptTokens read).Sublist (read.map ReadToken.token) := by
  have hkept : keptTokens read = (read.filter ReadToken.kept).map ReadToken.token := by
    rw [keptTokens, ← List.filterMap_eq_map, List.filterMap_filter]
    exact List.filterMap_congr fun r _ => rfl
  rw [hkept]
  exact List.filter_sublist.map _

/-- From one state to another some tokens go into the tree, and every other token that is read is
the place of a fault. -/
def Accounts (s : State) (kept : List Token) (s' : State) : Prop :=
  s.faults <:+ s'.faults ∧ ∃ read, s.rest = read.map ReadToken.token ++ s'.rest ∧
    keptTokens read = kept ∧ ∀ r ∈ read, r.kept = false → .unexpected r.token ∈ s'.faults

namespace Accounts

theorem refl (s : State) : Accounts s [] s := ⟨List.suffix_rfl, [], rfl, rfl, nofun⟩

theorem trans (h : Accounts s kept s₁) (h' : Accounts s₁ kept' s₂) :
    Accounts s (kept ++ kept') s₂ := by
  obtain ⟨hsuffix, read, hrest, rfl, hdropped⟩ := h
  obtain ⟨hsuffix', read', hrest', rfl, hdropped'⟩ := h'
  refine ⟨hsuffix.trans hsuffix', read ++ read', ?_, ?_, ?_⟩
  · rw [hrest, hrest', List.map_append, List.append_assoc]
  · simp [keptTokens]
  · intro r hr hkept
    rcases List.mem_append.mp hr with hr | hr
    · exact hsuffix'.mem (hdropped r hr hkept)
    · exact hdropped' r hr hkept

theorem take (hs : State.rest s = t :: more) : Accounts s [t] s.take :=
  ⟨List.suffix_rfl, [⟨t, true⟩], by simp [hs], rfl, by simp⟩

theorem report (s : State) : Accounts s [] s.report :=
  ⟨s.faults_suffix_report, [], by simp, rfl, nofun⟩

theorem report_skip (h : s.Anchored) (hs : s.rest = t :: more) : Accounts s [] s.report.skip := by
  refine ⟨s.faults_suffix_report, [⟨t, false⟩], by simp [hs], rfl, ?_⟩
  simpa using h.unexpected_mem_report hs

theorem sublist (h : Accounts s kept s') : kept.Sublist s.rest := by
  obtain ⟨-, read, hrest, rfl, -⟩ := h
  rw [hrest]
  exact (keptTokens_sublist read).trans (List.sublist_append_left ..)

end Accounts

-- ---------------------------------------------------------------------------
-- Readings account for their tokens
-- ---------------------------------------------------------------------------

/-- The part may be read here: in front of a factor that begins, the latest fault may be at the
token that was left out. -/
def State.Ready (s : State) : Part → Prop
  | .factor => s.factorNext = true ∨ s.Anchored
  | .chain _ | .tail _ => s.Anchored

theorem State.Anchored.ready (h : State.Anchored s) (part : Part) : s.Ready part := by
  cases part with
  | factor => exact .inr h
  | chain | tail => exact h

theorem Closes.anchored (h : Closes opening content s d s') (hs : s.Anchored) : s'.Anchored := by
  cases h with
  | closed => exact State.anchored_take _
  | junk => exact State.anchored_take _
  | assumed => exact hs.report

theorem Closes.accounts (h : Closes opening content s d s') (hs : s.Anchored) :
    ∃ closing, d.leaves = opening :: (content.leaves ++ closing) ∧ Accounts s closing s' := by
  cases h with
  | closed hrest => exact ⟨_, by simp [Tree.leaves, Tree.forestLeaves], .take hrest⟩
  | junk hrest =>
    refine ⟨_, by simp [Tree.leaves, Tree.forestLeaves]; rfl, ?_⟩
    exact (Accounts.report_skip hs hrest).trans (.take (State.rest_report_skip hrest))
  | assumed => exact ⟨[], by simp [Tree.leaves, Tree.forestLeaves], .report s⟩

theorem Reads.anchored (h : Reads n part s d s') (hs : s.Ready part) : s'.Anchored := by
  induction h with
  | chain _ _ ihFirst ihMore => exact ihMore (ihFirst (State.Anchored.ready hs _))
  | tailEnd => exact hs
  | tailMore _ _ _ _ ihOperand ihMore =>
    exact ihMore (ihOperand ((State.anchored_take _).ready _))
  | symbol => exact State.anchored_take _
  | group _ _ _ hclose ih => exact hclose.anchored (ih (State.anchored_take _))
  | stray hfactor hstray _ ih =>
    -- the latest fault is now behind, but the factor that begins here ends the recovery
    obtain ⟨t, next, rest, hrest, -, hnext⟩ := State.strayNext_iff.mp hstray
    exact ih (.inl (State.factorNext_iff.mpr ⟨next, rest, by simp [hrest], hnext⟩))
  | empty hfactor =>
    rcases hs with hs | hs
    · simp [hfactor] at hs
    · exact hs.report

theorem Reads.accounts (h : Reads n part s d s') (hs : s.Ready part) :
    Accounts s d.leaves s' := by
  induction h with
  | chain hfirst _ ihFirst ihMore =>
    have hs₁ := hfirst.anchored (State.Anchored.ready hs _)
    have hboth := (ihFirst (State.Anchored.ready hs _)).trans (ihMore hs₁)
    simpa [Tree.leaves, Tree.forestLeaves] using hboth
  | tailEnd => exact .refl _
  | tailMore hrest _ hoperand _ ihOperand ihMore =>
    have hs₁ := hoperand.anchored ((State.anchored_take _).ready _)
    have hboth := (ihOperand ((State.anchored_take _).ready _)).trans (ihMore hs₁)
    simpa [Tree.leaves, Tree.forestLeaves] using (Accounts.take hrest).trans hboth
  | symbol hrest => simpa [Tree.leaves, Tree.forestLeaves] using Accounts.take hrest
  | group hrest _ hinner hclose ih =>
    obtain ⟨closing, hleaves, hclosing⟩ := hclose.accounts (hinner.anchored (State.anchored_take _))
    have hboth := (ih (State.anchored_take _)).trans hclosing
    rw [hleaves]
    exact (Accounts.take hrest).trans hboth
  | stray hfactor hstray _ ih =>
    obtain ⟨t, next, rest, hrest, -, hnext⟩ := State.strayNext_iff.mp hstray
    have hs' : State.Anchored _ := hs.resolve_left (by simp [hfactor])
    have hskip := Accounts.report_skip hs' hrest
    exact hskip.trans (ih (.inl (State.factorNext_iff.mpr ⟨next, rest, by simp [hrest], hnext⟩)))
  | empty => exact .report _

theorem ReadsStatement.accounts (h : ReadsStatement n s d s') (hs : s.Anchored) :
    Accounts s d.leaves s' ∧ s'.Anchored := by
  cases h with
  | assigned hrest _ _ hvalue =>
    have hs₂ : s.take.take.Anchored := State.anchored_take _
    have htarget := (Accounts.take hrest).trans (.take (by rw [State.rest_take, hrest]; rfl))
    refine ⟨?_, hvalue.anchored hs₂⟩
    simpa [Tree.leaves, Tree.forestLeaves] using htarget.trans (hvalue.accounts hs₂)
  | plain _ hvalue =>
    refine ⟨?_, hvalue.anchored hs⟩
    simpa [Tree.leaves, Tree.forestLeaves] using hvalue.accounts hs

end Parse

-- ---------------------------------------------------------------------------
-- Indices of tokens
-- ---------------------------------------------------------------------------

/-- The tokens before some index, without those at the indices that are left out. -/
def tokensBefore (tokens : List Token) (stop : Nat) (leftOut : List Nat) : List Token :=
  ((List.range stop).filter (· ∉ leftOut)).filterMap (tokens[·]?)

theorem filterMap_range_getElem? (xs : List α) (f : α → Option β) :
    (List.range xs.length).filterMap (fun i => xs[i]?.bind f) = xs.filterMap f := by
  induction xs with
  | nil => rfl
  | cons x xs ih =>
    rw [List.length_cons, List.range_succ_eq_map, List.filterMap_cons, List.filterMap_map,
      List.filterMap_cons, ← ih]
    rfl

namespace Parse

/-- The indices of the tokens that were read but did not go into the tree. -/
def droppedIndices (read : List ReadToken) : List Nat :=
  (List.range read.length).filter fun i => read[i]?.any (!·.kept)

theorem mem_droppedIndices (read : List ReadToken) :
    i ∈ droppedIndices read ↔ ∃ r, read[i]? = some r ∧ r.kept = false := by
  simp only [droppedIndices, List.mem_filter, List.mem_range, Option.any_eq_true,
    Bool.not_eq_true']
  constructor
  · exact And.right
  · rintro ⟨r, hr, hkept⟩
    exact ⟨(List.getElem?_eq_some_iff.mp hr).1, r, hr, hkept⟩

theorem tokensBefore_droppedIndices (read : List ReadToken) (left : List Token) :
    tokensBefore (read.map ReadToken.token ++ left) read.length (droppedIndices read) =
      keptTokens read := by
  rw [keptTokens, ← filterMap_range_getElem? read, tokensBefore, List.filterMap_filter]
  apply List.filterMap_congr
  intro i hi
  have hlt : i < (read.map ReadToken.token).length := by simpa using hi
  obtain ⟨r, hr⟩ : ∃ r, read[i]? = some r := ⟨_, List.getElem?_eq_getElem (List.mem_range.mp hi)⟩
  rw [List.getElem?_append_left hlt, List.getElem?_map]
  simp only [mem_droppedIndices, hr]
  cases hkept : r.kept <;> simp [hkept]

end Parse

theorem leaves_subset_of_parse (h : parse limit tokens = .ok p) : p.tree.leaves ⊆ tokens := by
  obtain ⟨tree, faults⟩ := p
  obtain ⟨d, s, hreads, rfl, -⟩ := Parse.parse_ok_iff.mp h
  have hkept : d.leaves.Sublist tokens := (hreads.accounts nofun).1.sublist
  exact fun t ht => hkept.subset (d.leaves_arranged_perm.subset ht)

/-- Up to some index every token goes into the tree once or is the place of a fault, and the token
at that index, if there is one, is the place of the last fault. -/
def Parsed.AccountsFor (p : Parsed) (tokens : List Token) : Prop :=
  ∃ stop leftOut, stop ≤ tokens.length ∧ (∀ i ∈ leftOut, i < stop) ∧
    p.tree.leaves.Perm (tokensBefore tokens stop leftOut) ∧
    (∀ i ∈ leftOut, ∃ fault ∈ p.faults, fault.token? = tokens[i]?) ∧
    (stop < tokens.length → p.faults.getLast?.bind Fault.token? = tokens[stop]?)

theorem parse_accounts_for_tokens (h : parse limit tokens = .ok p) : p.AccountsFor tokens := by
  obtain ⟨tree, faults⟩ := p
  obtain ⟨d, s, hreads, rfl, rfl⟩ := Parse.parse_ok_iff.mp h
  obtain ⟨⟨-, read, hrest, hkept, hdropped⟩, hs⟩ := hreads.accounts nofun
  dsimp only at hrest
  subst hrest
  refine ⟨read.length, Parse.droppedIndices read, by simp, ?_, ?_, ?_, ?_⟩
  · intro i hi
    obtain ⟨r, hr, -⟩ := (Parse.mem_droppedIndices read).mp hi
    exact (List.getElem?_eq_some_iff.mp hr).1
  · rw [Parse.tokensBefore_droppedIndices, hkept]
    exact d.leaves_arranged_perm
  · intro i hi
    obtain ⟨r, hr, hfalse⟩ := (Parse.mem_droppedIndices read).mp hi
    have hfault := s.faults_suffix_finish.mem (hdropped r (List.mem_of_getElem? hr) hfalse)
    refine ⟨_, List.mem_reverse.mpr hfault, ?_⟩
    have hi : (read.map Parse.ReadToken.token)[i]? = some r.token := by simp [hr]
    rw [List.getElem?_append_left (List.getElem?_eq_some_iff.mp hi).1, hi]
    rfl
  · intro hlt
    rw [List.getLast?_reverse]
    cases hleft : s.rest with
    | nil => simp [hleft] at hlt
    | cons t left => simp [Parse.State.finish, hleft, hs.head?_report, Fault.ofNext?, Fault.token?]

/-- Of `+ a )` the plus sign is left out, and the parse stops at the parenthesis. -/
theorem parse_accounts_for_left_out :
    ∃ p, parse 256 [.ofLexeme .plus ['+'] ⟨1, 1⟩, .ofLexeme .name ['a'] ⟨1, 3⟩,
        .ofLexeme .closeParen [')'] ⟨1, 5⟩] = .ok p ∧
      p.tree.leaves = [.ofLexeme .name ['a'] ⟨1, 3⟩] ∧
      p.AccountsFor [.ofLexeme .plus ['+'] ⟨1, 1⟩, .ofLexeme .name ['a'] ⟨1, 3⟩,
        .ofLexeme .closeParen [')'] ⟨1, 5⟩] := by
  have hreads : Parse.ReadsStatement 256 ⟨[.ofLexeme .plus ['+'] ⟨1, 1⟩,
      .ofLexeme .name ['a'] ⟨1, 3⟩, .ofLexeme .closeParen [')'] ⟨1, 5⟩], [], false⟩ _ _ :=
    .plain rfl (.chain (.chain (.stray rfl rfl (.symbol rfl rfl)) (.tailEnd rfl)) (.tailEnd rfl))
  have hparse := Parse.parse_ok_iff.mpr ⟨_, _, hreads, rfl, rfl⟩
  exact ⟨_, hparse, rfl, parse_accounts_for_tokens hparse⟩

end FormulaCheck
